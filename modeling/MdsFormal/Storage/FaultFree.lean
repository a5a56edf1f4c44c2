import MdsFormal.Storage.File

/-!
# The record store without faults

With no answers queued every system call succeeds in full.  Each function then
has one outcome, given here by its result, the disk it leaves and the atoms of
its effects.
-/

namespace MdsFormal.Storage.FaultFree

open MdsFormal.Library.CrashDisk
open MdsFormal.Storage.Crc16
open MdsFormal.Storage.File

variable {disk : Disk FileName UInt8} {effects : List (Effect FileName UInt8)}

/-! ## System calls -/

theorem openRead_present {name : FileName} {content : Bytes} (hdisk : disk name = some content) :
    (Kernel.mk disk [] effects).openRead name = (.ok 3, ⟨disk, [], effects⟩) := by
  simp [Kernel.openRead, Kernel.consume, Kernel.answer, Answer.descriptor, hdisk]

theorem openWrite_truncate (name : FileName) :
    (Kernel.mk disk [] effects).openWrite name true =
      (.ok 3, ⟨Function.update disk name (some []), [], effects ++ [.truncate name]⟩) := rfl

theorem read_present {name : FileName} {content : Bytes} (hdisk : disk name = some content)
    (offset count : Nat) :
    (Kernel.mk disk [] effects).read name offset count =
      (.ok ((content.drop offset).take count), ⟨disk, [], effects⟩) := by
  simp only [Kernel.read, Kernel.content, Kernel.consume, Kernel.answer, Answer.transfer, hdisk,
    Option.getD_some, List.headD_nil, List.take_length, List.tail_nil]

theorem write_all (name : FileName) (offset : Nat) (bytes : Bytes) :
    (Kernel.mk disk [] effects).write name offset bytes =
      (.ok bytes.length, ⟨(Effect.write name offset bytes).apply disk, [],
        effects ++ [.write name offset bytes]⟩) := by
  simp [Kernel.write, Kernel.consume, Kernel.emit, Kernel.answer, Answer.transfer]

variable (effects)

/-- A write at the end of a file appends. -/
theorem write_append {name : FileName} {content : Bytes} (hdisk : disk name = some content)
    (bytes : Bytes) :
    (Kernel.mk disk [] effects).write name content.length bytes =
      (.ok bytes.length, ⟨Function.update disk name (some (content ++ bytes)), [],
        effects ++ [.write name content.length bytes]⟩) := by
  have hsplice : splice content content.length bytes = content ++ bytes := by
    simp [splice, List.drop_of_length_le]
  rw [write_all]
  simp [Effect.apply, hdisk, hsplice]

/-! ## Copying -/

theorem writeLoop_append {target : FileName} {content chunk : Bytes}
    (hdisk : disk target = some content) (fuel : Nat) :
    writeLoop target (fuel + 1) content.length chunk ⟨disk, [], effects⟩ =
      (true, ⟨Function.update disk target (some (content ++ chunk)), [],
        effects ++ [.write target content.length chunk]⟩) := by
  rw [writeLoop, write_append effects hdisk]
  simp

/-- The copy loop appends what is left of the source, in whatever chunks. -/
theorem copyLoop_append {source target : FileName} (hne : source ≠ target) (fuel : Nat)
    (copied rest : Bytes) (disk : Disk FileName UInt8)
    (effects : List (Effect FileName UInt8)) (hsource : disk source = some (copied ++ rest))
    (htarget : disk target = some copied) (hfuel : rest.length < fuel) :
    ∃ writes,
      copyLoop source target fuel copied.length ⟨disk, [], effects⟩ =
        (true, ⟨Function.update disk target (some (copied ++ rest)), [], effects ++ writes⟩) ∧
      atomsOf writes = pokes target copied.length rest := by
  induction fuel generalizing copied rest disk effects with
  | zero => omega
  | succ fuel ih =>
      rw [copyLoop, read_present hsource, List.drop_left]
      by_cases hrest : rest = []
      · refine ⟨[], ?_, by rw [hrest]; rfl⟩
        simp [hrest, ← htarget]
      · have hchunk : rest.take 4096 ≠ [] := by simpa using hrest
        have hpos : 0 < rest.length := List.length_pos_iff.mpr hrest
        have hwhole : (copied ++ rest.take 4096) ++ rest.drop 4096 = copied ++ rest := by
          rw [List.append_assoc, List.take_append_drop]
        obtain ⟨writes, hloop, hatoms⟩ := ih (copied ++ rest.take 4096) (rest.drop 4096)
          (Function.update disk target (some (copied ++ rest.take 4096)))
          (effects ++ [.write target copied.length (rest.take 4096)])
          (by rw [Function.update_of_ne hne, hsource, hwhole]) (by simp)
          (by rw [List.length_drop]; omega)
        rw [hwhole, Function.update_idem, List.length_append] at hloop
        refine ⟨.write target copied.length (rest.take 4096) :: writes, ?_, ?_⟩
        · simp only [hchunk, if_false]
          rw [List.length_nil, writeLoop_append _ htarget]
          dsimp only
          rw [hloop, List.append_assoc]
          rfl
        · have hpokes := pokes_append target copied.length (rest.take 4096) (rest.drop 4096)
          rw [List.take_append_drop, ← List.length_append, ← hatoms] at hpokes
          rw [hpokes]
          rfl

/-- A fault-free copy makes the target equal to the source. -/
theorem mdsApiCp_copies {source target : FileName} (hne : source ≠ target) {content : Bytes}
    (hsource : disk source = some content) :
    ∃ writes,
      mdsApiCp source target true ⟨disk, [], effects⟩ =
        (mdsApiOk, ⟨Function.update disk target (some content), [], effects ++ writes⟩) ∧
      atomsOf writes = .truncate target :: pokes target 0 content := by
  obtain ⟨writes, hloop, hatoms⟩ := copyLoop_append hne (content.length + 1) [] content
    (Function.update disk target (some [])) (effects ++ [.truncate target])
    (by rw [Function.update_of_ne hne, hsource]; rfl) (by simp) (by omega)
  refine ⟨.truncate target :: writes, ?_, ?_⟩
  · have hcontent : (Kernel.mk (Function.update disk target (some [])) []
        (effects ++ [.truncate target])).content source = content := by
      simp [Kernel.content, Function.update_of_ne hne, hsource]
    rw [mdsApiCp, openRead_present hsource]
    dsimp only
    rw [openWrite_truncate]
    dsimp only
    rw [hcontent, show (0 : Nat) = ([] : Bytes).length by rfl, hloop]
    simp [Kernel.attempt, Kernel.answer, Kernel.consume, Answer.succeeds]
  · rw [show Effect.truncate target :: writes = [.truncate target] ++ writes by rfl, atomsOf,
      List.flatMap_append]
    exact congrArg (List.cons _) hatoms

/-! ## Saving -/

/-- What a save puts into `file`: the payload and its CRC. -/
def record (endian : Endian) (pdata : Bytes) : Bytes :=
  pdata ++ storeU16 endian (mdsApiCrc16Get pdata)

/-- A complete record: `length` bytes followed by their matching CRC. -/
def IsRecord (endian : Endian) (length : Nat) (content : Bytes) : Prop :=
  content.length = length + 2 ∧
    loadU16 endian (content.drop length) = mdsApiCrc16Get (content.take length)

instance (endian : Endian) (length : Nat) (content : Bytes) :
    Decidable (IsRecord endian length content) :=
  inferInstanceAs (Decidable (_ ∧ _))

@[simp]
theorem length_record (endian : Endian) (pdata : Bytes) :
    (record endian pdata).length = pdata.length + 2 := by
  simp [record]

@[simp]
theorem take_record (endian : Endian) (pdata : Bytes) :
    (record endian pdata).take pdata.length = pdata :=
  List.take_left

theorem isRecord_record (endian : Endian) (pdata : Bytes) :
    IsRecord endian pdata.length (record endian pdata) := by
  refine ⟨length_record endian pdata, ?_⟩
  rw [take_record, record, List.drop_left, loadU16_storeU16]

/-- The atoms of `_file_backup`: nothing is copied when there is no `file`. -/
def backupAtoms (disk : Disk FileName UInt8) : List (Effect FileName UInt8) :=
  match disk .file with
  | none => []
  | some content => .truncate .bak :: pokes .bak 0 content

def backupDisk (disk : Disk FileName UInt8) : Disk FileName UInt8 :=
  match disk .file with
  | none => disk
  | some content => Function.update disk .bak (some content)

/-- The atoms of a save, in program order. -/
def saveAtoms (endian : Endian) (disk : Disk FileName UInt8) (pdata : Bytes) :
    List (Effect FileName UInt8) :=
  backupAtoms disk ++ .truncate .file :: pokes .file 0 (record endian pdata)

theorem fileBackup_copies (disk : Disk FileName UInt8)
    (effects : List (Effect FileName UInt8)) :
    ∃ writes,
      fileBackup ⟨disk, [], effects⟩ = ⟨backupDisk disk, [], effects ++ writes⟩ ∧
      atomsOf writes = backupAtoms disk := by
  cases hfile : disk .file with
  | none =>
      refine ⟨[], ?_, ?_⟩
      · simp [fileBackup, isExistFile, backupDisk, hfile]
      · simp [backupAtoms, hfile, atomsOf]
  | some content =>
      obtain ⟨writes, hcopy, hatoms⟩ :=
        mdsApiCp_copies effects (show FileName.file ≠ .bak by decide) hfile
      refine ⟨writes, ?_, ?_⟩
      · simp [fileBackup, isExistFile, backupDisk, hfile, hcopy]
      · simp [backupAtoms, hfile, hatoms]

theorem mdsApiStorageSaveFile_effects (endian : Endian) (disk : Disk FileName UInt8)
    (pdata : Bytes) (effects : List (Effect FileName UInt8)) :
    ∃ writes,
      mdsApiStorageSaveFile endian pdata ⟨disk, [], effects⟩ =
        (0, ⟨Function.update (backupDisk disk) .file (some (record endian pdata)), [],
          effects ++ writes⟩) ∧
      atomsOf writes = saveAtoms endian disk pdata := by
  obtain ⟨writes, hbackup, hatoms⟩ := fileBackup_copies disk effects
  refine ⟨writes ++ [.truncate .file, .write .file 0 pdata,
    .write .file pdata.length (storeU16 endian (mdsApiCrc16Get pdata))], ?_, ?_⟩
  · rw [mdsApiStorageSaveFile, hbackup, openWrite_truncate]
    dsimp only
    have hpayload := write_append (effects ++ writes ++ [.truncate .file])
      (Function.update_self FileName.file (some ([] : Bytes)) (backupDisk disk)) pdata
    rw [List.length_nil, Function.update_idem, List.nil_append] at hpayload
    rw [hpayload]
    dsimp only
    rw [write_append _ (Function.update_self FileName.file (some pdata) (backupDisk disk)),
      Function.update_idem]
    simp [record]
  · have hpokes := pokes_append FileName.file 0 pdata (storeU16 endian (mdsApiCrc16Get pdata))
    rw [Nat.zero_add] at hpokes
    rw [atomsOf, List.flatMap_append, saveAtoms, record, hpokes]
    exact congrArg₂ _ hatoms (by simp [Effect.atoms])

/-! ## Loading -/

theorem readLoop_enough {name : FileName} {content : Bytes} {length : Nat}
    (hdisk : disk name = some content) (hlength : length + 2 ≤ content.length)
    (left : Nat) (err : Int) :
    readLoop name length (left + 1) err ⟨disk, [], effects⟩ =
      (3 - left, err, content.take (length + 2), ⟨disk, [], effects⟩) := by
  rw [readLoop, openRead_present hdisk]
  dsimp only
  rw [read_present hdisk, List.drop_zero]
  simp [hlength]

/-- A short file fails every try. -/
theorem readLoop_short {name : FileName} {content : Bytes} {length : Nat}
    (hdisk : disk name = some content) (hlength : content.length < length + 2)
    (left : Nat) (err : Int) :
    readLoop name length (left + 1) err ⟨disk, [], effects⟩ =
      (4, -errFileRead, [], ⟨disk, [], effects⟩) := by
  have hread : (content.take (length + 2)).length ≠ length + 2 := by
    rw [List.length_take]
    omega
  induction left generalizing err with
  | zero =>
      rw [readLoop, openRead_present hdisk]
      dsimp only
      rw [read_present hdisk, List.drop_zero]
      simp only [hread, if_false]
      rfl
  | succ left ih =>
      rw [readLoop, openRead_present hdisk]
      dsimp only
      rw [read_present hdisk, List.drop_zero]
      simp only [hread, if_false]
      exact ih (-errFileRead)

theorem loadFile_record {endian : Endian} {name : FileName} {content : Bytes} {length : Nat}
    (hdisk : disk name = some content) (hrecord : IsRecord endian length content) :
    loadFile endian name length ⟨disk, [], effects⟩ =
      (errNone, content.take length, ⟨disk, [], effects⟩) := by
  have hwhole : content.take (length + 2) = content := by
    rw [← hrecord.1, List.take_length]
  have hread := readLoop_enough effects hdisk (Nat.le_of_eq hrecord.1.symm) 2 errNone
  rw [hwhole] at hread
  simp [loadFile, Kernel.attempt, Kernel.answer, Kernel.consume, Answer.succeeds, hread, hrecord.2]

theorem loadFile_short {endian : Endian} {name : FileName} {content : Bytes} {length : Nat}
    (hdisk : disk name = some content) (hlength : content.length < length + 2) :
    loadFile endian name length ⟨disk, [], effects⟩ =
      (-errFileRead, List.replicate length 0, ⟨disk, [], effects⟩) := by
  have hread := readLoop_short effects hdisk hlength 2 errNone
  simp [loadFile, Kernel.attempt, Kernel.answer, Kernel.consume, Answer.succeeds, hread]

/-- A complete record is delivered, and nothing is touched. -/
theorem mdsApiStorageLoadFile_record {endian : Endian} {content : Bytes} {length : Nat}
    (pdata : Bytes) (hdisk : disk .file = some content)
    (hrecord : IsRecord endian length content) :
    mdsApiStorageLoadFile endian pdata length ⟨disk, [], effects⟩ =
      (errNone, content.take length, ⟨disk, [], effects⟩) := by
  simp [mdsApiStorageLoadFile, isExistFile, hdisk, loadOrRecover,
    loadFile_record effects hdisk hrecord, errNone, errDataCrc]

/-- A short `file` is reported as unreadable; the backup is not looked at. -/
theorem mdsApiStorageLoadFile_short (endian : Endian) {content : Bytes} {length : Nat}
    (pdata : Bytes) (hdisk : disk .file = some content)
    (hlength : content.length < length + 2) :
    mdsApiStorageLoadFile endian pdata length ⟨disk, [], effects⟩ =
      (-errFileRead, List.replicate length 0, ⟨disk, [], effects⟩) := by
  simp [mdsApiStorageLoadFile, isExistFile, hdisk, loadOrRecover,
    loadFile_short effects hdisk hlength, errFileRead, errDataCrc]

end MdsFormal.Storage.FaultFree
