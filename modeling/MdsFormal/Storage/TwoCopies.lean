import MdsFormal.Library.Transducer
import MdsFormal.Storage.LoadRetries
import MdsFormal.Storage.Integrity

/-!
# The store as two copies

What a load answers depends on what each of the two files is for it: absent, too short,
broken, or a copy of a payload.  A store of two such copies answers every run of saves,
loads and changes from outside as the functions of the source do when no system call fails.
-/

namespace MdsFormal.Storage.TwoCopies

open MdsFormal.Library.CrashDisk
open MdsFormal.Library.LabelledRun
open MdsFormal.Library.Transducer
open MdsFormal.Storage.Crc16
open MdsFormal.Storage.File
open MdsFormal.Storage.FaultFree
open MdsFormal.Storage.CrashSafety
open MdsFormal.Storage.LoadRetries
open MdsFormal.Storage.Integrity

/-! ## The two copies -/

/-- What a file is for a load. -/
inductive Copy where
  | absent
  | short
  | broken
  | good (pdata : Bytes)
  deriving DecidableEq

/-- `file` and `file.bak` -/
structure Copies where
  file : Copy
  bak : Copy
  deriving DecidableEq

/-- A call with its data, or a change of a file from outside. -/
inductive Input (length : Nat) where
  | save (pdata : Payload length)
  | load (buffer : Bytes)
  | change (name : FileName) (content : Option Bytes)

/-- The return code of a save; that of a load with what the buffer then holds. -/
inductive Output where
  | saved (ret : Int)
  | loaded (ret : Int) (pdata : Bytes)
  | changed
  deriving DecidableEq

/-- The answer of a load that finds this copy in the end. -/
def Copy.answer (length : Nat) : Copy → Output
  | .absent => .loaded (-errFileOpen) (List.replicate length 0)
  | .short => .loaded (-errFileRead) (List.replicate length 0)
  | .broken => .loaded (-errDataCrc) (List.replicate length 0)
  | .good pdata => .loaded errNone pdata

/-- A load takes the backup for a copy that is absent or broken, not for one that is short. -/
def Copies.load (length : Nat) (buffer : Bytes) (s : Copies) : Output × Copies :=
  match s.file, s.bak with
  | .absent, .absent => (.loaded (-errFileNotExist) buffer, s)
  | .absent, bak => (bak.answer length, ⟨bak, bak⟩)
  | .broken, .absent => (Copy.broken.answer length, s)
  | .broken, bak => (bak.answer length, ⟨bak, bak⟩)
  | file, _ => (file.answer length, s)

/-- What these bytes are for a load of `length` bytes. -/
def copyOf (endian : Endian) (length : Nat) : Option Bytes → Copy
  | none => .absent
  | some content =>
      if content.length < length + 2 then .short
      else if CrcMatches endian length (content.take (length + 2)) then .good (content.take length)
      else .broken

def Copies.perform (endian : Endian) {length : Nat} (s : Copies) : Input length → Output × Copies
  | .save pdata => (.saved 0, ⟨.good pdata, if s.file = .absent then s.bak else s.file⟩)
  | .load buffer => s.load length buffer
  | .change .file content => (.changed, { s with file := copyOf endian length content })
  | .change .bak content => (.changed, { s with bak := copyOf endian length content })

/-! ## The store of the source -/

def perform (endian : Endian) {length : Nat} (disk : Disk FileName UInt8) :
    Input length → Output × Disk FileName UInt8
  | .save pdata =>
      let (ret, kernel) := mdsApiStorageSaveFile endian pdata (.boot disk)
      (.saved ret, kernel.disk)
  | .load buffer =>
      let (ret, pdata, kernel) := mdsApiStorageLoadFile endian buffer length (.boot disk)
      (.loaded ret pdata, kernel.disk)
  | .change name content => (.changed, Function.update disk name content)

/-- The two copies that a disk holds. -/
def copies (endian : Endian) (length : Nat) (disk : Disk FileName UInt8) : Copies :=
  ⟨copyOf endian length (disk .file), copyOf endian length (disk .bak)⟩

section

variable {endian : Endian} {length : Nat} {disk : Disk FileName UInt8} {content : Bytes}
  {effects : List (Effect FileName UInt8)} {name : FileName}

theorem copyOf_eq_absent {file : Option Bytes} :
    copyOf endian length file = .absent ↔ file = none := by
  cases file with
  | none => exact iff_of_true rfl rfl
  | some content =>
      refine iff_of_false ?_ (Option.some_ne_none content)
      rw [copyOf]
      split
      · exact Copy.noConfusion
      · split <;> exact Copy.noConfusion

/-- `_load_file` answers for the copy that it finds, and touches nothing. -/
theorem loadFile_eq (endian : Endian) (length : Nat) (effects : List (Effect FileName UInt8))
    (hfile : disk name = some content) :
    ∃ ret pdata, loadFile endian name length ⟨disk, [], effects⟩ =
        (ret, pdata, ⟨disk, [], effects⟩) ∧
      (copyOf endian length (disk name)).answer length = .loaded ret pdata ∧
      (ret = -errDataCrc ↔ copyOf endian length (disk name) = .broken) := by
  rw [hfile, copyOf]
  rcases Nat.lt_or_ge content.length (length + 2) with hshort | henough
  · rw [if_pos hshort, loadFile_short effects hfile hshort]
    exact ⟨_, _, rfl, rfl, by decide⟩
  · have hread := readLoop_enough effects hfile henough 2 errNone
    have hload := @loadFile_of_used endian name length ⟨disk, [], effects⟩ _ _ _ _ _ rfl hread
      (by decide)
    rw [if_neg (Nat.not_lt.mpr henough), hload]
    by_cases hcrc : CrcMatches endian length (content.take (length + 2))
    · have hmatches := hcrc
      rw [CrcMatches] at hmatches
      rw [if_pos hcrc, if_neg (not_not_intro hmatches), List.take_take,
        Nat.min_eq_left (Nat.le_add_right length 2)]
      exact ⟨_, _, rfl, rfl, iff_of_false (by decide) Copy.noConfusion⟩
    · have hdiffers := hcrc
      rw [CrcMatches] at hdiffers
      rw [if_neg hcrc, if_pos hdiffers]
      exact ⟨_, _, rfl, rfl, by decide⟩

theorem fileRecovery_absent (hbak : disk .bak = none) :
    fileRecovery ⟨disk, [], effects⟩ = (-errFileNotExist, ⟨disk, [], effects⟩) := by
  simp [fileRecovery, mdsApiCp, Kernel.openRead, Kernel.consume, hbak, mdsApiNok]

theorem fileRecovery_present (effects : List (Effect FileName UInt8))
    (hbak : disk .bak = some content) :
    ∃ effects', fileRecovery ⟨disk, [], effects⟩ =
      (errNone, ⟨Function.update disk .file (some content), [], effects'⟩) := by
  obtain ⟨writes, hcopy, -⟩ := mdsApiCp_copies effects (show FileName.bak ≠ .file by decide) hbak
  refine ⟨effects ++ writes, ?_⟩
  rw [fileRecovery, hcopy]
  rfl

/-! ## One call -/

/-- With the backup in both places there is nothing to choose. -/
theorem load_same (length : Nat) (buffer : Bytes) {copy : Copy} (hpresent : copy ≠ .absent) :
    Copies.load length buffer ⟨copy, copy⟩ = (copy.answer length, ⟨copy, copy⟩) := by
  cases copy with
  | absent => exact absurd rfl hpresent
  | short | broken | good => rfl

theorem load_of_intact (length : Nat) (buffer : Bytes) {s : Copies} (hpresent : s.file ≠ .absent)
    (hintact : s.file ≠ .broken) : s.load length buffer = (s.file.answer length, s) := by
  obtain ⟨file, bak⟩ := s
  cases file with
  | absent => exact absurd rfl hpresent
  | broken => exact absurd rfl hintact
  | short | good => rfl

theorem load_of_broken (length : Nat) (buffer : Bytes) {s : Copies} (hbroken : s.file = .broken)
    (hbak : s.bak ≠ .absent) :
    s.load length buffer = (s.bak.answer length, ⟨s.bak, s.bak⟩) := by
  obtain ⟨file, bak⟩ := s
  cases hbroken
  cases bak with
  | absent => exact absurd rfl hbak
  | short | broken | good => rfl

theorem load_of_absent (length : Nat) (buffer : Bytes) {s : Copies} (habsent : s.file = .absent)
    (hbak : s.bak ≠ .absent) :
    s.load length buffer = (s.bak.answer length, ⟨s.bak, s.bak⟩) := by
  obtain ⟨file, bak⟩ := s
  cases habsent
  cases bak with
  | absent => exact absurd rfl hbak
  | short | broken | good => rfl

/-- The disk on which the backup was put in the place of `file`. -/
theorem copies_recovered (hbak : disk .bak = some content) :
    copies endian length (Function.update disk .file (some content)) =
      ⟨copyOf endian length (disk .bak), copyOf endian length (disk .bak)⟩ := by
  rw [copies, Function.update_self, Function.update_of_ne (by decide), hbak]

/-- The load of the two copies on this disk has this result. -/
def LoadsAs (endian : Endian) (length : Nat) (buffer : Bytes) (disk : Disk FileName UInt8)
    (result : Int × Bytes × Kernel) : Prop :=
  (copies endian length disk).load length buffer =
    (.loaded result.1 result.2.1, copies endian length result.2.2.disk)

theorem loadOrRecover_loadsAs (endian : Endian) (length : Nat) (buffer : Bytes)
    (effects : List (Effect FileName UInt8)) (hfile : disk .file = some content) :
    LoadsAs endian length buffer disk (loadOrRecover endian length ⟨disk, [], effects⟩) := by
  obtain ⟨ret, pdata, hload, hanswer, hcode⟩ := loadFile_eq endian length effects hfile
  have hpresent : (copies endian length disk).file ≠ .absent := by
    rw [copies, Ne, copyOf_eq_absent, hfile]
    exact Option.some_ne_none content
  rw [loadOrRecover, hload]
  dsimp only
  by_cases hbroken : copyOf endian length (disk .file) = .broken
  · rw [if_pos (hcode.mpr hbroken)]
    cases hbak : disk .bak with
    | none =>
        rw [fileRecovery_absent hbak]
        dsimp only
        rw [if_neg (by decide), LoadsAs]
        have hkept : (copies endian length disk).load length buffer =
            (Copy.broken.answer length, copies endian length disk) := by
          rw [copies, hbroken, hbak]
          rfl
        rw [hkept, ← hanswer, hbroken]
    | some backup =>
        obtain ⟨effects', hrecovery⟩ := fileRecovery_present effects hbak
        obtain ⟨ret', pdata', hload', hanswer', -⟩ := loadFile_eq endian length effects'
          (Function.update_self FileName.file (some backup) disk)
        rw [hrecovery]
        dsimp only
        rw [if_pos rfl, hload', LoadsAs]
        rw [Function.update_self, ← hbak] at hanswer'
        have hbak' : (copies endian length disk).bak ≠ .absent := by
          rw [copies, Ne, copyOf_eq_absent, hbak]
          exact Option.some_ne_none backup
        rw [load_of_broken length buffer hbroken hbak', copies_recovered hbak]
        exact congrArg (Prod.mk · _) hanswer'
  · rw [if_neg (mt hcode.mp hbroken), LoadsAs]
    rw [load_of_intact length buffer hpresent hbroken]
    exact congrArg (Prod.mk · _) hanswer

theorem mdsApiStorageLoadFile_loadsAs (buffer : Bytes) :
    LoadsAs endian length buffer disk
      (mdsApiStorageLoadFile endian buffer length ⟨disk, [], []⟩) := by
  cases hfile : disk .file with
  | some content =>
      have hload : mdsApiStorageLoadFile endian buffer length ⟨disk, [], []⟩ =
          loadOrRecover endian length ⟨disk, [], []⟩ := by
        simp [mdsApiStorageLoadFile, isExistFile, hfile]
      rw [hload]
      exact loadOrRecover_loadsAs endian length buffer [] hfile
  | none =>
      have habsent : (copies endian length disk).file = .absent := by
        rw [copies, hfile]
        rfl
      cases hbak : disk .bak with
      | none =>
          have hload : mdsApiStorageLoadFile endian buffer length ⟨disk, [], []⟩ =
              (-errFileNotExist, buffer, ⟨disk, [], []⟩) := by
            simp [mdsApiStorageLoadFile, isExistFile, hfile, fileRecovery_absent hbak,
              errFileNotExist, errNone]
          rw [hload, LoadsAs, copies, hfile, hbak]
          rfl
      | some backup =>
          obtain ⟨effects', hrecovery⟩ := fileRecovery_present [] hbak
          have hload : mdsApiStorageLoadFile endian buffer length ⟨disk, [], []⟩ =
              loadOrRecover endian length
                ⟨Function.update disk .file (some backup), [], effects'⟩ := by
            simp [mdsApiStorageLoadFile, isExistFile, hfile, hrecovery]
          have hloads := loadOrRecover_loadsAs endian length buffer effects'
            (Function.update_self FileName.file (some backup) disk)
          have hbak' : copyOf endian length (disk .bak) ≠ .absent := by
            rw [Ne, copyOf_eq_absent, hbak]
            exact Option.some_ne_none backup
          rw [LoadsAs, copies_recovered hbak, load_same length buffer hbak'] at hloads
          rw [hload, LoadsAs, load_of_absent length buffer habsent hbak', ← hloads]
          rfl

theorem copyOf_record (endian : Endian) (pdata : Payload length) :
    copyOf endian length (some (record endian pdata.1)) = .good pdata.1 := by
  obtain ⟨pdata, rfl⟩ := pdata
  have hrecord := isRecord_record endian pdata
  have hwhole : (record endian pdata).take (pdata.length + 2) = record endian pdata :=
    List.take_of_length_le (Nat.le_of_eq hrecord.1)
  have hcrc : CrcMatches endian pdata.length (record endian pdata) := hrecord.2
  rw [copyOf, if_neg (by rw [hrecord.1]; exact Nat.lt_irrefl _), hwhole, if_pos hcrc, take_record]

/-- The backup is what `file` was, if there was one. -/
theorem copyOf_backupDisk :
    copyOf endian length (backupDisk disk .bak) =
      if copyOf endian length (disk .file) = .absent then copyOf endian length (disk .bak)
      else copyOf endian length (disk .file) := by
  simp only [copyOf_eq_absent]
  cases hfile : disk .file with
  | none => rw [if_pos rfl, backupDisk, hfile]
  | some content =>
      rw [if_neg (Option.some_ne_none content), backupDisk, hfile]
      dsimp only
      rw [Function.update_self]

theorem save_eq (pdata : Payload length) :
    (copies endian length disk).perform endian (.save pdata) =
      ((perform endian disk (.save pdata)).1,
        copies endian length (perform endian disk (.save pdata)).2) := by
  obtain ⟨writes, hsave, -⟩ := mdsApiStorageSaveFile_effects endian disk pdata.1 []
  have hdisk : perform endian disk (.save pdata) = (.saved 0,
      Function.update (backupDisk disk) .file (some (record endian pdata.1))) := by
    rw [perform, Kernel.boot, hsave]
  rw [hdisk]
  dsimp only [Copies.perform, copies]
  rw [Function.update_self, Function.update_of_ne (by decide), copyOf_record, copyOf_backupDisk]

/-- Step lemma: the two copies go along with every input. -/
theorem perform_eq (disk : Disk FileName UInt8) (input : Input length) :
    (copies endian length disk).perform endian input =
      ((perform endian disk input).1, copies endian length (perform endian disk input).2) := by
  cases input with
  | save pdata => exact save_eq pdata
  | load buffer => exact mdsApiStorageLoadFile_loadsAs buffer
  | change name content =>
      cases name with
      | file =>
          dsimp only [Copies.perform, perform, copies]
          rw [Function.update_self, Function.update_of_ne (by decide)]
      | bak =>
          dsimp only [Copies.perform, perform, copies]
          rw [Function.update_self, Function.update_of_ne (by decide)]

end

/-- The functions of the source answer every run as the store of two copies does, whatever
becomes of the files between the calls. -/
theorem store_refines_copies (endian : Endian) (length : Nat) (disk : Disk FileName UInt8)
    (inputs : List (Input length)) :
    answers (perform endian) disk inputs =
        answers (Copies.perform endian) (copies endian length disk) inputs ∧
      copies endian length (final (perform endian) disk inputs) =
        final (Copies.perform endian) (copies endian length disk) inputs :=
  answers_eq_of_simulation perform_eq disk inputs

end MdsFormal.Storage.TwoCopies
