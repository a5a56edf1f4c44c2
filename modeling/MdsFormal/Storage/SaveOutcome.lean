import MdsFormal.Storage.CrashSafety

/-!
# What a save that returned 0 has put on the disk

`mds_api_storage_save_file` tests its `open` and nothing after it: what the two
writes return is dropped.  This module follows a save through arbitrary answers
to its system calls, up to the next fault-free load.
-/

namespace MdsFormal.Storage.SaveOutcome

open MdsFormal.Library.CrashDisk
open MdsFormal.Storage.Crc16
open MdsFormal.Storage.File
open MdsFormal.Storage.FaultFree
open MdsFormal.Storage.CrashSafety

/-- Bytes moved by a transfer; one that fails moves none. -/
def moved (asked : Nat) (answer : Answer) : Nat :=
  match answer.transfer asked with
  | .ok nwritten => nwritten
  | .error _ => 0

theorem moved_le (asked : Nat) (answer : Answer) : moved asked answer ≤ asked := by
  cases answer with
  | full => exact Nat.le_refl asked
  | count n => exact Nat.min_le_right n asked
  | interrupted => exact Nat.zero_le asked
  | failed => exact Nat.zero_le asked

/-- A write at the end of a file appends what it moved, and one that fails moves nothing. -/
theorem write_appends_moved {kernel : Kernel} {name : FileName} {content : Bytes}
    (hcontent : kernel.disk name = some content) (bytes : Bytes) :
    ∃ written after, kernel.write name content.length bytes = (written, after) ∧
      after.disk name = some (content ++ bytes.take (moved bytes.length kernel.answer)) ∧
      after.answers = kernel.answers.tail ∧
      (written = .ok (moved bytes.length kernel.answer) ∨
        ∃ errno, written = .error errno ∧ moved bytes.length kernel.answer = 0) := by
  refine ⟨_, _, rfl, ?_⟩
  cases htransfer : kernel.answer.transfer bytes.length with
  | error errno => simp [moved, htransfer, Kernel.consume, hcontent]
  | ok nwritten =>
      simp [moved, htransfer, Kernel.consume, Kernel.emit, Effect.apply, hcontent, splice]

theorem openWrite_opened {kernel : Kernel} {fd : Nat} (name : FileName)
    (hopen : kernel.answer.descriptor = .ok fd) :
    ∃ opened, kernel.openWrite name true = (.ok fd, opened) ∧ opened.disk name = some [] ∧
      opened.answers = kernel.answers.tail := by
  refine ⟨kernel.consume.emit (.truncate name), ?_, ?_, rfl⟩
  · rw [Kernel.openWrite, hopen]
    rfl
  · exact Function.update_self _ _ _

/-- What the two writes of a save leave in `file` when they move `payload` and `tail` bytes. -/
def stored (endian : Endian) (pdata : Bytes) (payload tail : Nat) : Bytes :=
  pdata.take payload ++ (storeU16 endian (mdsApiCrc16Get pdata)).take tail

/-- A save whose `open` succeeds returns 0, whatever its writes moved. -/
theorem mdsApiStorageSaveFile_opened (endian : Endian) (pdata : Bytes) {kernel : Kernel}
    {fd : Nat} (hopen : (fileBackup kernel).answer.descriptor = .ok fd) :
    (mdsApiStorageSaveFile endian pdata kernel).1 = 0 ∧
      (mdsApiStorageSaveFile endian pdata kernel).2.disk .file =
        some (stored endian pdata
          (moved pdata.length ((fileBackup kernel).answers.tail.headD .full))
          (moved 2 ((fileBackup kernel).answers.tail.tail.headD .full))) := by
  obtain ⟨opened, hopened, hempty, hrest⟩ := openWrite_opened .file hopen
  obtain ⟨written, payload, hwrite, hpayload, hrest', hwritten⟩ :=
    write_appends_moved hempty pdata
  obtain ⟨_, whole, hwrite', hwhole, _, _⟩ :=
    write_appends_moved hpayload (storeU16 endian (mdsApiCrc16Get pdata))
  rw [Kernel.answer, hrest] at hwritten hwrite' hwhole
  rw [Kernel.answer, hrest', hrest, length_storeU16] at hwhole
  rw [List.nil_append] at hwrite' hwhole
  rw [List.length_take, Nat.min_eq_left (moved_le _ _)] at hwrite'
  -- the second write starts where the first one stopped, which is 0 when that failed
  have hsave : mdsApiStorageSaveFile endian pdata kernel = (0, whole) := by
    rw [mdsApiStorageSaveFile, hopened]
    dsimp only
    rw [List.length_nil] at hwrite
    rw [hwrite]
    rcases hwritten with rfl | ⟨errno, rfl, hnone⟩
    · dsimp only
      rw [hwrite']
    · rw [hnone] at hwrite'
      dsimp only
      rw [hwrite']
  rw [hsave]
  exact ⟨rfl, hwhole⟩

/-- A save whose `open` fails returns an error code. -/
theorem mdsApiStorageSaveFile_not_opened (endian : Endian) (pdata : Bytes) {kernel : Kernel}
    {errno : Errno} (hopen : (fileBackup kernel).answer.descriptor = .error errno) :
    (mdsApiStorageSaveFile endian pdata kernel).1 = -errFileOpen := by
  rw [mdsApiStorageSaveFile, Kernel.openWrite, hopen]

/-! ## The next load -/

/-- The writes of a save moved everything exactly when `file` then has its full length. -/
theorem stored_complete_iff (endian : Endian) (pdata : Bytes) {payload tail : Nat}
    (hpayload : payload ≤ pdata.length) (htail : tail ≤ 2) :
    (stored endian pdata payload tail).length = pdata.length + 2 ↔
      payload = pdata.length ∧ tail = 2 := by
  rw [stored, List.length_append, List.length_take, List.length_take, length_storeU16]
  omega

theorem stored_complete (endian : Endian) (pdata : Bytes) :
    stored endian pdata pdata.length 2 = record endian pdata := by
  have htail : (storeU16 endian (mdsApiCrc16Get pdata)).take 2 =
      storeU16 endian (mdsApiCrc16Get pdata) :=
    List.take_of_length_le (Nat.le_of_eq (length_storeU16 endian _))
  rw [stored, htail, List.take_length, record]

/-- What a save promises: 0 is returned only if the payload can be loaded again. -/
def SaveIsDurable (endian : Endian) (pdata : Bytes) (kernel : Kernel) : Prop :=
  (mdsApiStorageSaveFile endian pdata kernel).1 = 0 →
    ∀ buffer, loaded endian (mdsApiStorageSaveFile endian pdata kernel).2.disk buffer
      pdata.length = (errNone, pdata)

/--
The answers from the `open` of `file` on: it fails, or the system carries out
both writes in full.
-/
def OpenFailsOrWritesInFull (length : Nat) (answers : List Answer) : Prop :=
  (answers.headD .full).descriptor.isOk = false ∨
    moved length (answers.tail.headD .full) = length ∧
      moved 2 (answers.tail.tail.headD .full) = 2

/-- The save keeps its promise exactly when no write came up short behind a good `open`. -/
theorem saveIsDurable_iff (endian : Endian) (pdata : Bytes) (kernel : Kernel) :
    SaveIsDurable endian pdata kernel ↔
      OpenFailsOrWritesInFull pdata.length (fileBackup kernel).answers := by
  cases hopen : (fileBackup kernel).answer.descriptor with
  | error errno =>
      have hfails := mdsApiStorageSaveFile_not_opened endian pdata hopen
      refine iff_of_true ?_ (Or.inl ?_)
      · intro hzero
        rw [hfails] at hzero
        exact absurd hzero (by decide)
      · rw [Kernel.answer] at hopen
        rw [hopen]
        rfl
  | ok fd =>
      obtain ⟨hzero, hfile⟩ := mdsApiStorageSaveFile_opened endian pdata hopen
      have hcomplete := stored_complete_iff endian pdata
        (moved_le pdata.length ((fileBackup kernel).answers.tail.headD .full))
        (moved_le 2 ((fileBackup kernel).answers.tail.tail.headD .full))
      rw [Kernel.answer] at hopen
      constructor
      · intro hdurable
        refine Or.inr (hcomplete.mp ?_)
        apply Classical.byContradiction
        intro hlength
        have hshort := loaded_short endian pdata.length [] hfile (by
          have hpayload := moved_le pdata.length ((fileBackup kernel).answers.tail.headD .full)
          have htail := moved_le 2 ((fileBackup kernel).answers.tail.tail.headD .full)
          simp only [stored, List.length_append, List.length_take, length_storeU16] at hlength ⊢
          omega)
        rw [hdurable hzero []] at hshort
        exact absurd (show errNone = -errFileRead from hshort) (by decide)
      · rintro (hfails | ⟨hpayload, htail⟩) _ buffer
        · rw [hopen] at hfails
          cases hfails
        · rw [hpayload, htail, stored_complete] at hfile
          exact loaded_record buffer ⟨pdata, rfl⟩ hfile

/-- The disk is full: two bytes of three are stored, the save returns 0, the load fails. -/
theorem saveIsDurable_short_write :
    ¬ SaveIsDurable .little [65, 66, 67] ⟨fun _ => none, [.full, .count 2, .failed], []⟩ := by
  intro hdurable
  exact absurd (hdurable (by decide) []) (by decide)

end MdsFormal.Storage.SaveOutcome
