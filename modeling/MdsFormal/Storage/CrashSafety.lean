import MdsFormal.Library.LabelledRun
import MdsFormal.Storage.FaultFree

/-!
# Power loss during a save

A save that loses power leaves the disk after some prefix of its atoms.  The
first part follows one interrupted save through the next load.  The second part
follows runs of saves, interrupted saves and loads, and asks whether `file` or
`file.bak` holds a complete record in every state the run passes through.
-/

namespace MdsFormal.Storage.CrashSafety

open MdsFormal.Library.CrashDisk
open MdsFormal.Library.LabelledRun
open MdsFormal.Storage.Crc16
open MdsFormal.Storage.File
open MdsFormal.Storage.FaultFree

/-- Payloads of one record length. -/
abbrev Payload (length : Nat) := { pdata : Bytes // pdata.length = length }

/-- The disk after a save that ran to its end. -/
def savedDisk (endian : Endian) (disk : Disk FileName UInt8) (pdata : Bytes) :
    Disk FileName UInt8 :=
  (mdsApiStorageSaveFile endian pdata (.boot disk)).2.disk

/-- The disk after a save that lost power when `count` atoms had reached it. -/
def interruptedDisk (endian : Endian) (disk : Disk FileName UInt8) (pdata : Bytes)
    (count : Nat) : Disk FileName UInt8 :=
  cut disk (mdsApiStorageSaveFile endian pdata (.boot disk)).2.effects count

/-- Return code and buffer of a fault-free load. -/
def loaded (endian : Endian) (disk : Disk FileName UInt8) (pdata : Bytes) (length : Nat) :
    Int × Bytes :=
  let result := mdsApiStorageLoadFile endian pdata length (.boot disk)
  (result.1, result.2.1)

/-! ## The disk at each cut of a save -/

theorem savedDisk_eq (endian : Endian) (disk : Disk FileName UInt8) (pdata : Bytes) :
    savedDisk endian disk pdata =
      Function.update (backupDisk disk) .file (some (record endian pdata)) := by
  obtain ⟨writes, hsave, _⟩ := mdsApiStorageSaveFile_effects endian disk pdata []
  rw [savedDisk, Kernel.boot, hsave]

theorem interruptedDisk_eq (endian : Endian) (disk : Disk FileName UInt8) (pdata : Bytes)
    (count : Nat) :
    interruptedDisk endian disk pdata count =
      applyAll ((saveAtoms endian disk pdata).take count) disk := by
  obtain ⟨writes, hsave, hatoms⟩ := mdsApiStorageSaveFile_effects endian disk pdata []
  rw [interruptedDisk, Kernel.boot, hsave, List.nil_append, cut, hatoms]

theorem applyAll_backupAtoms (disk : Disk FileName UInt8) :
    applyAll (backupAtoms disk) disk = backupDisk disk := by
  cases hfile : disk .file with
  | none => simp [backupAtoms, backupDisk, hfile]
  | some content =>
      have hrefill := applyAll_take_refill disk .bak content content.length
      rw [List.take_of_length_le (by simp)] at hrefill
      simpa [backupAtoms, backupDisk, hfile] using hrefill

/-- While the backup is being taken, `file` is not touched. -/
theorem interruptedDisk_file (endian : Endian) {disk : Disk FileName UInt8} (pdata : Bytes)
    {count : Nat} (hcount : count ≤ (backupAtoms disk).length) :
    interruptedDisk endian disk pdata count .file = disk .file := by
  rw [interruptedDisk_eq, saveAtoms, List.take_append_of_le_length hcount]
  cases hfile : disk .file with
  | none => simp [backupAtoms, hfile]
  | some content =>
      cases count with
      | zero => simp [hfile]
      | succ count =>
          rw [backupAtoms, hfile]
          dsimp only
          rw [applyAll_take_refill, Function.update_of_ne (by decide), hfile]

/-- Once `file` is truncated, the backup is whole and `file` grows towards the new record. -/
theorem interruptedDisk_storing {endian : Endian} {disk : Disk FileName UInt8} {pdata : Bytes}
    (stored : Nat) :
    interruptedDisk endian disk pdata ((backupAtoms disk).length + (stored + 1)) =
      Function.update (backupDisk disk) .file (some ((record endian pdata).take stored)) := by
  rw [interruptedDisk_eq, saveAtoms, List.take_length_add_append, applyAll_append,
    applyAll_backupAtoms, applyAll_take_refill]

theorem length_backupAtoms {disk : Disk FileName UInt8} {content : Bytes}
    (hfile : disk .file = some content) :
    (backupAtoms disk).length = content.length + 1 := by
  simp [backupAtoms, hfile]

/-! ## One interrupted save -/

/-- A load of the disk succeeds and delivers one of the two payloads. -/
def LoadsEither (endian : Endian) (disk : Disk FileName UInt8) (pdata : Bytes) (length : Nat)
    (old new : Bytes) : Prop :=
  (loaded endian disk pdata length).1 = errNone ∧
    ((loaded endian disk pdata length).2 = old ∨ (loaded endian disk pdata length).2 = new)

instance (endian : Endian) (disk : Disk FileName UInt8) (pdata : Bytes) (length : Nat)
    (old new : Bytes) : Decidable (LoadsEither endian disk pdata length old new) :=
  inferInstanceAs (Decidable (_ ∧ _))

theorem loaded_record {endian : Endian} {disk : Disk FileName UInt8} {length : Nat}
    (pdata : Bytes) (stored : Payload length)
    (hfile : disk .file = some (record endian stored)) :
    loaded endian disk pdata length = (errNone, stored.1) := by
  obtain ⟨stored, rfl⟩ := stored
  have hload := mdsApiStorageLoadFile_record [] pdata hfile
    (isRecord_record endian stored)
  simp only [loaded, Kernel.boot, hload, take_record]

theorem loaded_short (endian : Endian) {disk : Disk FileName UInt8} (length : Nat)
    {content : Bytes} (pdata : Bytes) (hfile : disk .file = some content)
    (hcontent : content.length < length + 2) :
    (loaded endian disk pdata length).1 = -errFileRead := by
  have hload := mdsApiStorageLoadFile_short [] endian pdata hfile hcontent
  simp only [loaded, Kernel.boot, hload]

/--
A save of `new` over a stored `old` that loses power after `count` atoms loads
as one of the two exactly when `file` had not been truncated yet or was whole
again: in between, `file` is short, the load reports a read error and the
backup is not tried.
-/
theorem interruptedSave_loads_iff (endian : Endian) (disk : Disk FileName UInt8) {length : Nat}
    (old new : Payload length) (pdata : Bytes) (count : Nat) :
    LoadsEither endian (interruptedDisk endian (savedDisk endian disk old) new count)
        pdata length old new ↔
      count ≤ length + 3 ∨ 2 * length + 6 ≤ count := by
  have hstored : savedDisk endian disk old .file = some (record endian old) := by
    rw [savedDisk_eq, Function.update_self]
  have hbackup : (backupAtoms (savedDisk endian disk old)).length = length + 3 := by
    rw [length_backupAtoms hstored, length_record, old.2]
  by_cases hearly : count ≤ length + 3
  · -- the cut falls before `file` is truncated
    have hfile := interruptedDisk_file endian new.1 (hbackup ▸ hearly)
    rw [hstored] at hfile
    rw [LoadsEither, loaded_record pdata old hfile]
    exact iff_of_true ⟨rfl, Or.inl rfl⟩ (Or.inl hearly)
  · obtain ⟨stored, hcount⟩ : ∃ stored, count = length + 3 + (stored + 1) :=
      ⟨count - (length + 4), by omega⟩
    have hfile : interruptedDisk endian (savedDisk endian disk old) new count .file =
        some ((record endian new).take stored) := by
      rw [hcount, ← hbackup, interruptedDisk_storing, Function.update_self]
    by_cases hlate : length + 2 ≤ stored
    · -- the whole new record has been written
      rw [List.take_of_length_le (by rw [length_record, new.2]; exact hlate)] at hfile
      rw [LoadsEither, loaded_record pdata new hfile]
      exact iff_of_true ⟨rfl, Or.inr rfl⟩ (Or.inr (by omega))
    · have hshort := loaded_short endian length pdata hfile
        (by rw [List.length_take]; omega)
      refine iff_of_false ?_ (by omega)
      rintro ⟨hnone, _⟩
      rw [hshort] at hnone
      exact absurd hnone (by decide)

/-- Power is lost just after `file` was truncated: neither payload is delivered. -/
theorem interruptedSave_truncated :
    ¬ LoadsEither .little
        (interruptedDisk .little (savedDisk .little (fun _ => none) [65]) [66] 5)
        [] 1 [65] [66] := by
  decide

/-! ## Runs with repeated power loss -/

/-- The file is there and its whole content is one record. -/
def HoldsRecord (endian : Endian) (length : Nat) : Option Bytes → Prop
  | none => False
  | some content => IsRecord endian length content

instance (endian : Endian) (length : Nat) :
    ∀ content, Decidable (HoldsRecord endian length content)
  | none => .isFalse id
  | some content => inferInstanceAs (Decidable (IsRecord endian length content))

def GoodCopy (endian : Endian) (length : Nat) (disk : Disk FileName UInt8) : Prop :=
  HoldsRecord endian length (disk .file) ∨ HoldsRecord endian length (disk .bak)

instance (endian : Endian) (length : Nat) (disk : Disk FileName UInt8) :
    Decidable (GoodCopy endian length disk) :=
  inferInstanceAs (Decidable (_ ∨ _))

inductive Action (length : Nat) where
  | save (pdata : Payload length)
  | interruptedSave (pdata : Payload length) (count : Nat)
  | load (pdata : Bytes)

section

variable (endian : Endian) {length : Nat}

/-- The kernel at the end of a load, with its disk and effects. -/
def loadKernel (disk : Disk FileName UInt8) (pdata : Bytes) (length : Nat) : Kernel :=
  (mdsApiStorageLoadFile endian pdata length (.boot disk)).2.2

def perform (disk : Disk FileName UInt8) : Action length → Disk FileName UInt8
  | .save pdata => savedDisk endian disk pdata
  | .interruptedSave pdata count => interruptedDisk endian disk pdata count
  | .load pdata => (loadKernel endian disk pdata length).disk

def step (disk : Disk FileName UInt8) (action : Action length) : Option (Disk FileName UInt8) :=
  some (perform endian disk action)

/-- The disk states an action passes through, the one it ends in included. -/
def Passes (disk : Disk FileName UInt8) (passed : Disk FileName UInt8) : Action length → Prop
  | .save pdata => ∃ count, passed = interruptedDisk endian disk pdata count
  | .interruptedSave pdata count =>
      ∃ earlier ≤ count, passed = interruptedDisk endian disk pdata earlier
  | .load pdata => ∃ count, passed = cut disk (loadKernel endian disk pdata length).effects count

def AlwaysGood (disk : Disk FileName UInt8) (action : Action length) : Prop :=
  ∀ passed, Passes endian disk passed action → GoodCopy endian length passed

/-- Where there is a `file` to back up, it is a complete record. -/
def BackupIsRecord (length : Nat) (disk : Disk FileName UInt8) : Prop :=
  ∀ content, disk .file = some content → IsRecord endian length content

/-- A save that gets as far as its first effect starts from a `file` worth backing up. -/
def SavesFromRecord (disk : Disk FileName UInt8) : Action length → Prop
  | .save _ => BackupIsRecord endian length disk
  | .interruptedSave _ count => count ≠ 0 → BackupIsRecord endian length disk
  | .load _ => True

/--
What runs of guarded saves keep: `file` is there; it is a complete record, or
it is short and `file.bak` is a complete record.
-/
def Recoverable (length : Nat) (disk : Disk FileName UInt8) : Prop :=
  ∃ content, disk .file = some content ∧
    (IsRecord endian length content ∨
      content.length < length + 2 ∧ HoldsRecord endian length (disk .bak))

variable {endian}

theorem Recoverable.goodCopy {disk : Disk FileName UInt8}
    (hdisk : Recoverable endian length disk) : GoodCopy endian length disk := by
  obtain ⟨content, hfile, hrecord | ⟨_, hbak⟩⟩ := hdisk
  · exact Or.inl (by rw [hfile]; exact hrecord)
  · exact Or.inr hbak

/-- Loads of a recoverable disk change nothing. -/
theorem Recoverable.loadKernel_eq {disk : Disk FileName UInt8}
    (hdisk : Recoverable endian length disk) (pdata : Bytes) :
    loadKernel endian disk pdata length = .boot disk := by
  obtain ⟨content, hfile, hrecord | ⟨hshort, _⟩⟩ := hdisk
  · rw [loadKernel, Kernel.boot, mdsApiStorageLoadFile_record [] pdata hfile hrecord]
  · rw [loadKernel, Kernel.boot, mdsApiStorageLoadFile_short [] endian pdata hfile hshort]

/-- Every cut of a save that starts from a record is recoverable again. -/
theorem interruptedDisk_recoverable {disk : Disk FileName UInt8}
    (hdisk : Recoverable endian length disk) (hbackup : BackupIsRecord endian length disk)
    (pdata : Payload length) (count : Nat) :
    Recoverable endian length (interruptedDisk endian disk pdata count) := by
  obtain ⟨content, hfile, _⟩ := hdisk
  have hrecord := hbackup content hfile
  by_cases hcount : count ≤ (backupAtoms disk).length
  · exact ⟨content, by rw [interruptedDisk_file endian pdata hcount, hfile], Or.inl hrecord⟩
  · obtain ⟨stored, rfl⟩ : ∃ stored, count = (backupAtoms disk).length + (stored + 1) :=
      ⟨count - (backupAtoms disk).length - 1, by omega⟩
    refine ⟨(record endian pdata).take stored, ?_, ?_⟩
    · rw [interruptedDisk_storing, Function.update_self]
    · by_cases hwhole : length + 2 ≤ stored
      · have hlength : (record endian pdata.1).length ≤ stored := by
          rw [length_record, pdata.2]
          exact hwhole
        rw [List.take_of_length_le hlength]
        have hnew := isRecord_record endian pdata.1
        rw [pdata.2] at hnew
        exact Or.inl hnew
      · refine Or.inr ⟨by rw [List.length_take]; omega, ?_⟩
        rw [interruptedDisk_storing, Function.update_of_ne (by decide)]
        simpa [backupDisk, hfile, HoldsRecord] using hrecord

/-- A completed save is the save cut after its last atom. -/
theorem savedDisk_eq_interruptedDisk (disk : Disk FileName UInt8) (pdata : Bytes) :
    savedDisk endian disk pdata =
      interruptedDisk endian disk pdata
        ((backupAtoms disk).length + ((record endian pdata).length + 1)) := by
  rw [savedDisk_eq, interruptedDisk_storing, List.take_length]

theorem savedDisk_recoverable (disk : Disk FileName UInt8) (pdata : Payload length) :
    Recoverable endian length (savedDisk endian disk pdata) := by
  have hrecord := isRecord_record endian pdata.1
  rw [pdata.2] at hrecord
  exact ⟨record endian pdata, by rw [savedDisk_eq, Function.update_self], Or.inl hrecord⟩

/-- Step lemma: a guarded action passes through recoverable disks only. -/
theorem passes_recoverable {disk passed : Disk FileName UInt8} {action : Action length}
    (hdisk : Recoverable endian length disk) (hguard : SavesFromRecord endian disk action)
    (hpasses : Passes endian disk passed action) : Recoverable endian length passed := by
  cases action with
  | save pdata =>
      obtain ⟨count, rfl⟩ := hpasses
      exact interruptedDisk_recoverable hdisk hguard pdata count
  | interruptedSave pdata count =>
      obtain ⟨earlier, hearlier, rfl⟩ := hpasses
      by_cases hzero : earlier = 0
      · rw [hzero, interruptedDisk, cut_zero]
        exact hdisk
      · exact interruptedDisk_recoverable hdisk (hguard (by omega)) pdata earlier
  | load pdata =>
      obtain ⟨count, rfl⟩ := hpasses
      rw [hdisk.loadKernel_eq]
      simpa [Kernel.boot, cut, atomsOf] using hdisk

/-- An action ends in one of the states it passes through. -/
theorem passes_perform {disk : Disk FileName UInt8} (hdisk : Recoverable endian length disk)
    (action : Action length) : Passes endian disk (perform endian disk action) action := by
  cases action with
  | save pdata => exact ⟨_, savedDisk_eq_interruptedDisk disk pdata⟩
  | interruptedSave pdata count => exact ⟨count, Nat.le_refl count, rfl⟩
  | load pdata =>
      refine ⟨0, ?_⟩
      rw [perform, hdisk.loadKernel_eq, cut_zero]
      rfl

/-- The first effect of a save empties the backup and leaves an incomplete `file` alone with it. -/
theorem interruptedDisk_one_not_good {disk : Disk FileName UInt8} {content : Bytes}
    (hfile : disk .file = some content) (hrecord : ¬ IsRecord endian length content)
    (pdata : Bytes) : ¬ GoodCopy endian length (interruptedDisk endian disk pdata 1) := by
  have hkept : interruptedDisk endian disk pdata 1 .file = some content := by
    rw [interruptedDisk_file endian _ (by rw [length_backupAtoms hfile]; omega), hfile]
  have hemptied : interruptedDisk endian disk pdata 1 .bak = some [] := by
    simp [interruptedDisk_eq, saveAtoms, backupAtoms, hfile, Effect.apply]
  rintro (hgood | hgood)
  · rw [hkept] at hgood
    exact hrecord hgood
  · rw [hemptied] at hgood
    exact absurd hgood.1 (by simp)

/-- In a recoverable state the guard is exactly what keeps a good copy through the action. -/
theorem savesFromRecord_iff_alwaysGood {disk : Disk FileName UInt8}
    (hdisk : Recoverable endian length disk) (action : Action length) :
    SavesFromRecord endian disk action ↔ AlwaysGood endian disk action := by
  constructor
  · intro hguard passed hpasses
    exact (passes_recoverable hdisk hguard hpasses).goodCopy
  · intro hgood
    cases action with
    | save pdata =>
        intro content hfile
        by_contra hrecord
        exact interruptedDisk_one_not_good hfile hrecord pdata.1 (hgood _ ⟨1, rfl⟩)
    | interruptedSave pdata count =>
        intro hcount content hfile
        by_contra hrecord
        exact interruptedDisk_one_not_good hfile hrecord pdata.1 (hgood _ ⟨1, by omega, rfl⟩)
    | load pdata => trivial

/--
After the first completed save, a good copy survives every state of a run
exactly when each later save that takes effect finds no `file` or a complete
record in it: the backup step copies `file` whatever it holds.
-/
theorem goodCopy_survives_iff (endian : Endian) (length : Nat) (disk : Disk FileName UInt8)
    (before : List (Action length)) (first : Payload length) (after : List (Action length)) :
    let saved := (before ++ [Action.save first]).foldl (perform endian) disk
    (GoodCopy endian length saved ∧ EachStep (step endian) (AlwaysGood endian) saved after) ↔
      EachStep (step endian) (SavesFromRecord endian) saved after := by
  intro saved
  have hsaved : Recoverable endian length saved := by
    have hlast : saved = savedDisk endian (before.foldl (perform endian) disk) first := by
      simp [saved, perform]
    rw [hlast]
    exact savedDisk_recoverable _ first
  have hstep : ∀ disk (action : Action length) next, Recoverable endian length disk →
      SavesFromRecord endian disk action → step endian disk action = some next →
      Recoverable endian length next := by
    intro disk action next hdisk hguard hnext
    cases hnext
    exact passes_recoverable hdisk hguard (passes_perform hdisk action)
  have hiff : EachStep (step endian) (SavesFromRecord endian) saved after ↔
      EachStep (step endian) (AlwaysGood endian) saved after :=
    eachStep_iff_of_invariant (Recoverable endian length) hstep
      (fun disk action hdisk => savesFromRecord_iff_alwaysGood hdisk action) hsaved
  rw [hiff]
  exact ⟨fun h => h.2, fun h => ⟨hsaved.goodCopy, h⟩⟩

end

/-- Two saves in a row lose power: the second one backs up the truncated `file`. -/
theorem goodCopy_lost :
    ¬ GoodCopy .little 1
        ([Action.save ⟨[65], rfl⟩, .interruptedSave ⟨[66], rfl⟩ 5,
          .interruptedSave ⟨[67], rfl⟩ 1].foldl (perform .little) (fun _ => none)) := by
  decide

end MdsFormal.Storage.CrashSafety
