import Mathlib.Algebra.Group.Int.Defs
import Mathlib.Algebra.Group.Nat.Defs
import MdsFormal.Process.SystemFork
import MdsFormal.Storage.TrueCopies

/-!
# The log of bounded size

`mds_api_write_data_maxsize` copies the log to its backup, truncates it and puts the end of
the backup and the new message into it.  The opens and the copy may fail; what `stdio` then
reads and writes is without faults, and it is not recorded among the effects.
-/

namespace MdsFormal.Storage.BoundedLog

open MdsFormal.Library.CrashDisk
open MdsFormal.Process.SystemFork
open MdsFormal.Storage.File
open MdsFormal.Storage.FaultFree

/-! ## The code -/

def setFile (kernel : Kernel) (name : FileName) (content : Option Bytes) : Kernel :=
  { kernel with disk := Function.update kernel.disk name content }

/-- `mds_api_write_data` -/
def mdsApiWriteData (name : FileName) (buff : Bytes) (append : Bool) (kernel : Kernel) :
    Int × Kernel :=
  match kernel.openWrite name (!append) with
  | (.error _, kernel) => (mdsApiNok, kernel)
  | (.ok _, kernel) => (mdsApiOk, setFile kernel name (some (kernel.content name ++ buff)))

/-- A result that an `int` cannot hold is undefined. -/
def checked (value : Int) : Option Int :=
  if -2 ^ 31 ≤ value ∧ value < 2 ^ 31 then some value else none

/-- The offset the backup is read from. -/
def startOffset (dataLen fileSize maxSize : Int) : Option Int := do
  let sum ← checked (dataLen + fileSize)
  if maxSize < sum then checked (sum - maxSize) else some 0

/-- What is left to read after `fseek(read_fp, offset, SEEK_SET)` at the end of the file;
an `fseek` to a negative offset fails. -/
def behind (content : Bytes) (offset : Int) : Bytes :=
  if offset < 0 then [] else content.drop offset.toNat

/-- The `while(1)` loop: what is left to read, and what was written.  Each turn reads a byte
at least, so the fuel the caller gives is never used up. -/
def copyTail : Nat → Bytes → Bytes → Bytes
  | 0, _, written => written
  | fuel + 1, rest, written =>
      if rest.take 1024 = [] then written
      else copyTail fuel (rest.drop 1024) (written ++ rest.take 1024)

/-- `file_size`: the `long` of `ftell` in an `int`. -/
def fileSize (content : Bytes) : Int := (Int32.ofNat content.length).toInt

/-- The end of `mds_api_write_data_maxsize`, with both files open. -/
def fill (buff : Bytes) (maxSize : Int) (backup : Bytes) (kernel : Kernel) :
    Option Int × Kernel :=
  match startOffset buff.length (fileSize backup) maxSize with
  | none => (none, kernel)
  | some offset =>
      let rest := behind backup offset
      let written := copyTail (rest.length + 1) rest []
      (some mdsApiOk, setFile (setFile kernel .file (some (written ++ buff))) .bak none)

/-- What `mds_api_write_data_maxsize` does behind the copy; no return value after
`fclose(NULL)` or an overflow. -/
def rebuild (buff : Bytes) (maxSize : Int) (kernel : Kernel) : Option Int × Kernel :=
  match kernel.openRead .bak with
  | (.error _, kernel) => (none, kernel)
  | (.ok _, kernel) =>
      match kernel.openWrite .file true with
      | (.error _, kernel) => (none, kernel)
      | (.ok _, kernel) => fill buff maxSize (kernel.content .bak) kernel

/-- `mds_api_write_data_maxsize`, with the length of the buffer as `data_len`. -/
def mdsApiWriteDataMaxsize (buff : Bytes) (maxSize : Int) (kernel : Kernel) :
    Option Int × Kernel :=
  if mdsApiCheckExistFile (fun _ => (kernel.disk .file).isSome) 3 = false then
    match mdsApiWriteData .file buff false kernel with
    | (ret, kernel) => (some ret, kernel)
  else
    -- what the copy returns is dropped
    rebuild buff maxSize (mdsApiCp .file .bak true kernel).2

/-! ## The newest bytes -/

/-- The last bytes of a history, `maxSize` at most. -/
def newest (maxSize : Nat) (history : Bytes) : Bytes := history.drop (history.length - maxSize)

theorem length_newest (maxSize : Nat) (history : Bytes) :
    (newest maxSize history).length = min maxSize history.length := by
  rw [newest, List.length_drop]
  omega

/-- What is dropped once is not missed later. -/
theorem newest_append (maxSize : Nat) (history message : Bytes) :
    newest maxSize (newest maxSize history ++ message) = newest maxSize (history ++ message) := by
  have hdrop : newest maxSize history ++ message =
      (history ++ message).drop (history.length - maxSize) := by
    rw [newest, List.drop_append_of_le_length (Nat.sub_le _ _)]
  rw [hdrop, newest, newest, List.drop_drop, List.length_drop, List.length_append]
  congr 1
  omega

theorem copyTail_eq (fuel : Nat) (rest written : Bytes) (hfuel : rest.length < fuel) :
    copyTail fuel rest written = written ++ rest := by
  induction fuel generalizing rest written with
  | zero => omega
  | succ fuel ih =>
      rw [copyTail]
      split
      next hend =>
          have hnone : rest = [] := by simpa using hend
          rw [hnone, List.append_nil]
      next hmore =>
          have hpos := List.length_pos_iff.mpr hmore
          rw [List.length_take] at hpos
          rw [ih _ _ (by rw [List.length_drop]; omega), List.append_assoc,
            List.take_append_drop]

/-! ## One call -/

variable {disk : Disk FileName UInt8} {content buff : Bytes} {maxSize : Int} {kernel : Kernel}

theorem mdsApiWriteDataMaxsize_of_none (hnone : kernel.disk .file = none) (buff : Bytes)
    (maxSize : Int) :
    mdsApiWriteDataMaxsize buff maxSize kernel =
      (some (mdsApiWriteData .file buff false kernel).1,
        (mdsApiWriteData .file buff false kernel).2) := by
  rw [mdsApiWriteDataMaxsize, hnone]
  rfl

theorem mdsApiWriteDataMaxsize_of_some (hfile : kernel.disk .file = some content) (buff : Bytes)
    (maxSize : Int) :
    mdsApiWriteDataMaxsize buff maxSize kernel =
      rebuild buff maxSize (mdsApiCp .file .bak true kernel).2 := by
  rw [mdsApiWriteDataMaxsize, hfile]
  rfl

theorem mdsApiWriteData_replaces (disk : Disk FileName UInt8) (name : FileName) (buff : Bytes) :
    ∃ after, mdsApiWriteData name buff false (.boot disk) = (mdsApiOk, after) ∧
      after.disk name = some buff := by
  rw [mdsApiWriteData, Bool.not_false, Kernel.boot, openWrite_truncate]
  refine ⟨_, rfl, ?_⟩
  dsimp only [setFile, Kernel.content]
  rw [Function.update_self, Function.update_self, Option.getD_some, List.nil_append]

/-- A call without a log writes the message. -/
theorem mdsApiWriteDataMaxsize_absent (hnone : disk .file = none) (buff : Bytes) (maxSize : Int) :
    ∃ after, mdsApiWriteDataMaxsize buff maxSize (.boot disk) = (some mdsApiOk, after) ∧
      after.disk .file = some buff := by
  obtain ⟨after, hwrite, hfile⟩ := mdsApiWriteData_replaces disk .file buff
  refine ⟨after, ?_, hfile⟩
  rw [@mdsApiWriteDataMaxsize_of_none (.boot disk) hnone, hwrite]

/-- Behind a complete copy, and when nothing fails, the log is filled again. -/
theorem rebuild_eq (effects : List (Effect FileName UInt8)) (hbackup : disk .bak = some content)
    (buff : Bytes) (maxSize : Int) :
    rebuild buff maxSize ⟨disk, [], effects⟩ = fill buff maxSize content
      ⟨Function.update disk .file (some []), [], effects ++ [.truncate .file]⟩ := by
  have hkept : (Kernel.mk (Function.update disk .file (some [])) []
      (effects ++ [.truncate .file])).content .bak = content := by
    dsimp only [Kernel.content]
    rw [Function.update_of_ne (by decide), hbackup, Option.getD_some]
  rw [rebuild, openRead_present hbackup]
  dsimp only
  rw [openWrite_truncate]
  dsimp only
  rw [hkept]

theorem fill_none (hoffset : startOffset buff.length (fileSize content) maxSize = none) :
    (fill buff maxSize content kernel).1 = none := by
  rw [fill, hoffset]

theorem fill_some {offset : Int}
    (hoffset : startOffset buff.length (fileSize content) maxSize = some offset) :
    ∃ after, fill buff maxSize content kernel = (some mdsApiOk, after) ∧
      after.disk .file = some (behind content offset ++ buff) := by
  rw [fill, hoffset]
  dsimp only
  rw [copyTail_eq _ _ _ (Nat.lt_succ_self _), List.nil_append]
  refine ⟨_, rfl, ?_⟩
  dsimp only [setFile]
  rw [Function.update_of_ne (by decide), Function.update_self]

/-- A call on a log, when nothing fails: it ends before the new log is written, or keeps of
the log what lies behind the offset. -/
theorem mdsApiWriteDataMaxsize_present (hfile : disk .file = some content) (buff : Bytes)
    (maxSize : Int) :
    (startOffset buff.length (fileSize content) maxSize = none →
        (mdsApiWriteDataMaxsize buff maxSize (.boot disk)).1 = none) ∧
      ∀ offset, startOffset buff.length (fileSize content) maxSize = some offset →
        ∃ after, mdsApiWriteDataMaxsize buff maxSize (.boot disk) = (some mdsApiOk, after) ∧
          after.disk .file = some (behind content offset ++ buff) := by
  have hne : FileName.file ≠ FileName.bak := by decide
  obtain ⟨writes, hcopy, _⟩ := @mdsApiCp_copies disk [] _ _ hne _ hfile
  have hbackup : Function.update disk .bak (some content) .bak = some content :=
    Function.update_self _ _ _
  rw [@mdsApiWriteDataMaxsize_of_some _ (.boot disk) hfile, Kernel.boot, hcopy,
    rebuild_eq _ hbackup]
  exact ⟨fill_none, fun offset => fill_some⟩

/-! ## The offset -/

theorem checked_eq_some_iff {value result : Int} :
    checked value = some result ↔ (-2 ^ 31 ≤ value ∧ value < 2 ^ 31) ∧ value = result := by
  rw [checked]
  split
  next hfits => exact ⟨fun h => ⟨hfits, Option.some.inj h⟩, fun h => congrArg some h.2⟩
  next hnot => exact iff_of_false (fun h => nomatch h) (fun h => hnot h.1)

theorem fileSize_of_lt (hsize : content.length < 2 ^ 31) : fileSize content = content.length :=
  Int32.toInt_ofNat_of_lt hsize

/-- With sizes that an `int` holds, everything goes that is too much. -/
theorem startOffset_of_lt {length limit : Nat} (hsum : content.length + length < 2 ^ 31)
    (hlimit : limit < 2 ^ 31) :
    startOffset length (fileSize content) limit =
      some ((content.length + length - limit : Nat) : Int) := by
  have hsize := fileSize_of_lt (Nat.lt_of_le_of_lt (Nat.le_add_right _ _) hsum)
  have hchecked : checked ((length : Int) + content.length) = some (length + content.length) :=
    checked_eq_some_iff.mpr ⟨by omega, rfl⟩
  rw [startOffset, hsize, hchecked]
  change (if (limit : Int) < length + content.length then _ else _) = _
  split
  next hmore =>
      refine checked_eq_some_iff.mpr ⟨by omega, ?_⟩
      omega
  next hless =>
      rw [Option.some_inj]
      omega

/-- What an offset says about the sizes it was computed from. -/
theorem startOffset_eq_some {dataLen size offset : Int}
    (hoffset : startOffset dataLen size maxSize = some offset) :
    dataLen + size < 2 ^ 31 ∧
      (maxSize < dataLen + size ∧ offset = dataLen + size - maxSize ∧ offset < 2 ^ 31 ∨
        dataLen + size ≤ maxSize ∧ offset = 0) := by
  obtain ⟨sum, hsum, hrest⟩ := Option.bind_eq_some_iff.mp hoffset
  obtain ⟨⟨_, hfits⟩, rfl⟩ := checked_eq_some_iff.mp hsum
  refine ⟨hfits, ?_⟩
  split at hrest
  next hmore =>
      obtain ⟨⟨_, hsmall⟩, rfl⟩ := checked_eq_some_iff.mp hrest
      exact Or.inl ⟨hmore, rfl, hsmall⟩
  next hless => exact Or.inr ⟨Int.not_lt.mp hless, (Option.some.inj hrest).symm⟩

theorem length_behind {offset : Int} (hoffset : 0 ≤ offset) :
    (behind content offset).length = content.length - offset.toNat := by
  rw [behind, if_neg (Int.not_lt.mpr hoffset), List.length_drop]

/-! ## One call and the newest bytes -/

/-- The message is not larger than the limit, and the sum of the sizes is an `int`. -/
def Fits (maxSize size : Nat) (buff : Bytes) : Prop :=
  buff.length ≤ maxSize ∧ size + buff.length < 2 ^ 31

instance decidableFits (maxSize size : Nat) (buff : Bytes) : Decidable (Fits maxSize size buff) :=
  inferInstanceAs (Decidable (_ ∧ _))

/-- The log when the kernel is started on this disk. -/
def held (disk : Disk FileName UInt8) : Bytes := (disk .file).getD []

theorem newest_of_fits {maxSize : Nat} (hfits : Fits maxSize content.length buff) :
    behind content ((content.length + buff.length - maxSize : Nat) : Int) ++ buff =
      newest maxSize (content ++ buff) := by
  obtain ⟨hmessage, _⟩ := hfits
  rw [behind, if_neg (by omega), newest, List.length_append, Int.toNat_natCast,
    List.drop_append_of_le_length (by omega)]

theorem call_of_fits {maxSize : Nat} (hmax : maxSize < 2 ^ 31)
    (hfits : Fits maxSize (held disk).length buff) :
    ∃ after, mdsApiWriteDataMaxsize buff maxSize (.boot disk) = (some mdsApiOk, after) ∧
      after.disk .file = some (newest maxSize (held disk ++ buff)) := by
  cases hfile : disk .file with
  | none =>
      have hempty : held disk = [] := by rw [held, hfile, Option.getD_none]
      obtain ⟨after, hcall, hafter⟩ := mdsApiWriteDataMaxsize_absent hfile buff maxSize
      refine ⟨after, hcall, ?_⟩
      rw [hafter, hempty, List.nil_append, newest, Nat.sub_eq_zero_of_le hfits.1, List.drop_zero]
  | some content =>
      have hheld : held disk = content := by rw [held, hfile, Option.getD_some]
      rw [hheld] at hfits ⊢
      obtain ⟨after, hcall, hafter⟩ := (mdsApiWriteDataMaxsize_present hfile buff maxSize).2 _
        (startOffset_of_lt hfits.2 hmax)
      exact ⟨after, hcall, by rw [hafter, newest_of_fits hfits]⟩

/-- A message that does not fit makes the log too large, if the call returns at all. -/
theorem length_of_not_fits {maxSize : Nat} (hmax : maxSize < 2 ^ 31)
    (hnot : ¬Fits maxSize (held disk).length buff) {ret : Int} {after : Kernel}
    (hcall : mdsApiWriteDataMaxsize buff maxSize (.boot disk) = (some ret, after)) :
    ∃ log, after.disk .file = some log ∧ maxSize < log.length := by
  cases hfile : disk .file with
  | none =>
      obtain ⟨after', hcall', hafter⟩ := mdsApiWriteDataMaxsize_absent hfile buff maxSize
      rw [hcall] at hcall'
      cases hcall'
      refine ⟨buff, hafter, ?_⟩
      rw [held, hfile, Option.getD_none, Fits, List.length_nil] at hnot
      omega
  | some content =>
      have hheld : held disk = content := by rw [held, hfile, Option.getD_some]
      rw [hheld, Fits] at hnot
      obtain ⟨hnone, hsome⟩ := mdsApiWriteDataMaxsize_present hfile buff maxSize
      cases hoffset : startOffset buff.length (fileSize content) maxSize with
      | none =>
          rw [hcall] at hnone
          cases hnone hoffset
      | some offset =>
          obtain ⟨after', hcall', hafter⟩ := hsome offset hoffset
          rw [hcall] at hcall'
          cases hcall'
          refine ⟨_, hafter, ?_⟩
          obtain ⟨hsum, hcases⟩ := startOffset_eq_some hoffset
          have hbound : fileSize content < 2 ^ 31 := Int32.toInt_lt _
          have hsmall : content.length < 2 ^ 31 → fileSize content = content.length :=
            fileSize_of_lt
          rw [List.length_append, length_behind (by omega)]
          omega

/-! ## Histories -/

/-- The disk after these messages, if every call returns. -/
def logAfter (maxSize : Nat) : List Bytes → Disk FileName UInt8 → Option (Disk FileName UInt8)
  | [], disk => some disk
  | buff :: rest, disk =>
      match mdsApiWriteDataMaxsize buff maxSize (.boot disk) with
      | (none, _) => none
      | (some _, kernel) => logAfter maxSize rest kernel.disk

/-- After each call the log is what is newest of its first content and the messages. -/
def KeepsNewest (maxSize : Nat) (disk : Disk FileName UInt8) (messages : List Bytes) : Prop :=
  ∀ first, first ≠ [] → first <+: messages →
    ∃ after, logAfter maxSize first disk = some after ∧
      after .file = some (newest maxSize (held disk ++ first.flatten)) ∧
      (held after).length ≤ maxSize

/-- Each message fits, by the size the log has when it comes. -/
def AllFit (maxSize : Nat) : Nat → List Bytes → Prop
  | _, [] => True
  | size, buff :: rest =>
      Fits maxSize size buff ∧ AllFit maxSize (min maxSize (size + buff.length)) rest

instance decidableAllFit (maxSize : Nat) :
    ∀ size messages, Decidable (AllFit maxSize size messages)
  | _, [] => .isTrue trivial
  | size, buff :: rest =>
      have : Decidable (AllFit maxSize (min maxSize (size + buff.length)) rest) :=
        decidableAllFit maxSize _ rest
      inferInstanceAs (Decidable (_ ∧ _))

section

variable {maxSize : Nat} {messages rest : List Bytes}

theorem held_of_some {log : Bytes} (hfile : disk .file = some log) : held disk = log := by
  rw [held, hfile, Option.getD_some]

theorem logAfter_cons {after : Kernel} {ret : Int}
    (hcall : mdsApiWriteDataMaxsize buff maxSize (.boot disk) = (some ret, after)) :
    logAfter maxSize (buff :: rest) disk = logAfter maxSize rest after.disk := by
  rw [logAfter, hcall]

/-- The first message fits when the first call keeps what is newest. -/
theorem fits_of_keepsNewest (hmax : maxSize < 2 ^ 31)
    (hkeeps : KeepsNewest maxSize disk (buff :: rest)) : Fits maxSize (held disk).length buff := by
  apply Classical.byContradiction
  intro hnot
  obtain ⟨last, hrun, hlog, hlength⟩ := hkeeps [buff] (List.cons_ne_nil _ _)
    ⟨rest, rfl⟩
  cases hcall : mdsApiWriteDataMaxsize buff maxSize (.boot disk) with
  | mk ret after =>
      cases ret with
      | none =>
          rw [logAfter, hcall] at hrun
          cases hrun
      | some ret =>
          rw [logAfter_cons hcall] at hrun
          cases hrun
          obtain ⟨log, hafter, hlarge⟩ := length_of_not_fits hmax hnot hcall
          rw [held_of_some hafter] at hlength
          omega

/-- Behind the first call, the history goes on from the log it left. -/
theorem keepsNewest_cons_iff {after : Kernel} {ret : Int}
    (hcall : mdsApiWriteDataMaxsize buff maxSize (.boot disk) = (some ret, after))
    (hlog : after.disk .file = some (newest maxSize (held disk ++ buff))) :
    KeepsNewest maxSize disk (buff :: rest) ↔ KeepsNewest maxSize after.disk rest := by
  have hheld : ∀ first : List Bytes, newest maxSize (held after.disk ++ first.flatten) =
      newest maxSize (held disk ++ (buff :: first).flatten) := by
    intro first
    rw [held_of_some hlog, newest_append, List.append_assoc]
    rfl
  constructor
  · intro hkeeps first hne hprefix
    obtain ⟨last, hrun, hlast, hlength⟩ := hkeeps (buff :: first) (List.cons_ne_nil _ _)
      (List.cons_prefix_cons.mpr ⟨rfl, hprefix⟩)
    rw [logAfter_cons hcall] at hrun
    exact ⟨last, hrun, by rw [hheld, hlast], hlength⟩
  · intro hkeeps first hne hprefix
    cases first with
    | nil => exact absurd rfl hne
    | cons message first =>
        obtain ⟨rfl, htail⟩ := List.cons_prefix_cons.mp hprefix
        rw [logAfter_cons hcall]
        cases first with
        | nil =>
            refine ⟨after.disk, rfl, ?_, ?_⟩
            · rw [hlog, List.flatten_singleton]
            · rw [held_of_some hlog, length_newest]
              exact Nat.min_le_left _ _
        | cons next first =>
            obtain ⟨last, hrun, hlast, hlength⟩ := hkeeps (next :: first)
              (List.cons_ne_nil _ _) htail
            exact ⟨last, hrun, by rw [hlast, hheld], hlength⟩

end

/--
The log keeps the newest bytes over a whole history exactly when each message fits: it is
not larger than the limit, and it and the log before it have sizes an `int` can add.
-/
theorem mdsApiWriteDataMaxsize_keeps_newest_iff (maxSize : Nat) (hmax : maxSize < 2 ^ 31)
    (disk : Disk FileName UInt8) (messages : List Bytes) :
    KeepsNewest maxSize disk messages ↔ AllFit maxSize (held disk).length messages := by
  induction messages generalizing disk with
  | nil =>
      refine iff_of_true (fun first hne hprefix => ?_) trivial
      exact absurd (List.prefix_nil.mp hprefix) hne
  | cons buff rest ih =>
      have hstep (hfits : Fits maxSize (held disk).length buff) :
          KeepsNewest maxSize disk (buff :: rest) ↔
            AllFit maxSize (min maxSize ((held disk).length + buff.length)) rest := by
        obtain ⟨after, hcall, hlog⟩ := call_of_fits hmax hfits
        rw [keepsNewest_cons_iff hcall hlog, ih, held_of_some hlog, length_newest,
          List.length_append]
      constructor
      · intro hkeeps
        have hfits := fits_of_keepsNewest hmax hkeeps
        exact ⟨hfits, (hstep hfits).mp hkeeps⟩
      · rintro ⟨hfits, hrest⟩
        exact (hstep hfits).mpr hrest

/-- Four bytes of six are kept. -/
theorem mdsApiWriteDataMaxsize_keeps_four :
    4 < 2 ^ 31 ∧ KeepsNewest 4 (fun _ => none) [[65, 66, 67], [68], [69, 70]] :=
  ⟨by decide, (mdsApiWriteDataMaxsize_keeps_newest_iff 4 (by decide) (fun _ => none)
    [[65, 66, 67], [68], [69, 70]]).mpr (by decide)⟩

/-- A message of three bytes is written whole into a log of two. -/
theorem mdsApiWriteDataMaxsize_large_message :
    ¬∀ (maxSize : Nat) (disk : Disk FileName UInt8) (messages : List Bytes),
      0 < maxSize → maxSize < 2 ^ 31 → (∀ message ∈ messages, message ≠ []) →
        KeepsNewest maxSize disk messages := by
  intro hall
  have hkeeps := hall 2 (fun _ => none) [[65, 66, 67]] (by decide) (by decide) (by decide)
  have hfits := fits_of_keepsNewest (by decide) hkeeps
  exact absurd hfits (by decide)

/-! ## Copies that failed -/

/-- A backup that is not a copy of the log makes the call give up, with the log as it was. -/
def LosesNoLog (buff : Bytes) (maxSize : Int) (kernel : Kernel) : Prop :=
  (mdsApiCp .file .bak true kernel).2.disk .bak ≠ kernel.disk .file →
    (mdsApiWriteDataMaxsize buff maxSize kernel).1 = some mdsApiNok ∧
      (mdsApiWriteDataMaxsize buff maxSize kernel).2.disk .file = kernel.disk .file

/-- Behind the copy, no way leads to `DEFINES_MDS_API_NOK`. -/
theorem rebuild_ne_nok (buff : Bytes) (maxSize : Int) (kernel : Kernel) :
    (rebuild buff maxSize kernel).1 ≠ some mdsApiNok := by
  have hfill (backup : Bytes) (kernel : Kernel) :
      (fill buff maxSize backup kernel).1 ≠ some mdsApiNok := by
    cases hoffset : startOffset buff.length (fileSize backup) maxSize with
    | none =>
        rw [fill_none hoffset]
        exact fun h => nomatch h
    | some offset =>
        obtain ⟨after, hok, _⟩ := @fill_some _ _ _ kernel _ hoffset
        rw [hok]
        intro heq
        exact absurd (Option.some.inj heq) (by decide)
  rw [rebuild]
  split
  next => exact fun h => nomatch h
  next =>
      split
      next => exact fun h => nomatch h
      next => exact hfill _ _

/--
An existing log is safe only where there is nothing to promise: when the backup is a
copy of it.
-/
theorem mdsApiWriteDataMaxsize_loses_no_log_iff (buff : Bytes) (maxSize : Int) (kernel : Kernel)
    (content : Bytes) (hfile : kernel.disk .file = some content) :
    LosesNoLog buff maxSize kernel ↔
      (mdsApiCp .file .bak true kernel).2.disk .bak = some content := by
  rw [LosesNoLog, hfile]
  constructor
  · intro hloses
    apply Classical.byContradiction
    intro hbackup
    have hnok := (hloses hbackup).1
    rw [mdsApiWriteDataMaxsize_of_some hfile] at hnok
    exact rebuild_ne_nok _ _ _ hnok
  · intro hbackup hother
    exact absurd hbackup hother

/-- A log of two bytes whose copy does not fail. -/
theorem mdsApiWriteDataMaxsize_loses_no_log :
    (Kernel.boot fun _ => some [65, 66]).disk .file = some [65, 66] ∧
      LosesNoLog [67] 8 (.boot fun _ => some [65, 66]) :=
  ⟨rfl, (mdsApiWriteDataMaxsize_loses_no_log_iff [67] 8 (.boot fun _ => some [65, 66]) [65, 66]
    rfl).mpr (by decide)⟩

/-- The disk is full after the first byte of the backup: the log loses the other two, and the
call succeeds. -/
theorem mdsApiWriteDataMaxsize_loses_log :
    ¬∀ (buff : Bytes) (maxSize : Int) (kernel : Kernel) (content : Bytes),
      kernel.disk .file = some content → LosesNoLog buff maxSize kernel := by
  intro hall
  have hloses := hall [68] 8 ⟨fun name => if name = .file then some [65, 66, 67] else none,
    [.full, .full, .full, .count 1, .failed], []⟩ [65, 66, 67] rfl
  exact absurd (hloses (by decide)).1 (by decide)

end MdsFormal.Storage.BoundedLog
