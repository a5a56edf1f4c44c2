import MdsFormal.Library.CString
import MdsFormal.Logd.PrintLog
import MdsFormal.Storage.BoundedLog

/-!
# Time-stamped logging

`mds_api_write_time_and_log` and `mds_api_write_time_and_log_maxsize` format into a buffer of
1024 bytes and pass on what `snprintf` returns, which is the length the text would have had.
The writer then takes NULs and bytes behind the buffer for text.
-/

namespace MdsFormal.Storage.TimeLog

open MdsFormal.Library.CrashDisk
open MdsFormal.Library.CString
open MdsFormal.Logd.PrintLog
open MdsFormal.Storage.BoundedLog
open MdsFormal.Storage.FaultFree
open MdsFormal.Storage.File

/-! ## The code -/

/-- `struct tm` as `localtime` fills it, as far as it is printed; the year counts from 1900. -/
structure Tm where
  tmYear : Nat
  tmMon : Fin 12
  tmMday : Fin 32
  tmHour : Fin 24
  tmMin : Fin 60
  tmSec : Fin 61

/-- `"[%02d.%02d.%02d/%02d:%02d:%02d] "` -/
def stamp (ptm : Tm) : List UInt8 :=
  ascii "[" ++ twoDigits (ptm.tmYear % 100) ++ ascii "." ++ twoDigits (ptm.tmMon + 1) ++
    ascii "." ++ twoDigits ptm.tmMday ++ ascii "/" ++ twoDigits ptm.tmHour ++ ascii ":" ++
    twoDigits ptm.tmMin ++ ascii ":" ++ twoDigits ptm.tmSec ++ ascii "] "

/-- Time stamp, text and line end. -/
def logLine (ptm : Tm) (log : Str) (lineEnd : String) : List UInt8 :=
  stamp ptm ++ (log.val ++ ascii lineEnd)

/-- `snprintf(buff, sizeof(buff)-1, ..)` into the cleared `char buff[1024]`, and what it
returns: the length of the whole text, or -1 when an `int` cannot hold that. -/
def snprintf (text : List UInt8) : Buf 1024 × Int :=
  ((Buf.zero 1024).strcpy (text.take 1022), if text.length < 2 ^ 31 then text.length else -1)

/-- What `fwrite(buff, data_len, 1, fp)` takes from the buffer; nothing when it reads behind it,
as it does when -1 becomes a `size_t`. -/
def taken (buff : Buf 1024) (dataLen : Int) : Option Bytes :=
  if 0 ≤ dataLen ∧ dataLen ≤ 1024 then some (buff.bytes.take dataLen.toNat) else none

/-- A call of a writer; what one does that reads behind the buffer is not modelled. -/
def passOn (writer : Bytes → Option Int × Kernel) (formatted : Buf 1024 × Int) (kernel : Kernel) :
    Option Int × Kernel :=
  match taken formatted.1 formatted.2 with
  | none => (none, kernel)
  | some bytes => writer bytes

/-- `mds_api_write_time_and_log`, at the time `ptm` -/
def mdsApiWriteTimeAndLog (name : FileName) (ptm : Tm) (log : Str) (kernel : Kernel) :
    Option Int × Kernel :=
  passOn (fun bytes => ((mdsApiWriteData name bytes true kernel).1,
    (mdsApiWriteData name bytes true kernel).2)) (snprintf (logLine ptm log "\r\n")) kernel

/-- `mds_api_write_time_and_log_maxsize`, at the time `ptm` -/
def mdsApiWriteTimeAndLogMaxsize (ptm : Tm) (log : Str) (maxSize : Int) (kernel : Kernel) :
    Option Int × Kernel :=
  passOn (fun bytes => mdsApiWriteDataMaxsize bytes maxSize kernel)
    (snprintf (logLine ptm log "\n")) kernel

/-! ## The line -/

theorem length_logLine (ptm : Tm) (log : Str) (lineEnd : String) :
    (logLine ptm log lineEnd).length = 20 + log.val.length + (ascii lineEnd).length := by
  have hstamp : (stamp ptm).length = 20 := rfl
  rw [logLine, List.length_append, List.length_append, hstamp, Nat.add_assoc]

theorem nul_not_mem_twoDigits : ∀ value < 100, 0 ∉ twoDigits value := by decide

theorem nul_not_mem_stamp (ptm : Tm) : 0 ∉ stamp ptm := by
  have hyear := nul_not_mem_twoDigits (ptm.tmYear % 100) (Nat.mod_lt _ (by decide))
  have hmon := nul_not_mem_twoDigits (ptm.tmMon + 1) (by omega)
  have hmday := nul_not_mem_twoDigits ptm.tmMday (by omega)
  have hhour := nul_not_mem_twoDigits ptm.tmHour (by omega)
  have hmin := nul_not_mem_twoDigits ptm.tmMin (by omega)
  have hsec := nul_not_mem_twoDigits ptm.tmSec (by omega)
  have hpoint : (0 : UInt8) ∉ ascii "." := by decide
  have hcolon : (0 : UInt8) ∉ ascii ":" := by decide
  simp only [stamp, List.mem_append, hyear, hmon, hmday, hhour, hmin, hsec, hpoint, hcolon]
  decide

theorem nul_not_mem_logLine (ptm : Tm) (log : Str) {lineEnd : String} (hend : 0 ∉ ascii lineEnd) :
    0 ∉ logLine ptm log lineEnd := by
  rw [logLine, List.mem_append, List.mem_append]
  rintro (hstamp | hlog | hmem)
  · exact nul_not_mem_stamp ptm hstamp
  · exact log.property hlog
  · exact hend hmem

/-! ## What is passed on -/

/-- The length passed on does not exceed the number of characters that were stored, and the
bytes taken are a prefix of the text. -/
structure PassesPrefix (text : List UInt8) (formatted : Buf 1024 × Int) : Prop where
  length : formatted.2 ≤ formatted.1.str.length
  bytes : ∃ bytes, taken formatted.1 formatted.2 = some bytes ∧ bytes <+: text

/-- A text that fits is taken as a whole. -/
theorem taken_snprintf {text : List UInt8} (hfits : text.length ≤ 1022) :
    taken (snprintf text).1 (snprintf text).2 = some text := by
  have hwhole : text.take 1022 = text := List.take_of_length_le hfits
  have hbytes : ((Buf.zero 1024).strcpy text).bytes = _ := bytes_strcpy_zero (by omega)
  have hsize : text.length < 2 ^ 31 := by omega
  rw [snprintf, if_pos hsize, hwhole, taken]
  dsimp only
  rw [if_pos (by omega), hbytes, Int.toNat_natCast, List.take_left]

theorem passesPrefix_iff {text : List UInt8} (hnul : 0 ∉ text) :
    PassesPrefix text (snprintf text) ↔ text.length ≤ 1022 := by
  have hstr : (snprintf text).1.str = text.take 1022 := by
    refine str_strcpy _ (fun hmem => hnul (List.mem_of_mem_take hmem)) ?_
    exact Nat.lt_of_le_of_lt (List.length_take_le 1022 text) (by decide)
  constructor
  · rintro ⟨hlength, bytes, hbytes, -⟩
    rcases Nat.lt_or_ge text.length (2 ^ 31) with hsize | hsize
    · have hret : (snprintf text).2 = text.length := if_pos hsize
      rw [hret, hstr, List.length_take] at hlength
      omega
    · have hret : (snprintf text).2 = -1 := if_neg (Nat.not_lt.mpr hsize)
      rw [hret] at hbytes
      cases hbytes
  · intro hfits
    have hsize : text.length < 2 ^ 31 := by omega
    have hret : (snprintf text).2 = text.length := if_pos hsize
    refine ⟨Int.le_of_eq ?_, text, taken_snprintf hfits, List.prefix_rfl⟩
    rw [hret, hstr, List.take_of_length_le hfits]

/-! ## What is logged -/

/-- A call passes on a prefix of the line, and where nothing fails the file has that behind
what it had before. -/
def LogsTime (ptm : Tm) (log : Str) : Prop :=
  PassesPrefix (logLine ptm log "\r\n") (snprintf (logLine ptm log "\r\n")) ∧
    ∀ (name : FileName) (disk : Disk FileName UInt8), ∃ bytes after,
      bytes <+: logLine ptm log "\r\n" ∧
        mdsApiWriteTimeAndLog name ptm log (.boot disk) = (some mdsApiOk, after) ∧
        after.disk name = some ((disk name).getD [] ++ bytes)

/-- The same of the log of bounded size, of which the front may be dropped. -/
def LogsTimeMaxsize (ptm : Tm) (log : Str) : Prop :=
  PassesPrefix (logLine ptm log "\n") (snprintf (logLine ptm log "\n")) ∧
    ∀ (disk : Disk FileName UInt8) (maxSize : Int), ∃ bytes, bytes <+: logLine ptm log "\n" ∧
      ∀ after, mdsApiWriteTimeAndLogMaxsize ptm log maxSize (.boot disk) = (some mdsApiOk, after) →
        ∃ kept, kept <:+ (disk .file).getD [] ∧ after.disk .file = some (kept ++ bytes)

theorem mdsApiWriteData_appends (disk : Disk FileName UInt8) (name : FileName) (buff : Bytes) :
    ∃ after, mdsApiWriteData name buff true (.boot disk) = (mdsApiOk, after) ∧
      after.disk name = some ((disk name).getD [] ++ buff) := by
  have hopen : (Kernel.boot disk).openWrite name (!true) =
      (.ok 3, ⟨Function.update disk name (some ((disk name).getD [])), [], [.create name]⟩) := rfl
  rw [mdsApiWriteData, hopen]
  refine ⟨_, rfl, ?_⟩
  dsimp only [setFile, Kernel.content]
  rw [Function.update_self, Function.update_self, Option.getD_some]

theorem behind_suffix (content : Bytes) (offset : Int) : behind content offset <:+ content := by
  rw [behind]
  split
  · exact List.nil_suffix
  · exact List.drop_suffix _ _

/-- Whatever part of the log is kept, the bytes stand behind it. -/
theorem mdsApiWriteDataMaxsize_appends {disk : Disk FileName UInt8} {buff : Bytes} {maxSize : Int}
    {after : Kernel}
    (hwrite : mdsApiWriteDataMaxsize buff maxSize (.boot disk) = (some mdsApiOk, after)) :
    ∃ kept, kept <:+ (disk .file).getD [] ∧ after.disk .file = some (kept ++ buff) := by
  cases hfile : disk .file with
  | none =>
      obtain ⟨other, hother, hdisk⟩ := mdsApiWriteDataMaxsize_absent hfile buff maxSize
      cases hwrite.symm.trans hother
      exact ⟨[], List.nil_suffix, hdisk⟩
  | some content =>
      obtain ⟨hnone, hsome⟩ := mdsApiWriteDataMaxsize_present hfile buff maxSize
      cases hoffset : startOffset buff.length (fileSize content) maxSize with
      | none =>
          rw [hwrite] at hnone
          cases hnone hoffset
      | some offset =>
          obtain ⟨other, hother, hdisk⟩ := hsome offset hoffset
          cases hwrite.symm.trans hother
          exact ⟨behind content offset, behind_suffix content offset, hdisk⟩

/-- A line is passed on as it should while stamp, text and line end fit the buffer. -/
theorem passesPrefix_logLine_iff (ptm : Tm) (log : Str) {lineEnd : String}
    (hend : 0 ∉ ascii lineEnd) :
    PassesPrefix (logLine ptm log lineEnd) (snprintf (logLine ptm log lineEnd)) ↔
      20 + log.val.length + (ascii lineEnd).length ≤ 1022 := by
  rw [passesPrefix_iff (nul_not_mem_logLine ptm log hend), length_logLine]

theorem passOn_fits (writer : Bytes → Option Int × Kernel) {text : List UInt8}
    (hfits : text.length ≤ 1022) (kernel : Kernel) :
    passOn writer (snprintf text) kernel = writer text := by
  rw [passOn, taken_snprintf hfits]

/-- Logging is right exactly when the text has at most 1000 characters, or 1001 where the line
end is a single one. -/
theorem logsTime_iff (ptm : Tm) (log : Str) :
    (LogsTime ptm log ↔ log.val.length ≤ 1000) ∧
      (LogsTimeMaxsize ptm log ↔ log.val.length ≤ 1001) := by
  constructor
  · have hpasses := @passesPrefix_logLine_iff ptm log "\r\n" (by decide)
    have hend : (ascii "\r\n").length = 2 := by decide
    rw [hend] at hpasses
    constructor
    · intro hlogs
      have hfits := hpasses.mp hlogs.1
      omega
    · intro hfits
      refine ⟨hpasses.mpr (by omega), fun name disk => ?_⟩
      obtain ⟨after, hwrite, hdisk⟩ :=
        mdsApiWriteData_appends disk name (logLine ptm log "\r\n")
      refine ⟨_, after, List.prefix_rfl, ?_, hdisk⟩
      rw [mdsApiWriteTimeAndLog, passOn_fits _ (by rw [length_logLine, hend]; omega), hwrite]
  · have hpasses := @passesPrefix_logLine_iff ptm log "\n" (by decide)
    have hend : (ascii "\n").length = 1 := by decide
    rw [hend] at hpasses
    constructor
    · intro hlogs
      have hfits := hpasses.mp hlogs.1
      omega
    · intro hfits
      refine ⟨hpasses.mpr (by omega), fun disk maxSize => ⟨_, List.prefix_rfl, ?_⟩⟩
      intro after hwrite
      rw [mdsApiWriteTimeAndLogMaxsize, passOn_fits _ (by rw [length_logLine, hend]; omega)]
        at hwrite
      exact mdsApiWriteDataMaxsize_appends hwrite

/-- A text of 1002 characters is passed on with its length. -/
theorem logsTime_too_long :
    ¬∀ (ptm : Tm) (log : Str), LogsTime ptm log ∧ LogsTimeMaxsize ptm log := by
  intro hall
  have hnul : (0 : UInt8) ∉ List.replicate 1002 97 := by
    intro hmem
    cases List.eq_of_mem_replicate hmem
  obtain ⟨⟨hpasses, -⟩, -⟩ := hall ⟨124, 0, 1, 0, 0, 0⟩ ⟨List.replicate 1002 97, hnul⟩
  have hfits := (passesPrefix_logLine_iff _ _ (by decide)).mp hpasses
  have hend : (ascii "\r\n").length = 2 := by decide
  rw [List.length_replicate, hend] at hfits
  omega

end MdsFormal.Storage.TimeLog
