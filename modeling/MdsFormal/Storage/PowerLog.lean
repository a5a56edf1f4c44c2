import MdsFormal.Gpio.Sysfs
import MdsFormal.Storage.TimeLog

/-!
# The log of the power-offs

`mds_api_poweroff_and_log` writes a line to a log of bounded size, clears pin 15 and asks for
the power-off until it comes.  A power-off ends a boot, so the log is followed here over any
number of boots, with the writes of `stdio` free of faults.
-/

namespace MdsFormal.Storage.PowerLog

open MdsFormal.Library.CrashDisk
open MdsFormal.Library.CString
open MdsFormal.Library.Faults
open MdsFormal.Logd.PrintLog
open MdsFormal.Storage.BoundedLog
open MdsFormal.Storage.File
open MdsFormal.Storage.TimeLog

/-! ## The code -/

/-- `LOG_PWR_LOG_MAX_SIZE` -/
def logPwrLogMaxSize : Nat := 10240

/-- `"[%02d.%02d.%02d/%02d:%02d:%02d PWR LOG] "` -/
def pwrStamp (ptm : Tm) : List UInt8 :=
  ascii "[" ++ twoDigits (ptm.tmYear % 100) ++ ascii "." ++ twoDigits (ptm.tmMon + 1) ++
    ascii "." ++ twoDigits ptm.tmMday ++ ascii "/" ++ twoDigits ptm.tmHour ++ ascii ":" ++
    twoDigits ptm.tmMin ++ ascii ":" ++ twoDigits ptm.tmSec ++ ascii " PWR LOG] "

/-- The line: of the text `"%.120s"` takes 120 characters. -/
def pwrLine (ptm : Tm) (log : List UInt8) : List UInt8 :=
  pwrStamp ptm ++ (log.take 120 ++ ascii "\n")

/-- `devel_log_poweroff`, with the line in the cleared `char buff[192]`; what is done where the
length goes behind the buffer is not modelled. -/
def develLogPoweroff (ptm : Tm) (log : List UInt8) (kernel : Kernel) : Option Int × Kernel :=
  let line := pwrLine ptm log
  let buff := (Buf.zero 192).strcpy (line.take 190)
  let writeSize := line.length
  if writeSize ≤ 192 then
    mdsApiWriteDataMaxsize (buff.bytes.take writeSize) logPwrLogMaxSize kernel
  else (none, kernel)

inductive Command where
  /-- `poweroff &` -/
  | poweroff
  /-- `echo c > /proc/sysrq-trigger` -/
  | sysrq
  deriving DecidableEq

/-- One turn of the loop, with `power_off_cnt` as it was before. -/
def turn (powerOffCnt : Nat) : List Command :=
  if powerOffCnt > 10 then [.poweroff, .sysrq] else [.poweroff]

/-- `mds_api_poweroff`, until the power goes off after some turns. -/
def mdsApiPoweroff (answer : Gpio.Sysfs.Answer) (pins : Gpio.Sysfs.Pins) (turns : Nat) :
    Option (List Command) :=
  match Gpio.Sysfs.mdsApiGpioSetValue 15 0 answer pins with
  | .error .outside => none
  | .ok _ => some ((List.range turns).flatMap turn)

/-- A call of `mds_api_poweroff_and_log` at the end of a boot, and what the system has then. -/
structure PowerOff where
  ptm : Tm
  processName : Str
  msg : Str
  answer : Gpio.Sysfs.Answer
  pins : Gpio.Sysfs.Pins
  turns : Nat

/-- `"%s > %s \r\n"` -/
def PowerOff.text (off : PowerOff) : List UInt8 :=
  off.processName.1 ++ ascii " > " ++ off.msg.1 ++ ascii " \r\n"

/-- `mds_api_poweroff_and_log`: the disk it leaves and its commands; nothing where it writes
outside of an array or the logging does not return. -/
def mdsApiPoweroffAndLog (off : PowerOff) (disk : Disk FileName UInt8) :
    Option (Disk FileName UInt8 × List Command) := do
  -- sprintf into log_buff[1024]
  if off.text.length < 1024 then
    match develLogPoweroff off.ptm off.text (.boot disk) with
    | (none, _) => none
    | (some _, kernel) =>
        let commands ← mdsApiPoweroff off.answer off.pins off.turns
        pure (kernel.disk, commands)
  else none

/-- One boot after the other, with the commands of each. -/
def boots : List PowerOff → Disk FileName UInt8 →
    Option (Disk FileName UInt8 × List (List Command))
  | [], disk => some (disk, [])
  | off :: rest, disk => do
      let (disk, commands) ← mdsApiPoweroffAndLog off disk
      let (disk, later) ← boots rest disk
      pure (disk, commands :: later)

/-! ## One power-off -/

/-- Name and message fit their array, and the pin is exported. -/
def PowerOff.Fits (off : PowerOff) : Prop :=
  off.processName.1.length + off.msg.1.length ≤ 1017 ∧ off.pins.exported 15 = true

def PowerOff.line (off : PowerOff) : List UInt8 := pwrLine off.ptm off.text

section

variable {off : PowerOff} {disk : Disk FileName UInt8} {ptm : Tm} {log : List UInt8}

theorem length_pwrLine_le (ptm : Tm) (log : List UInt8) : (pwrLine ptm log).length ≤ 149 := by
  have hstamp : (pwrStamp ptm).length = 28 := rfl
  have hend : (ascii "\n").length = 1 := rfl
  have htext : (log.take 120).length ≤ 120 := List.length_take_le 120 log
  unfold pwrLine
  rw [List.length_append, List.length_append, hstamp, hend]
  omega

theorem length_text (off : PowerOff) :
    off.text.length = off.processName.1.length + off.msg.1.length + 6 := by
  have hinto : (ascii " > ").length = 3 := rfl
  have hend : (ascii " \r\n").length = 3 := rfl
  unfold PowerOff.text
  rw [List.length_append, List.length_append, List.length_append, hinto, hend]
  omega

/-- The line is logged as a whole. -/
theorem develLogPoweroff_eq (ptm : Tm) (log : List UInt8) (kernel : Kernel) :
    develLogPoweroff ptm log kernel =
      mdsApiWriteDataMaxsize (pwrLine ptm log) logPwrLogMaxSize kernel := by
  have hlen := length_pwrLine_le ptm log
  have hwhole : (pwrLine ptm log).take 190 = pwrLine ptm log :=
    List.take_of_length_le (by omega)
  have hbytes : ((Buf.zero 192).strcpy (pwrLine ptm log)).bytes = _ :=
    bytes_strcpy_zero (by omega)
  unfold develLogPoweroff
  dsimp only
  rw [if_pos (by omega), hwhole, hbytes, List.take_left]

theorem develLogPoweroff_logs (ptm : Tm) (log : List UInt8)
    (hlog : (held disk).length ≤ logPwrLogMaxSize) :
    ∃ after, develLogPoweroff ptm log (.boot disk) = (some mdsApiOk, after) ∧
      after.disk .file = some (newest logPwrLogMaxSize (held disk ++ pwrLine ptm log)) := by
  have hlen := length_pwrLine_le ptm log
  unfold logPwrLogMaxSize at hlog
  rw [develLogPoweroff_eq]
  exact call_of_fits (by decide) ⟨Nat.le_trans hlen (by decide), by omega⟩

/-- The power-off is commanded exactly when pin 15 is exported. -/
theorem mdsApiPoweroff_eq (answer : Gpio.Sysfs.Answer) (pins : Gpio.Sysfs.Pins) (turns : Nat) :
    mdsApiPoweroff answer pins turns =
      if pins.exported 15 = true then some ((List.range turns).flatMap turn) else none := by
  have hpin : Gpio.Sysfs.Harmless pins.exported .value 15 ↔ pins.exported 15 = true := by
    rw [Gpio.Sysfs.Harmless, or_iff_right (by decide)]
    exact and_iff_left (by decide)
  have hguarded := (@Gpio.Sysfs.guarded_onFile 15 .value answer pins
    (fun pins => (0, pins.write 15 .value ['0'])) fun _ => rfl).congr hpin
  unfold mdsApiPoweroff
  by_cases hexported : pins.exported 15 = true
  · obtain ⟨result, hresult, -⟩ := hguarded.ends hexported
    have hset : Gpio.Sysfs.mdsApiGpioSetValue 15 0 answer pins = .ok result := hresult
    rw [hset, if_pos hexported]
  · rw [if_neg hexported]
    cases hset : Gpio.Sysfs.mdsApiGpioSetValue 15 0 answer pins with
    | error fault => rfl
    | ok result => exact absurd (hguarded.of_runs ⟨result, hset⟩) hexported

/-- One power-off comes through exactly when it fits, and logs its line. -/
theorem mdsApiPoweroffAndLog_spec (off : PowerOff)
    (hlog : (held disk).length ≤ logPwrLogMaxSize) :
    (¬ off.Fits → mdsApiPoweroffAndLog off disk = none) ∧
      (off.Fits → ∃ after,
        mdsApiPoweroffAndLog off disk = some (after, (List.range off.turns).flatMap turn) ∧
          held after = newest logPwrLogMaxSize (held disk ++ off.line)) := by
  obtain ⟨kernel, hwrite, hfile⟩ := develLogPoweroff_logs off.ptm off.text hlog
  have htext := length_text off
  unfold mdsApiPoweroffAndLog
  rw [hwrite, mdsApiPoweroff_eq]
  by_cases hshort : off.text.length < 1024
  · rw [if_pos hshort]
    dsimp only
    by_cases hexported : off.pins.exported 15 = true
    · rw [if_pos hexported]
      refine ⟨fun hnot => absurd ⟨by omega, hexported⟩ hnot, fun _ => ⟨kernel.disk, rfl, ?_⟩⟩
      exact held_of_some hfile
    · rw [if_neg hexported]
      exact ⟨fun _ => rfl, fun hfits => absurd hfits.2 hexported⟩
  · rw [if_neg hshort]
    refine ⟨fun _ => rfl, fun hfits => ?_⟩
    have hlen := hfits.1
    omega

end

/--
Starting from a log within its bound, any number of power-offs come through exactly when all
of them fit.  The log is then what is newest of its first content and the lines, and each boot
ends in its commands.
-/
theorem boots_log (offs : List PowerOff) (disk : Disk FileName UInt8)
    (hlog : (held disk).length ≤ logPwrLogMaxSize) :
    ((boots offs disk).isSome = true ↔ ∀ off ∈ offs, off.Fits) ∧
      ∀ after commands, boots offs disk = some (after, commands) →
        held after = newest logPwrLogMaxSize (held disk ++ (offs.map PowerOff.line).flatten) ∧
          commands = offs.map fun off => (List.range off.turns).flatMap turn := by
  induction offs generalizing disk with
  | nil =>
      refine ⟨iff_of_true rfl fun off hoff => absurd hoff List.not_mem_nil, ?_⟩
      intro after commands hboots
      cases hboots
      refine ⟨?_, rfl⟩
      rw [List.map_nil, List.flatten_nil, List.append_nil, newest, Nat.sub_eq_zero_of_le hlog,
        List.drop_zero]
  | cons off rest ih =>
      obtain ⟨hstops, hcomes⟩ := mdsApiPoweroffAndLog_spec off hlog
      rw [List.forall_mem_cons]
      by_cases hfits : off.Fits
      · obtain ⟨next, hone, hheld⟩ := hcomes hfits
        have hnext : (held next).length ≤ logPwrLogMaxSize := by
          rw [hheld, length_newest]
          exact Nat.min_le_left _ _
        obtain ⟨hall, hlast⟩ := ih next hnext
        have hcons : boots (off :: rest) disk = (boots rest next).map fun result =>
            (result.1, (List.range off.turns).flatMap turn :: result.2) := by
          rw [boots, hone]
          change (boots rest next).bind _ = _
          cases boots rest next with
          | none => rfl
          | some result => rfl
        rw [hcons, Option.isSome_map, and_iff_right hfits]
        refine ⟨hall, fun after commands hboots => ?_⟩
        obtain ⟨⟨last, later⟩, hlater, heq⟩ := Option.map_eq_some_iff.mp hboots
        cases heq
        obtain ⟨hlog', hcommands⟩ := hlast last later hlater
        rw [hlog', hcommands, hheld, newest_append, List.append_assoc]
        exact ⟨rfl, rfl⟩
      · rw [boots, hstops hfits]
        refine ⟨iff_of_false (fun hsome => ?_) fun hboth => hfits hboth.1, ?_⟩
        · cases hsome
        · intro after commands hboots
          cases hboots

/-- A device without a log that is powered off twice by its monitor. -/
theorem boots_log_twice :
    let monitor : Str := ⟨ascii "mon", by decide⟩
    let pins : Gpio.Sysfs.Pins := ⟨fun _ => true, fun _ _ => []⟩
    let off (msg : Str) (turns : Nat) : PowerOff :=
      ⟨⟨124, 0, 1, 0, 0, 0⟩, monitor, msg, ⟨false, true⟩, pins, turns⟩
    let offs := [off ⟨ascii "check_prog case 1", by decide⟩ 1,
      off ⟨ascii "check_prog case 2", by decide⟩ 12]
    ∃ after commands, boots offs (fun _ => none) = some (after, commands) ∧
      (held after).length = 110 ∧ commands.map List.length = [1, 13] := by
  intro monitor pins off offs
  obtain ⟨hiff, hlast⟩ := boots_log offs (fun _ => none) (Nat.zero_le _)
  have hfits : ∀ off ∈ offs, off.Fits := by
    refine List.forall_mem_cons.mpr ⟨⟨by decide, rfl⟩, List.forall_mem_singleton.mpr ⟨?_, rfl⟩⟩
    decide
  obtain ⟨⟨after, commands⟩, hboots⟩ := Option.isSome_iff_exists.mp (hiff.mpr hfits)
  obtain ⟨hheld, hcommands⟩ := hlast after commands hboots
  refine ⟨after, commands, hboots, ?_, ?_⟩
  · have hlines : (offs.map PowerOff.line).flatten.length = 110 := by decide +kernel
    have hnone : held (fun _ => none) = [] := rfl
    rw [hheld, length_newest, hnone, List.nil_append, hlines]
    rfl
  · rw [hcommands]
    rfl

end MdsFormal.Storage.PowerLog
