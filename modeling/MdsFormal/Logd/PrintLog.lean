import MdsFormal.Library.Faults
import MdsFormal.Logd.Message

/-!
# What the log daemon does with a datagram

The numbers and strings of a datagram are used as the client sent them: the level
and the service as shift counts, the service as an index of a table, both arrays
as strings.  Which of these a datagram reaches depends on the masks and on the
application name, which the daemon takes from its arguments.
-/

namespace MdsFormal.Logd.PrintLog

open MdsFormal.Library.CString
open MdsFormal.Library.Faults
open MdsFormal.Logd.Message
open MdsFormal.Storage.Crc16 (Endian)

/-! ## The tables -/

/-- `LOGD_CMD_SET_T` -/
structure CmdSet where
  index : Nat
  cmd : Option String
  print : Option String
  deriving DecidableEq

def svcCmdSet : List CmdSet :=
  [⟨0, "SVC_COMMON", "COMMON"⟩,
   ⟨1, "SVC_BASE", "BASE"⟩,
   ⟨2, "SVC_AT", "AT"⟩,
   ⟨3, "SVC_MODEL", "MODEL"⟩,
   ⟨4, "SVC_NETWORK", "NETWORK"⟩,
   ⟨5, "SVC_REGI", "REGI"⟩,
   ⟨6, "SVC_MILEAGE", "MILEAGE"⟩,
   ⟨7, "SVC_GPS", "GPS"⟩,
   ⟨8, "SVC_UPDATE", "UPDATE"⟩,
   ⟨0, none, none⟩]

def levelCmdSet : List CmdSet :=
  [⟨0, "L_DBUG", none⟩,
   ⟨1, "L_WARN", none⟩,
   ⟨2, "L_INFO", none⟩,
   ⟨3, "L_ERR", none⟩,
   ⟨4, "L_TRACE", none⟩,
   ⟨0, none, none⟩]

/-! ## The arguments -/

/-- `prgcfg_level`, `prgcfg_service` and `g_application_name`. -/
structure Config where
  prgcfgLevel : BitVec 32
  prgcfgService : BitVec 32
  applicationName : Option Str
  deriving DecidableEq

/-- The bits that one argument adds to a mask: the loop over a table, up to its NULL. -/
def enable (argument : Str) : List CmdSet → BitVec 32 → BitVec 32
  | [], mask => mask
  | entry :: rest, mask =>
      match entry.cmd with
      | none => mask
      | some cmd =>
          if strncmp (ascii cmd).length argument.1 (ascii cmd) = 0 then
            enable argument rest (mask ||| 1#32 <<< entry.index)
          else enable argument rest mask

/-- The first loop over the arguments; `none` when `-app` is the last of them. -/
def levelArguments : List Str → Option Str → BitVec 32 →
    Option (Option Str × BitVec 32)
  | [], applicationName, mask => some (applicationName, mask)
  | argument :: rest, applicationName, mask =>
      if argument.1 = ascii "-app" then
        match rest.head? with
        | none => none
        | some next => levelArguments rest (some next) (enable argument levelCmdSet mask)
      else levelArguments rest applicationName (enable argument levelCmdSet mask)

/-- The second loop over the arguments. -/
def serviceArguments (argv : List Str) : BitVec 32 :=
  argv.foldl (fun mask argument => enable argument svcCmdSet mask) 0

def orAll (mask : BitVec 32) : BitVec 32 := if mask = 0 then 0xffffffff else mask

def asksForHelp (argv : List Str) : Bool :=
  match argv[1]? with
  | none => false
  | some first => strncmp (ascii "--help").length first.1 (ascii "--help") = 0

/-- `main` up to its socket; `none` when it ends before. -/
def configure (argv : List Str) : Option Config :=
  if asksForHelp argv then none
  else
    match levelArguments argv none 0 with
    | none => none
    | some (applicationName, level) =>
        some ⟨orAll level, orAll (serviceArguments argv), applicationName⟩

/-! ## Printing -/

inductive Fault where
  | shift
  | noPrintText
  | unterminated
  deriving DecidableEq

/-- `1 << amount`. -/
def shiftOne (amount : BitVec 32) : Except Fault (BitVec 32) := do
  require (0 ≤ amount.toInt ∧ amount.toInt < 32) .shift
  pure (1#32 <<< amount.toNat)

/-- `svc_cmd_set[service].print`. -/
def svcPrint (service : BitVec 32) : Except Fault (List UInt8) :=
  match svcCmdSet[service.toNat]?.bind CmdSet.print with
  | none => .error .noPrintText
  | some text => .ok (ascii text)

/-- What `%s` prints of an array. -/
def printed {size : Nat} (array : Buf size) : Except Fault (List UInt8) := do
  require (0 ∈ array.bytes) .unterminated
  pure array.str

/-- `struct tm`, as far as it is printed. -/
structure Clock where
  tmHour : Fin 24
  tmMin : Fin 60
  tmSec : Fin 61

/-- `%02d`. -/
def twoDigits (value : Nat) : List UInt8 :=
  [UInt8.ofNat (48 + value / 10), UInt8.ofNat (48 + value % 10)]

def Clock.text (clock : Clock) : List UInt8 :=
  ascii "[" ++ twoDigits clock.tmHour ++ ascii ":" ++ twoDigits clock.tmMin ++ ascii ":" ++
    twoDigits clock.tmSec ++ ascii "] "

/-- One `fprintf`: the line in its colour. -/
def line (clock : Clock) (m : LogMessage) (color letter : String) :
    Except Fault (List UInt8) := do
  let pname ← printed m.pname
  let svc ← svcPrint m.service
  let message ← printed m.message
  pure (ascii color ++ clock.text ++ pname ++ ascii letter ++ svc ++ ascii " " ++ message ++
    ascii "\x1b[0m")

/-- `switch(l_msg.level)`. -/
def switchLevel (clock : Clock) (m : LogMessage) : Except Fault (List UInt8) :=
  match m.level.toNat with
  | 0 => line clock m "\x1b[1;30m" " D "
  | 1 => line clock m "\x1b[0;40;33m" " W "
  | 2 => line clock m "\x1b[1;32m" " I "
  | 3 => line clock m "\x1b[1;31m" " E "
  | 4 => line clock m "\x1b[1;36m" " T "
  | _ => pure []

def printLog (cfg : Config) (clock : Clock) (m : LogMessage) : Except Fault (List UInt8) := do
  let levelBit ← shiftOne m.level
  let svcBit ← shiftOne m.service
  let enableLevel := levelBit &&& cfg.prgcfgLevel
  let enableSvc := svcBit &&& cfg.prgcfgService
  if enableLevel ≠ 0 ∧ enableSvc ≠ 0 then switchLevel clock m
  else pure []

/-- What one turn of `while(1)` does with the structure it has received. -/
def handle (cfg : Config) (clock : Clock) (m : LogMessage) : Except Fault (List UInt8) :=
  if passesFilter (cfg.applicationName.map Subtype.val) m then
    if m.type = 0 then printLog cfg clock m else pure []
  else pure []

/-- A turn of `while(1)`: what it writes, and the memory of `l_msg` after it. -/
def serve (endian : Endian) (cfg : Config) (clock : Clock) (lMsg : Buf sizeofLogMessage)
    (received : Option (List UInt8)) : Except Fault (List UInt8 × Buf sizeofLogMessage) := do
  let lMsg' := turn lMsg received
  let written ← handle cfg clock (LogMessage.ofBytes endian lMsg')
  pure (written, lMsg')

/-- The turns of `while(1)`, each with the time it happens at: all that they write. -/
def daemon (endian : Endian) (cfg : Config) :
    Buf sizeofLogMessage → List (Clock × Option (List UInt8)) → Except Fault (List UInt8)
  | _, [] => pure []
  | lMsg, (clock, received) :: rest => do
      let (written, lMsg') ← serve endian cfg clock lMsg received
      let more ← daemon endian cfg lMsg' rest
      pure (written ++ more)

/-! ## Masks -/

theorem one_shiftLeft_and_ne_zero_iff (mask : BitVec 32) {bit : Nat} (hbit : bit < 32) :
    (1#32 <<< bit) &&& mask ≠ 0 ↔ mask.getLsbD bit = true := by
  rw [← BitVec.twoPow_eq, BitVec.twoPow_and]
  by_cases hset : mask.getLsbD bit = true
  · rw [if_pos hset]
    refine iff_of_true (fun hzero => ?_) hset
    have hone := congrArg (BitVec.getLsbD · bit) hzero
    simp [hbit] at hone
  · rw [if_neg hset]
    exact iff_of_false (not_not_intro rfl) hset

/-- Only bits below `bound` are set. -/
def BitsBelow (bound : Nat) (mask : BitVec 32) : Prop :=
  ∀ bit, mask.getLsbD bit = true → bit < bound

theorem bitsBelow_zero (bound : Nat) : BitsBelow bound 0 := by
  intro bit hset
  rw [BitVec.ofNat_eq_ofNat, BitVec.getLsbD_zero] at hset
  cases hset

theorem bitsBelow_or {bound index : Nat} {mask : BitVec 32} (hmask : BitsBelow bound mask)
    (hindex : index < bound) : BitsBelow bound (mask ||| 1#32 <<< index) := by
  intro bit hset
  rw [BitVec.getLsbD_or, ← BitVec.twoPow_eq, BitVec.getLsbD_twoPow, Bool.or_eq_true] at hset
  rcases hset with hset | hset
  · exact hmask bit hset
  · rw [Bool.and_eq_true, decide_eq_true_iff, decide_eq_true_iff] at hset
    rwa [← hset.2]

theorem bitsBelow_enable {bound : Nat} (argument : Str) {table : List CmdSet}
    (htable : ∀ entry ∈ table, entry.index < bound) {mask : BitVec 32}
    (hmask : BitsBelow bound mask) : BitsBelow bound (enable argument table mask) := by
  induction table generalizing mask with
  | nil => exact hmask
  | cons entry rest ih =>
      have hrest : ∀ entry ∈ rest, entry.index < bound := fun entry hentry =>
        htable entry (List.mem_cons_of_mem _ hentry)
      rw [enable]
      split
      · exact hmask
      · split
        · exact ih hrest (bitsBelow_or hmask (htable entry List.mem_cons_self))
        · exact ih hrest hmask

theorem svcCmdSet_index : ∀ entry ∈ svcCmdSet, entry.index < 9 := by
  decide

theorem bitsBelow_serviceArguments (argv : List Str) :
    BitsBelow 9 (serviceArguments argv) := by
  rw [serviceArguments]
  generalize hzero : (0 : BitVec 32) = mask
  have hmask : BitsBelow 9 mask := hzero ▸ bitsBelow_zero 9
  clear hzero
  induction argv generalizing mask with
  | nil => exact hmask
  | cons argument rest ih => exact ih _ (bitsBelow_enable argument svcCmdSet_index hmask)

/-- A service mask that is built from arguments has bits of the table only. -/
theorem service_of_configure {argv : List Str} {cfg : Config}
    (hconfigure : configure argv = some cfg) :
    cfg.prgcfgService = 0xffffffff ∨ BitsBelow 9 cfg.prgcfgService := by
  rw [configure] at hconfigure
  split at hconfigure
  · cases hconfigure
  · split at hconfigure
    · cases hconfigure
    · cases hconfigure
      change orAll _ = _ ∨ BitsBelow 9 (orAll _)
      rw [orAll]
      split
      · exact .inl rfl
      · exact .inr (bitsBelow_serviceArguments argv)

/-! ## When printing reaches its end -/

theorem runs_printed_iff {size : Nat} (array : Buf size) :
    Runs (printed array) ↔ 0 ∈ array.bytes := by
  rw [printed, runs_require_bind_iff]
  exact and_iff_left (runs_ok array.str)

/-- The entries with a text are those of the services. -/
theorem print_svcCmdSet_iff (index : Nat) :
    (svcCmdSet[index]?.bind CmdSet.print).isSome = true ↔ index ≤ 8 := by
  by_cases hindex : index < 10
  · revert index
    decide
  · have hnone : svcCmdSet[index]? = none := List.getElem?_eq_none (Nat.not_lt.mp hindex)
    rw [hnone]
    refine iff_of_false (fun hsome => ?_) (by omega)
    cases hsome

theorem runs_svcPrint_iff (service : BitVec 32) :
    Runs (svcPrint service) ↔ service.toNat ≤ 8 := by
  rw [← print_svcCmdSet_iff, svcPrint]
  cases svcCmdSet[service.toNat]?.bind CmdSet.print with
  | none =>
      refine iff_of_false (not_runs_error _) (fun hsome => ?_)
      cases hsome
  | some text => exact iff_of_true (runs_ok _) rfl

theorem runs_line_iff (clock : Clock) (m : LogMessage) (color letter : String) :
    Runs (line clock m color letter) ↔
      m.service.toNat ≤ 8 ∧ 0 ∈ m.pname.bytes ∧ 0 ∈ m.message.bytes := by
  rw [← runs_svcPrint_iff, ← runs_printed_iff, ← runs_printed_iff, line, runs_bind_iff]
  constructor
  · rintro ⟨pname, hpname, hrest⟩
    obtain ⟨svc, hsvc, hrest⟩ := runs_bind_iff.mp hrest
    obtain ⟨message, hmessage, _⟩ := runs_bind_iff.mp hrest
    exact ⟨⟨svc, hsvc⟩, ⟨pname, hpname⟩, message, hmessage⟩
  · rintro ⟨⟨svc, hsvc⟩, ⟨pname, hpname⟩, message, hmessage⟩
    refine ⟨pname, hpname, ?_⟩
    refine runs_bind_iff.mpr ⟨svc, hsvc, ?_⟩
    exact runs_bind_iff.mpr ⟨message, hmessage, runs_ok _⟩

/-- The message is printed, rather than masked out. -/
def Shown (cfg : Config) (m : LogMessage) : Prop :=
  cfg.prgcfgLevel.getLsbD m.level.toNat = true ∧
    cfg.prgcfgService.getLsbD m.service.toNat = true ∧ m.level.toNat ≤ 4

theorem toNat_lt_of_toInt {value : BitVec 32} (hlow : 0 ≤ value.toInt)
    (hhigh : value.toInt < 32) : value.toNat < 32 := by
  rw [BitVec.toInt_eq_toNat_cond] at hlow hhigh
  split at hlow <;> omega

/-- One line for each of the five levels, nothing for the others. -/
theorem runs_switchLevel_iff (clock : Clock) (m : LogMessage) :
    Runs (switchLevel clock m) ↔
      (m.level.toNat ≤ 4 → m.service.toNat ≤ 8 ∧ 0 ∈ m.pname.bytes ∧ 0 ∈ m.message.bytes) := by
  rw [switchLevel]
  by_cases hknown : m.level.toNat ≤ 4
  · rw [imp_iff_right hknown]
    generalize m.level.toNat = level at hknown
    rcases level with _ | _ | _ | _ | _ | level
    · exact runs_line_iff _ _ _ _
    · exact runs_line_iff _ _ _ _
    · exact runs_line_iff _ _ _ _
    · exact runs_line_iff _ _ _ _
    · exact runs_line_iff _ _ _ _
    · omega
  · refine iff_of_true ?_ (fun hlevel => absurd hlevel hknown)
    obtain ⟨level, hlevel⟩ : ∃ level, m.level.toNat = level + 5 := ⟨m.level.toNat - 5, by omega⟩
    rw [hlevel]
    exact runs_ok []

theorem shiftOne_eq_ok_iff {amount bit : BitVec 32} :
    shiftOne amount = .ok bit ↔
      (0 ≤ amount.toInt ∧ amount.toInt < 32) ∧ bit = 1#32 <<< amount.toNat := by
  by_cases hamount : 0 ≤ amount.toInt ∧ amount.toInt < 32
  · rw [shiftOne, require_bind_of_pos hamount, and_iff_right hamount]
    constructor
    · intro hok
      cases hok
      rfl
    · rintro rfl
      rfl
  · rw [shiftOne, require_bind_of_neg hamount]
    refine iff_of_false (fun hok => ?_) (fun hboth => hamount hboth.1)
    cases hok

/-- Behind the shifts, the message is printed if both of its bits are set. -/
theorem runs_masked_iff (cfg : Config) (clock : Clock) {m : LogMessage}
    (hlevel : m.level.toNat < 32) (hservice : m.service.toNat < 32) :
    Runs (if (1#32 <<< m.level.toNat) &&& cfg.prgcfgLevel ≠ 0 ∧
        (1#32 <<< m.service.toNat) &&& cfg.prgcfgService ≠ 0 then switchLevel clock m
      else pure []) ↔
      (Shown cfg m → m.service.toNat ≤ 8 ∧ 0 ∈ m.pname.bytes ∧ 0 ∈ m.message.bytes) := by
  have hlevelBit := one_shiftLeft_and_ne_zero_iff cfg.prgcfgLevel hlevel
  have hserviceBit := one_shiftLeft_and_ne_zero_iff cfg.prgcfgService hservice
  split
  · next henabled =>
      rw [runs_switchLevel_iff]
      constructor
      · intro hlines hshown
        exact hlines hshown.2.2
      · intro hlines hknown
        exact hlines ⟨hlevelBit.mp henabled.1, hserviceBit.mp henabled.2, hknown⟩
  · next hdisabled =>
      refine iff_of_true (runs_ok []) fun hshown => absurd ?_ hdisabled
      exact ⟨hlevelBit.mpr hshown.1, hserviceBit.mpr hshown.2.1⟩

theorem runs_printLog_iff (cfg : Config) (clock : Clock) (m : LogMessage) :
    Runs (printLog cfg clock m) ↔
      (0 ≤ m.level.toInt ∧ m.level.toInt < 32) ∧ (0 ≤ m.service.toInt ∧ m.service.toInt < 32) ∧
        (Shown cfg m → m.service.toNat ≤ 8 ∧ 0 ∈ m.pname.bytes ∧ 0 ∈ m.message.bytes) := by
  rw [printLog, runs_bind_iff]
  constructor
  · rintro ⟨levelBit, hlevelBit, hrest⟩
    obtain ⟨svcBit, hsvcBit, hrest⟩ := runs_bind_iff.mp hrest
    obtain ⟨hlevel, rfl⟩ := shiftOne_eq_ok_iff.mp hlevelBit
    obtain ⟨hservice, rfl⟩ := shiftOne_eq_ok_iff.mp hsvcBit
    refine ⟨hlevel, hservice, ?_⟩
    exact (runs_masked_iff cfg clock (toNat_lt_of_toInt hlevel.1 hlevel.2)
      (toNat_lt_of_toInt hservice.1 hservice.2)).mp hrest
  · rintro ⟨hlevel, hservice, hshown⟩
    refine ⟨_, shiftOne_eq_ok_iff.mpr ⟨hlevel, rfl⟩, ?_⟩
    refine runs_bind_iff.mpr ⟨_, shiftOne_eq_ok_iff.mpr ⟨hservice, rfl⟩, ?_⟩
    exact (runs_masked_iff cfg clock (toNat_lt_of_toInt hlevel.1 hlevel.2)
      (toNat_lt_of_toInt hservice.1 hservice.2)).mpr hshown

/-! ## Datagrams -/

/-- The structure that the daemon makes of a datagram. -/
def received (endian : Endian) (datagram : List UInt8) : LogMessage :=
  LogMessage.ofBytes endian (recvfrom (memset sizeofLogMessage) (some datagram))

/-- An array that the datagram does not fill is filled up with zeros. -/
theorem zero_mem_field_iff {size offset count : Nat} (hfits : offset + count ≤ size)
    (hcount : 0 < count) (datagram : List UInt8) :
    0 ∈ (field (recvfrom (memset size) (some datagram)) offset count hfits).bytes ↔
      datagram.length < offset + count ∨ 0 ∈ (datagram.drop offset).take count := by
  change 0 ∈ (((datagram ++ (List.replicate size 0).drop datagram.length).take size).drop
    offset).take count ↔ _
  rw [List.drop_replicate]
  by_cases hshort : datagram.length < offset + count
  · refine iff_of_true ?_ (.inl hshort)
    have hindex : max offset datagram.length - offset < count := by omega
    have hsize : offset + (max offset datagram.length - offset) < size := by omega
    apply List.mem_of_getElem? (i := max offset datagram.length - offset)
    rw [List.getElem?_take_of_lt hindex, List.getElem?_drop, List.getElem?_take_of_lt hsize]
    rw [List.getElem?_append_right (by omega), List.getElem?_replicate, if_pos (by omega)]
  · rw [or_iff_right hshort, List.drop_take, List.take_take, Nat.min_eq_left (by omega)]
    rw [List.drop_append_of_le_length (by omega), List.take_append_of_le_length]
    rw [List.length_drop]
    omega

/-- What a datagram has to be for the daemon to handle it without a fault. -/
def Harmless (endian : Endian) (cfg : Config) (datagram : List UInt8) : Prop :=
  let m := received endian datagram
  passesFilter (cfg.applicationName.map Subtype.val) m = false ∨ m.type ≠ 0 ∨
    (0 ≤ m.level.toInt ∧ m.level.toInt < 32) ∧ (0 ≤ m.service.toInt ∧ m.service.toInt < 32) ∧
      (Shown cfg m →
        (cfg.prgcfgService = 0xffffffff → m.service.toNat ≤ 8) ∧
          (datagram.length < 44 ∨ 0 ∈ (datagram.drop 12).take 32) ∧
          (datagram.length < 1068 ∨ 0 ∈ (datagram.drop 44).take 1024))

theorem runs_handle_iff {endian : Endian} {cfg : Config}
    (hcfg : cfg.prgcfgService = 0xffffffff ∨ BitsBelow 9 cfg.prgcfgService) (clock : Clock)
    (datagram : List UInt8) :
    Runs (handle cfg clock (received endian datagram)) ↔ Harmless endian cfg datagram := by
  have hpname : 0 ∈ (received endian datagram).pname.bytes ↔ _ :=
    zero_mem_field_iff (Nat.le_of_ble_eq_true rfl) (Nat.succ_pos 31) datagram
  have hmessage : 0 ∈ (received endian datagram).message.bytes ↔ _ :=
    zero_mem_field_iff (Nat.le_refl _) (Nat.succ_pos 1023) datagram
  rw [Harmless, handle]
  by_cases hfilter : passesFilter (cfg.applicationName.map Subtype.val)
      (received endian datagram) = true
  · rw [if_pos hfilter, hfilter, or_iff_right (Bool.noConfusion : ¬true = false)]
    by_cases htype : (received endian datagram).type = 0
    · rw [if_pos htype, or_iff_right (not_not_intro htype), runs_printLog_iff, ← hpname,
        ← hmessage]
      have hindex (hshown : Shown cfg (received endian datagram)) :
          (received endian datagram).service.toNat ≤ 8 ↔
            (cfg.prgcfgService = 0xffffffff → (received endian datagram).service.toNat ≤ 8) := by
        refine ⟨fun hservice _ => hservice, fun hdefault => ?_⟩
        rcases hcfg with hall | hbits
        · exact hdefault hall
        · exact Nat.le_of_lt_succ (hbits _ hshown.2.1)
      refine and_congr_right fun _ => and_congr_right fun _ => forall_congr' fun hshown => ?_
      exact and_congr (hindex hshown) Iff.rfl
    · rw [if_neg htype]
      exact iff_of_true (runs_ok []) (.inl htype)
  · rw [if_neg hfilter]
    exact iff_of_true (runs_ok []) (.inl (Bool.not_eq_true _ ▸ hfilter))

theorem ofBytes_turn (endian : Endian) (lMsg : Buf sizeofLogMessage)
    (datagram : Option (List UInt8)) :
    LogMessage.ofBytes endian (turn lMsg datagram) = received endian (datagram.getD []) := by
  cases datagram with
  | none =>
      have hnothing : recvfrom (memset sizeofLogMessage) (some []) = memset sizeofLogMessage := by
        simp only [recvfrom, Buf.overwrite, memset, Buf.zero, List.length_nil, List.drop_zero, List.nil_append,
          List.take_replicate, Nat.min_self]
      rw [Option.getD_none, received, hnothing]
      rfl
  | some datagram => rfl

theorem runs_serve_iff {endian : Endian} {cfg : Config} {clock : Clock}
    {lMsg : Buf sizeofLogMessage} {datagram : Option (List UInt8)} :
    Runs (serve endian cfg clock lMsg datagram) ↔
      Runs (handle cfg clock (received endian (datagram.getD []))) := by
  rw [serve, ofBytes_turn, runs_bind_iff]
  constructor
  · rintro ⟨written, hwritten, _⟩
    exact ⟨written, hwritten⟩
  · rintro ⟨written, hwritten⟩
    exact ⟨written, hwritten, runs_ok _⟩

/--
With a configuration that `main` takes from its arguments, the daemon handles all
the datagrams it receives exactly if each of them is harmless.
-/
theorem daemon_runs_iff (argv : List Str) (cfg : Config)
    (hconfigure : configure argv = some cfg) (endian : Endian) (lMsg : Buf sizeofLogMessage)
    (datagrams : List (Clock × Option (List UInt8))) :
    Runs (daemon endian cfg lMsg datagrams) ↔
      ∀ datagram ∈ datagrams, Harmless endian cfg (datagram.2.getD []) := by
  have hcfg := service_of_configure hconfigure
  induction datagrams generalizing lMsg with
  | nil => exact iff_of_true (runs_ok []) (List.forall_mem_nil _)
  | cons first rest ih =>
      obtain ⟨clock, datagram⟩ := first
      rw [List.forall_mem_cons, ← runs_handle_iff hcfg clock, ← @runs_serve_iff _ _ _ lMsg,
        daemon, runs_bind_iff]
      constructor
      · rintro ⟨⟨written, lMsg'⟩, hserve, hrest⟩
        obtain ⟨more, hmore, _⟩ := runs_bind_iff.mp hrest
        exact ⟨⟨_, hserve⟩, (ih lMsg').mp ⟨more, hmore⟩⟩
      · rintro ⟨⟨⟨written, lMsg'⟩, hserve⟩, hrest⟩
        obtain ⟨more, hmore⟩ := (ih lMsg').mpr hrest
        exact ⟨(written, lMsg'), hserve, runs_bind_iff.mpr ⟨more, hmore, runs_ok _⟩⟩

/-- `logd` without arguments, and a datagram with a service behind the table. -/
theorem daemon_reads_behind_table :
    configure [⟨ascii "logd", by decide⟩] = some ⟨0xffffffff, 0xffffffff, none⟩ ∧
      ¬Runs (daemon .little ⟨0xffffffff, 0xffffffff, none⟩ (memset sizeofLogMessage)
        [(⟨0, 0, 0⟩, some [0, 0, 0, 0, 31, 0, 0, 0, 0, 0, 0, 0])]) := by
  decide +kernel

/-- `logd -app gtrack L_INFO SVC_GPS`, and a datagram with a service that has no bit. -/
theorem daemon_runs_iff_gtrack :
    Runs (daemon .little ⟨4, 128, some ⟨ascii "gtrack", by decide⟩⟩ (memset sizeofLogMessage)
        [(⟨12, 30, 0⟩, some ([0, 0, 0, 0, 40, 0, 0, 0, 2, 0, 0, 0] ++ ascii "gtrack"))]) ↔
      ∀ datagram ∈ [((⟨12, 30, 0⟩ : Clock),
          some ([0, 0, 0, 0, 40, 0, 0, 0, 2, 0, 0, 0] ++ ascii "gtrack"))],
        Harmless .little ⟨4, 128, some ⟨ascii "gtrack", by decide⟩⟩ (datagram.2.getD []) :=
  daemon_runs_iff [⟨ascii "logd", by decide⟩, ⟨ascii "-app", by decide⟩,
    ⟨ascii "gtrack", by decide⟩, ⟨ascii "L_INFO", by decide⟩, ⟨ascii "SVC_GPS", by decide⟩]
    _ (by decide +kernel) _ _ _

end MdsFormal.Logd.PrintLog
