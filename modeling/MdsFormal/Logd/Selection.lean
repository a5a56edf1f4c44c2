import MdsFormal.Logd.PrintLog

/-!
# What is printed of the messages that are logged

Any number of processes log, and the daemon receives their datagrams one after the other.
It prints those that its arguments select, each as one line, in the order in which they
arrive.  A `recvfrom` that fails is printed like an empty message.
-/

namespace MdsFormal.Logd.Selection

open MdsFormal.Library.CString
open MdsFormal.Library.Faults
open MdsFormal.Logd.Message
open MdsFormal.Logd.PrintLog
open MdsFormal.Storage.Crc16 (Endian)

/-! ## Levels and services -/

/-- `eDebug` to `eTrace`. -/
inductive Level where
  | debug
  | warning
  | info
  | error
  | trace
  deriving DecidableEq

/-- `eSVC_COMMON` to `eSVC_UPDATE`. -/
inductive Service where
  | common
  | base
  | atCommand
  | model
  | network
  | regi
  | mileage
  | gps
  | update
  deriving DecidableEq

namespace Level

def all : List Level := [debug, warning, info, error, trace]

def code : Level → Nat
  | debug => 0
  | warning => 1
  | info => 2
  | error => 3
  | trace => 4

def cmd : Level → String
  | debug => "L_DBUG"
  | warning => "L_WARN"
  | info => "L_INFO"
  | error => "L_ERR"
  | trace => "L_TRACE"

def color : Level → String
  | debug => "\x1b[1;30m"
  | warning => "\x1b[0;40;33m"
  | info => "\x1b[1;32m"
  | error => "\x1b[1;31m"
  | trace => "\x1b[1;36m"

def letter : Level → String
  | debug => " D "
  | warning => " W "
  | info => " I "
  | error => " E "
  | trace => " T "

end Level

namespace Service

def all : List Service :=
  [common, base, atCommand, model, network, regi, mileage, gps, update]

def code : Service → Nat
  | common => 0
  | base => 1
  | atCommand => 2
  | model => 3
  | network => 4
  | regi => 5
  | mileage => 6
  | gps => 7
  | update => 8

def cmd : Service → String
  | common => "SVC_COMMON"
  | base => "SVC_BASE"
  | atCommand => "SVC_AT"
  | model => "SVC_MODEL"
  | network => "SVC_NETWORK"
  | regi => "SVC_REGI"
  | mileage => "SVC_MILEAGE"
  | gps => "SVC_GPS"
  | update => "SVC_UPDATE"

def print : Service → String
  | common => "COMMON"
  | base => "BASE"
  | atCommand => "AT"
  | model => "MODEL"
  | network => "NETWORK"
  | regi => "REGI"
  | mileage => "MILEAGE"
  | gps => "GPS"
  | update => "UPDATE"

end Service

/-! ## What is selected -/

/-- An argument starts with a command of the tables. -/
def Enables (argv : List Str) (cmd : String) : Prop := ∃ argument ∈ argv, ascii cmd <+: argument.1

instance decidableEnables (argv : List Str) (cmd : String) : Decidable (Enables argv cmd) :=
  inferInstanceAs (Decidable (∃ argument ∈ argv, ascii cmd <+: argument.1))

/-- Without an argument for a level all of them are printed. -/
def SelectsLevel (argv : List Str) (level : Level) : Prop :=
  Enables argv level.cmd ∨ ∀ other ∈ Level.all, ¬Enables argv other.cmd

def SelectsService (argv : List Str) (service : Service) : Prop :=
  Enables argv service.cmd ∨ ∀ other ∈ Service.all, ¬Enables argv other.cmd

/-- The name behind the last `-app`. -/
def application : List Str → Option Str
  | [] => none
  | argument :: rest =>
      match application rest with
      | some name => some name
      | none => if argument.1 = ascii "-app" then rest.head? else none

/-- A message as it is printed. -/
structure Entry where
  name : List UInt8
  level : Level
  service : Service
  text : List UInt8

def Selects (argv : List Str) (entry : Entry) : Prop :=
  SelectsLevel argv entry.level ∧ SelectsService argv entry.service ∧
    ∀ name ∈ application argv, entry.name = name.1

instance decidableSelects (argv : List Str) (entry : Entry) : Decidable (Selects argv entry) :=
  inferInstanceAs (Decidable ((_ ∨ ∀ other ∈ Level.all, ¬Enables argv other.cmd) ∧
    (_ ∨ ∀ other ∈ Service.all, ¬Enables argv other.cmd) ∧ ∀ name ∈ application argv, _ = name.1))

def Entry.line (clock : Clock) (entry : Entry) : List UInt8 :=
  ascii entry.level.color ++ clock.text ++ entry.name ++ ascii entry.level.letter ++
    ascii entry.service.print ++ ascii " " ++ entry.text ++ ascii "\x1b[0m"

/-! ## What arrives -/

/-- What one `recvfrom` of the daemon gives. -/
inductive Arrival where
  | logged (pname : Option ProcessName) (service : Service) (level : Level) (tmp : LogText)
  | failed

/-- The datagram: what `logd` sends for the call. -/
def Arrival.datagram (endian : Endian) : Arrival → Option (List UInt8)
  | logged pname service level tmp =>
      logd endian pname true (BitVec.ofNat 32 service.code) (BitVec.ofNat 32 level.code) tmp
  | failed => none

/-- What there is to print. -/
def Arrival.entry : Arrival → Entry
  | logged pname service level tmp => ⟨(pname.getD noName).1, level, service, tmp.1⟩
  | failed => ⟨[], .debug, .common, []⟩

/-! ## The masks -/

section

variable {argument : Str} {table : List CmdSet} {mask : BitVec 32} {bit : Nat} {argv : List Str}

theorem strncmp_cmd {cmd : List UInt8} (hcmd : 0 ∉ cmd) (argument : Str) :
    strncmp cmd.length argument.1 cmd = 0 ↔ cmd <+: argument.1 := by
  rw [strncmp_eq_zero_iff, takeWhile_of_not_mem argument.2, takeWhile_of_not_mem hcmd,
    List.take_length, List.prefix_iff_eq_take]
  exact eq_comm

theorem getLsbD_or_bit {index : Nat} (hindex : index < 32) :
    (mask ||| 1#32 <<< index).getLsbD bit = true ↔ mask.getLsbD bit = true ∨ index = bit := by
  rw [BitVec.getLsbD_or, ← BitVec.twoPow_eq, BitVec.getLsbD_twoPow, Bool.or_eq_true,
    Bool.and_eq_true, decide_eq_true_iff, decide_eq_true_iff, and_iff_right hindex]

/-- The commands of a table, up to its end, with their bits. -/
def commands : List CmdSet → List (String × Nat)
  | [] => []
  | entry :: rest =>
      match entry.cmd with
      | none => []
      | some cmd => (cmd, entry.index) :: commands rest

/-- An argument adds the bits of the commands that it starts with. -/
theorem getLsbD_enable
    (htable : ∀ command ∈ commands table, 0 ∉ ascii command.1 ∧ command.2 < 32) :
    (enable argument table mask).getLsbD bit = true ↔
      mask.getLsbD bit = true ∨
        ∃ command ∈ commands table, ascii command.1 <+: argument.1 ∧ command.2 = bit := by
  induction table generalizing mask with
  | nil => simp [enable, commands]
  | cons entry rest ih =>
      obtain ⟨index, cmd, print⟩ := entry
      cases cmd with
      | none => simp [enable, commands]
      | some cmd =>
          obtain ⟨⟨hcmd, hindex⟩, hrest⟩ := List.forall_mem_cons.mp htable
          have hmore : ∀ mask : BitVec 32, (enable argument rest mask).getLsbD bit = true ↔ _ :=
            fun mask => ih hrest
          have hstart : strncmp (ascii cmd).length argument.1 (ascii cmd) = 0 ↔
              ascii cmd <+: argument.1 := strncmp_cmd hcmd argument
          simp only [enable, commands, List.mem_cons, or_and_right, exists_or, exists_eq_left]
          split
          · next hzero =>
              rw [hmore, getLsbD_or_bit hindex, or_assoc, and_iff_right (hstart.mp hzero)]
          · next hother =>
              have hnone : ¬(ascii cmd <+: argument.1 ∧ index = bit) := fun hboth =>
                hother (hstart.mpr hboth.1)
              rw [hmore, or_iff_right hnone]

/-- All the arguments together. -/
theorem getLsbD_foldl_enable
    (htable : ∀ command ∈ commands table, 0 ∉ ascii command.1 ∧ command.2 < 32) :
    (argv.foldl (fun mask argument => enable argument table mask) mask).getLsbD bit = true ↔
      mask.getLsbD bit = true ∨
        ∃ command ∈ commands table, Enables argv command.1 ∧ command.2 = bit := by
  induction argv generalizing mask with
  | nil => simp [Enables]
  | cons argument rest ih =>
      rw [List.foldl_cons, ih, getLsbD_enable htable, or_assoc]
      refine or_congr_right ?_
      simp only [Enables, List.mem_cons, or_and_right, exists_or, exists_eq_left, and_or_left]

/-- The first loop leaves the name behind the last `-app`, and the mask of all arguments. -/
theorem levelArguments_eq {name name' : Option Str} {mask' : BitVec 32}
    (hloop : levelArguments argv name mask = some (name', mask')) :
    name' = (application argv).or name ∧
      mask' = argv.foldl (fun mask argument => enable argument levelCmdSet mask) mask := by
  induction argv generalizing name mask with
  | nil =>
      cases hloop
      exact ⟨rfl, rfl⟩
  | cons argument rest ih =>
      rw [levelArguments] at hloop
      rw [application, List.foldl_cons]
      split at hloop
      · next happ =>
          cases hnext : rest.head? with
          | none =>
              rw [hnext] at hloop
              cases hloop
          | some next =>
              rw [hnext] at hloop
              obtain ⟨hname, hmask⟩ := ih hloop
              rw [if_pos happ]
              refine ⟨?_, hmask⟩
              rw [hname]
              cases application rest <;> rfl
      · next hother =>
          obtain ⟨hname, hmask⟩ := ih hloop
          rw [if_neg hother]
          refine ⟨?_, hmask⟩
          rw [hname]
          cases application rest <;> rfl

/-- The commands of a table are those of an enumeration. -/
structure Lists {ι : Type} (table : List CmdSet) (all : List ι) (cmd : ι → String)
    (code : ι → Nat) : Prop where
  commands_eq : commands table = all.map fun i => (cmd i, code i)
  mem_all : ∀ i, i ∈ all
  code_inj : ∀ i j, code i = code j → i = j
  code_lt : ∀ i, code i < 32
  no_nul : ∀ i, 0 ∉ ascii (cmd i)

theorem lists_level : Lists levelCmdSet Level.all Level.cmd Level.code where
  commands_eq := rfl
  mem_all i := by cases i <;> decide
  code_inj i j := by cases i <;> cases j <;> decide
  code_lt i := by cases i <;> decide
  no_nul i := by cases i <;> decide

theorem lists_service : Lists svcCmdSet Service.all Service.cmd Service.code where
  commands_eq := rfl
  mem_all i := by cases i <;> decide
  code_inj i j := by cases i <;> cases j <;> decide
  code_lt i := by cases i <;> decide
  no_nul i := by cases i <;> decide

variable {ι : Type} {all : List ι} {cmd : ι → String} {code : ι → Nat}

theorem Lists.getLsbD_arguments (hlists : Lists table all cmd code) :
    (argv.foldl (fun mask argument => enable argument table mask) 0).getLsbD bit = true ↔
      ∃ i, Enables argv (cmd i) ∧ code i = bit := by
  have htable : ∀ command ∈ commands table, 0 ∉ ascii command.1 ∧ command.2 < 32 := by
    rw [hlists.commands_eq, List.forall_mem_map]
    exact fun i _ => ⟨hlists.no_nul i, hlists.code_lt i⟩
  rw [getLsbD_foldl_enable htable, hlists.commands_eq, BitVec.ofNat_eq_ofNat, BitVec.getLsbD_zero,
    or_iff_right (Bool.noConfusion : ¬false = true)]
  constructor
  · rintro ⟨command, hcommand, hbit⟩
    obtain ⟨i, -, rfl⟩ := List.mem_map.mp hcommand
    exact ⟨i, hbit⟩
  · rintro ⟨i, hbit⟩
    exact ⟨_, List.mem_map_of_mem (hlists.mem_all i), hbit⟩

/-- The mask has the bit of what is selected. -/
theorem Lists.getLsbD_orAll (hlists : Lists table all cmd code) (i : ι) :
    (orAll (argv.foldl (fun mask argument => enable argument table mask) 0)).getLsbD (code i) =
        true ↔
      Enables argv (cmd i) ∨ ∀ other ∈ all, ¬Enables argv (cmd other) := by
  rw [orAll]
  split
  · next hzero =>
      refine iff_of_true ?_ (.inr fun other _ henables => ?_)
      · have hcode := hlists.code_lt i
        generalize code i = bit at hcode
        revert bit
        decide
      · have hbit := (@Lists.getLsbD_arguments _ _ argv _ _ _ _ hlists).mpr ⟨other, henables, rfl⟩
        rw [hzero, BitVec.ofNat_eq_ofNat, BitVec.getLsbD_zero] at hbit
        cases hbit
  · next hsome =>
      have hown : (∃ j, Enables argv (cmd j) ∧ code j = code i) ↔ Enables argv (cmd i) := by
        constructor
        · rintro ⟨j, henables, hcode⟩
          rwa [← hlists.code_inj j i hcode]
        · intro henables
          exact ⟨i, henables, rfl⟩
      rw [hlists.getLsbD_arguments, hown, or_iff_left]
      intro hnone
      refine hsome (BitVec.eq_of_getLsbD_eq fun bit _ => ?_)
      rw [BitVec.ofNat_eq_ofNat, BitVec.getLsbD_zero, Bool.eq_false_iff]
      intro hbit
      obtain ⟨j, henables, -⟩ := hlists.getLsbD_arguments.mp hbit
      exact hnone j (hlists.mem_all j) henables

end

/-! ## One arrival -/

/-- A structure of the daemon that holds a message to print. -/
structure Shows (m : LogMessage) (entry : Entry) : Prop where
  type_eq : m.type = 0
  level_eq : m.level = BitVec.ofNat 32 entry.level.code
  service_eq : m.service = BitVec.ofNat 32 entry.service.code
  pname_str : m.pname.str = entry.name
  pname_ends : 0 ∈ m.pname.bytes
  name_fits : entry.name.length < 32
  message_str : m.message.str = entry.text
  message_ends : 0 ∈ m.message.bytes

section

variable {endian : Endian} {argv : List Str} {cfg : Config} {clock : Clock} {m : LogMessage}
  {entry : Entry}

theorem zero_mem_strcpy {size : Nat} {source : List UInt8} (hfits : source.length < size) :
    0 ∈ ((Buf.zero size).strcpy source).bytes := by
  rw [bytes_strcpy_zero hfits]
  refine List.mem_append_right _ (List.mem_replicate.mpr ⟨?_, rfl⟩)
  omega

theorem shows_logMessage (pname : Option ProcessName) (service : Service) (level : Level)
    (tmp : LogText) :
    Shows (logMessage pname (BitVec.ofNat 32 service.code) (BitVec.ofNat 32 level.code) tmp)
      ⟨(pname.getD noName).1, level, service, tmp.1⟩ where
  type_eq := rfl
  level_eq := rfl
  service_eq := rfl
  pname_str := str_pname pname _ _ tmp
  pname_ends := zero_mem_strcpy (Nat.lt_succ_of_le (pname.getD noName).2.2)
  name_fits := Nat.lt_succ_of_le (pname.getD noName).2.2
  message_str := str_message pname _ _ tmp
  message_ends := zero_mem_message pname _ _ tmp

theorem memory_zero (endian : Endian) :
    LogMessage.zero.memory endian = memset sizeofLogMessage := by
  have hint : storeInt endian 0 = List.replicate 4 0 := by cases endian <;> decide
  have hbytes : LogMessage.zero.bytes endian = List.replicate sizeofLogMessage 0 := by
    simp only [LogMessage.bytes, LogMessage.zero, hint, Buf.zero, List.replicate_append_replicate]
    rfl
  unfold LogMessage.memory memset Buf.zero
  simp only [hbytes]

theorem shows_zero : Shows LogMessage.zero ⟨[], .debug, .common, []⟩ where
  type_eq := rfl
  level_eq := rfl
  service_eq := rfl
  pname_str := rfl
  pname_ends := List.mem_cons_self
  name_fits := Nat.succ_pos 31
  message_str := rfl
  message_ends := List.mem_cons_self

/-- Whatever was received before, the structure holds what arrived. -/
theorem shows_turn (endian : Endian) (lMsg : Buf sizeofLogMessage) (arrival : Arrival) :
    Shows (LogMessage.ofBytes endian (turn lMsg (arrival.datagram endian))) arrival.entry := by
  cases arrival with
  | logged pname service level tmp =>
      have hheld := held_logd endian lMsg [] pname (BitVec.ofNat 32 service.code)
        (BitVec.ofNat 32 level.code) tmp
      change turn lMsg (Arrival.datagram endian (.logged pname service level tmp)) = _ at hheld
      rw [hheld, ofBytes_memory]
      exact shows_logMessage pname service level tmp
  | failed =>
      change Shows (LogMessage.ofBytes endian (memset sizeofLogMessage)) _
      rw [← memory_zero endian, ofBytes_memory]
      exact shows_zero

theorem Shows.line (hshows : Shows m entry) (color letter : String) :
    PrintLog.line clock m color letter =
      .ok (ascii color ++ clock.text ++ entry.name ++ ascii letter ++ ascii entry.service.print ++
        ascii " " ++ entry.text ++ ascii "\x1b[0m") := by
  have hpname : printed m.pname = .ok entry.name := by
    rw [printed, require_bind_of_pos hshows.pname_ends, hshows.pname_str]
    rfl
  have hmessage : printed m.message = .ok entry.text := by
    rw [printed, require_bind_of_pos hshows.message_ends, hshows.message_str]
    rfl
  have hsvc : svcPrint m.service = .ok (ascii entry.service.print) := by
    rw [hshows.service_eq]
    cases entry.service <;> rfl
  rw [PrintLog.line, bind_of_eq_ok hpname, bind_of_eq_ok hsvc, bind_of_eq_ok hmessage]
  rfl

theorem Shows.switchLevel (hshows : Shows m entry) :
    PrintLog.switchLevel clock m = .ok (entry.line clock) := by
  have hcode : m.level.toNat = entry.level.code := by
    rw [hshows.level_eq]
    cases entry.level <;> rfl
  unfold PrintLog.switchLevel Entry.line
  rw [hcode]
  cases entry.level <;> exact hshows.line _ _

/-- What `main` takes from its arguments. -/
structure Configured (argv : List Str) (cfg : Config) : Prop where
  level : ∀ level : Level,
    cfg.prgcfgLevel.getLsbD level.code = true ↔ SelectsLevel argv level
  service : ∀ service : Service,
    cfg.prgcfgService.getLsbD service.code = true ↔ SelectsService argv service
  name : cfg.applicationName = application argv

theorem configured (hconfigure : configure argv = some cfg) : Configured argv cfg := by
  rw [configure] at hconfigure
  split at hconfigure
  · cases hconfigure
  · split at hconfigure
    · cases hconfigure
    · next name level hloop =>
        cases hconfigure
        obtain ⟨hname, rfl⟩ := levelArguments_eq hloop
        refine ⟨lists_level.getLsbD_orAll, lists_service.getLsbD_orAll, ?_⟩
        exact hname.trans (Option.or_none)

theorem Shows.passesFilter (hshows : Shows m entry) (hcfg : Configured argv cfg) :
    Message.passesFilter (cfg.applicationName.map Subtype.val) m = true ↔
      ∀ name ∈ application argv, entry.name = name.1 := by
  rw [hcfg.name]
  cases application argv with
  | none => exact iff_of_true rfl fun name hname => nomatch hname
  | some name =>
      have hfits : m.pname.str.length < 32 := hshows.pname_str.symm ▸ hshows.name_fits
      rw [Option.map_some, passesFilter_iff hfits name.2, hshows.pname_str]
      constructor
      · rintro hsame other ⟨⟩
        exact hsame
      · intro hall
        exact hall name rfl

theorem Shows.shiftLevel (hshows : Shows m entry) :
    shiftOne m.level = .ok (1#32 <<< entry.level.code) := by
  rw [hshows.level_eq]
  cases entry.level <;> rfl

theorem Shows.shiftService (hshows : Shows m entry) :
    shiftOne m.service = .ok (1#32 <<< entry.service.code) := by
  rw [hshows.service_eq]
  cases entry.service <;> rfl

/-- The structure passes the filter and both masks exactly when the arguments select it. -/
theorem Shows.handle (hshows : Shows m entry) (hcfg : Configured argv cfg) :
    PrintLog.handle cfg clock m = .ok (if Selects argv entry then entry.line clock else []) := by
  have hlevel := one_shiftLeft_and_ne_zero_iff cfg.prgcfgLevel (lists_level.code_lt entry.level)
  have hservice :=
    one_shiftLeft_and_ne_zero_iff cfg.prgcfgService (lists_service.code_lt entry.service)
  rw [hcfg.level] at hlevel
  rw [hcfg.service] at hservice
  have hfilter := hshows.passesFilter hcfg
  rw [PrintLog.handle, if_pos hshows.type_eq]
  by_cases hname : ∀ name ∈ application argv, entry.name = name.1
  · rw [if_pos (hfilter.mpr hname), printLog, bind_of_eq_ok hshows.shiftLevel,
      bind_of_eq_ok hshows.shiftService, hshows.switchLevel]
    by_cases hselects : Selects argv entry
    · rw [if_pos hselects]
      exact if_pos ⟨hlevel.mpr hselects.1, hservice.mpr hselects.2.1⟩
    · rw [if_neg hselects]
      exact if_neg fun hbits => hselects ⟨hlevel.mp hbits.1, hservice.mp hbits.2, hname⟩
  · rw [if_neg fun hpass => hname (hfilter.mp hpass),
      if_neg fun hselects : Selects argv entry => hname hselects.2.2]
    rfl

end

/-! ## A whole run -/

/--
For all arguments, the daemon prints of what arrives exactly the messages they select: each
as its line, in the order of their arrival and with the time of it.
-/
theorem daemon_prints (argv : List Str) (cfg : Config) (hconfigure : configure argv = some cfg)
    (endian : Endian) (lMsg : Buf sizeofLogMessage) (arrivals : List (Clock × Arrival)) :
    daemon endian cfg lMsg (arrivals.map fun arrival => (arrival.1, arrival.2.datagram endian)) =
      .ok ((arrivals.filter fun arrival => Selects argv arrival.2.entry).flatMap fun arrival =>
        arrival.2.entry.line arrival.1) := by
  induction arrivals generalizing lMsg with
  | nil => rfl
  | cons first rest ih =>
      obtain ⟨clock, arrival⟩ := first
      have hhandle :
          handle cfg clock (LogMessage.ofBytes endian (turn lMsg (arrival.datagram endian))) = _ :=
        (shows_turn endian lMsg arrival).handle (configured hconfigure)
      have hserve : serve endian cfg clock lMsg (arrival.datagram endian) =
          .ok (_, turn lMsg (arrival.datagram endian)) := bind_of_eq_ok hhandle
      rw [List.map_cons, daemon, bind_of_eq_ok hserve]
      dsimp only
      rw [bind_of_eq_ok (ih _), List.filter_cons]
      by_cases hselects : Selects argv arrival.entry
      · rw [if_pos hselects, if_pos (decide_eq_true hselects), List.flatMap_cons]
        rfl
      · rw [if_neg hselects, if_neg (by rwa [decide_eq_true_iff]), List.nil_append]
        rfl

/-- `logd -app gtrack L_INFO`, which prints one of two messages. -/
theorem daemon_prints_gtrack :
    daemon .little ⟨4, 0xffffffff, some ⟨ascii "gtrack", by decide⟩⟩ (memset sizeofLogMessage)
        ([((⟨12, 30, 0⟩ : Clock), Arrival.logged (some ⟨ascii "gtrack", by decide⟩) .gps .info
            ⟨ascii "fixed", by decide⟩),
          (⟨12, 30, 1⟩, .logged none .gps .info ⟨ascii "lost", by decide⟩)].map
          fun arrival => (arrival.1, arrival.2.datagram .little)) =
      .ok (Entry.line ⟨12, 30, 0⟩ ⟨ascii "gtrack", .info, .gps, ascii "fixed"⟩) := by
  rw [daemon_prints [⟨ascii "logd", by decide⟩, ⟨ascii "-app", by decide⟩,
    ⟨ascii "gtrack", by decide⟩, ⟨ascii "L_INFO", by decide⟩] _ (by decide +kernel)]
  refine congrArg Except.ok ?_
  decide +kernel

end MdsFormal.Logd.Selection
