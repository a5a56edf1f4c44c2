import MdsFormal.Library.CString
import MdsFormal.Library.Faults

/-!
# Reading the configuration

`read_ini` of the monitor.  The numbers and strings of the ini file are written
into arrays of fixed sizes; a reading either fails at the first key that is
missing, or writes outside of an array, or fills in all programs.
-/

namespace MdsFormal.Mon.ReadIni

open MdsFormal.Library.CString
open MdsFormal.Library.Faults

/-! ## The dictionary -/

/-- `dictionary`: the values that are stored for the keys. -/
structure Dictionary where
  int : String → Option Int
  string : String → Option Str

def iniparserGetint (ini : Dictionary) (key : String) (notfound : Int) : Int :=
  (ini.int key).getD notfound

inductive Stop where
  /-- `goto return_fail` -/
  | returnFail
  /-- a write outside of an array -/
  | outside
  deriving DecidableEq

/-- `iniparser_getint` with the default -1, and the test behind it. -/
def getint (ini : Dictionary) (key : String) : Except Stop Int := do
  require (iniparserGetint ini key (-1) ≠ -1) .returnFail
  pure (iniparserGetint ini key (-1))

/-- `iniparser_getstring` with the default `(char*)-1`, and the test behind it. -/
def getstring (ini : Dictionary) (key : String) : Except Stop Str :=
  match ini.string key with
  | none => .error .returnFail
  | some s => .ok s

/-- `sprintf(temp, "program_%d:...", i)`. -/
def programKey (i : Nat) (entry : String) : String := s!"program_{i}:{entry}"

def argKey (i j : Nat) : String := programKey i s!"command_arg_{j}"

/-! ## Strings -/

variable {size : Nat}

/-- `strncpy` of as many bytes as the string has, so without a NUL. -/
def strncpy (array : Buf size) (s : List UInt8) : Except Stop (Buf size) := do
  require (s.length ≤ size) .outside
  pure (array.overwrite s)

/-- `strncat` of as many bytes as the string has, and a NUL. -/
def strncat (array : Buf size) (s : List UInt8) : Except Stop (Buf size) := do
  require (array.str.length + s.length < size) .outside
  pure (array.strcpy (array.str ++ s))

/-- `!strncmp(s, "yes", strlen(s))`. -/
def isYes (s : List UInt8) : Bool := strncmp s.length s (ascii "yes") = 0

/-! ## Reading -/

/-- `PROG_INFO_T`; the two flags are `TRUE` or `FALSE`. -/
structure ProgInfo where
  name : Buf 128
  cmdLine : Buf 256
  deamon : Bool
  chkProcess : Bool
  argv : Vector (Option (List UInt8)) 64
  numThread : Int
  curNumThread : Int

def ProgInfo.zero : ProgInfo := ⟨.zero 128, .zero 256, false, false, .replicate 64 none, 0, 0⟩

/-- `path`, and the slash behind it, in the `cmd_line` of `prog_info[i]`. -/
def readPath (ini : Dictionary) (i : Nat) : Except Stop (Buf 256) := do
  let s ← getstring ini (programKey i "path")
  require (i < 32) .outside
  let cmdLine ← strncpy ProgInfo.zero.cmdLine s.1
  strncat cmdLine (ascii "/")

/-- `name`, in an array of its own and behind the path. -/
def readName (ini : Dictionary) (i : Nat) (cmdLine : Buf 256) :
    Except Stop (Buf 128 × Buf 256) := do
  let s ← getstring ini (programKey i "name")
  let name ← strncpy ProgInfo.zero.name s.1
  let cmdLine ← strncat cmdLine s.1
  pure (name, cmdLine)

/-- One turn of the loop over `command_arg_1`, `command_arg_2`, .. -/
def readArg (ini : Dictionary) (i j : Nat) (argv : Vector (Option (List UInt8)) 64) :
    Except Stop (Vector (Option (List UInt8)) 64) := do
  let s ← getstring ini (argKey i j)
  require (j < 64) .outside
  pure (argv.setIfInBounds j (some s.1))

/-- `command_argc` and the arguments. -/
def readArgv (ini : Dictionary) (i : Nat) (cmdLine : Buf 256) :
    Except Stop (Vector (Option (List UInt8)) 64) := do
  let cmdArgc ← getint ini (programKey i "command_argc")
  loop (readArg ini i) cmdArgc.toNat 1 (ProgInfo.zero.argv.setIfInBounds 0 (some cmdLine.str))

def readFlag (ini : Dictionary) (key : String) : Except Stop Bool := do
  let s ← getstring ini key
  pure (isYes s.1)

/-- One turn of the loop over the programs. -/
def readProgram (ini : Dictionary) (i : Nat) : Except Stop ProgInfo := do
  let cmdLine ← readPath ini i
  let (name, cmdLine) ← readName ini i cmdLine
  let argv ← readArgv ini i cmdLine
  let deamon ← readFlag ini (programKey i "make_deamon")
  let chkProcess ← readFlag ini (programKey i "check_process")
  pure { ProgInfo.zero with
    name := name
    cmdLine := cmdLine
    deamon := deamon
    chkProcess := chkProcess
    argv := argv
    numThread := iniparserGetint ini (programKey i "num_thread") 0 }

def storeProgram (ini : Dictionary) (i : Nat) (progInfo : Vector ProgInfo 32) :
    Except Stop (Vector ProgInfo 32) := do
  let program ← readProgram ini i
  pure (progInfo.setIfInBounds i program)

/-- The globals that `read_ini` fills in. -/
structure Globals where
  progInfo : Vector ProgInfo 32
  prgCnt : Int
  forkRetryCnt : Int
  checkProcessInterval : Int

/-- `read_ini` of a file that is loaded, or cannot be. -/
def readIni (ini : Option Dictionary) : Except Stop Globals :=
  match ini with
  | none => .error .returnFail
  | some ini => do
      let prgCnt ← getint ini "main_info:prg_cnt"
      let forkRetryCnt ← getint ini "main_info:run_retry"
      let checkProcessInterval ← getint ini "main_info:check_process_interval"
      let progInfo ← loop (storeProgram ini) prgCnt.toNat 0 (.replicate 32 .zero)
      pure ⟨progInfo, prgCnt, forkRetryCnt, checkProcessInterval⟩

/-! ## Steps that fail or write outside -/

/-- The reading stops at a key that is missing. -/
def Fails {α : Type} (reading : Except Stop α) : Prop := reading = .error .returnFail

variable {α : Type} {ini : Dictionary}

theorem fails_bind_iff {β : Type} {first : Except Stop α} {next : α → Except Stop β} :
    Fails (first >>= next) ↔ Fails first ∨ ∃ value, first = .ok value ∧ Fails (next value) :=
  bind_eq_error_iff

theorem not_fails_ok (value : α) : ¬Fails (.ok value) := by
  intro hfails
  cases hfails

theorem fails_outside_bind_iff {condition : Prop} [Decidable condition]
    {next : Unit → Except Stop α} :
    Fails (require condition .outside >>= next) ↔ condition ∧ Fails (next ()) := by
  by_cases hcondition : condition
  · rw [require_bind_of_pos hcondition, and_iff_right hcondition]
  · rw [require_bind_of_neg hcondition]
    refine iff_of_false (fun hfails => ?_) (fun hboth => hcondition hboth.1)
    cases hfails

theorem getstring_eq_ok_iff {key : String} {s : Str} :
    getstring ini key = .ok s ↔ ini.string key = some s := by
  rw [getstring]
  cases ini.string key with
  | none =>
      refine iff_of_false (fun hok => ?_) (fun hsome => ?_)
      · cases hok
      · cases hsome
  | some stored =>
      constructor
      · intro hok
        cases hok
        rfl
      · intro hsome
        cases hsome
        rfl

theorem fails_getstring_iff {key : String} :
    Fails (getstring ini key) ↔ ini.string key = none := by
  rw [getstring]
  cases ini.string key with
  | none => exact iff_of_true rfl rfl
  | some stored =>
      refine iff_of_false (not_fails_ok stored) (fun hnone => ?_)
      cases hnone

theorem getint_eq_ok_iff {key : String} {value : Int} :
    getint ini key = .ok value ↔ value ≠ -1 ∧ iniparserGetint ini key (-1) = value := by
  by_cases hfound : iniparserGetint ini key (-1) ≠ -1
  · rw [getint, require_bind_of_pos hfound]
    constructor
    · intro hok
      cases hok
      exact ⟨hfound, rfl⟩
    · rintro ⟨_, rfl⟩
      rfl
  · rw [getint, require_bind_of_neg hfound]
    refine iff_of_false (fun hok => ?_) ?_
    · cases hok
    · rintro ⟨hvalue, rfl⟩
      exact hfound hvalue

theorem fails_getint_iff {key : String} :
    Fails (getint ini key) ↔ iniparserGetint ini key (-1) = -1 := by
  by_cases hfound : iniparserGetint ini key (-1) ≠ -1
  · rw [getint, require_bind_of_pos hfound]
    exact iff_of_false (not_fails_ok _) hfound
  · rw [getint, require_bind_of_neg hfound]
    exact iff_of_true rfl (Decidable.not_not.mp hfound)

theorem strncpy_zero_spec {s : List UInt8} {array : Buf size} (hnul : 0 ∉ s)
    (hok : strncpy (.zero size) s = .ok array) : array.str = s := by
  by_cases hfits : s.length ≤ size
  · rw [strncpy, require_bind_of_pos hfits] at hok
    cases hok
    change ((s ++ (List.replicate size 0).drop s.length).take size).takeWhile (· ≠ 0) = s
    rw [List.drop_replicate, List.take_of_length_le]
    · exact takeWhile_append_zeros hnul _
    · rw [List.length_append, List.length_replicate]
      omega
  · rw [strncpy, require_bind_of_neg hfits] at hok
    cases hok

theorem runs_strncpy_iff (array : Buf size) (s : List UInt8) :
    Runs (strncpy array s) ↔ s.length ≤ size := by
  rw [strncpy, runs_require_bind_iff]
  exact and_iff_left (runs_ok _)

theorem not_fails_strncpy (array : Buf size) (s : List UInt8) : ¬Fails (strncpy array s) := by
  rw [strncpy, fails_outside_bind_iff]
  exact fun hboth => not_fails_ok _ hboth.2

theorem strncat_spec {array array' : Buf size} {s : List UInt8} (hnul : 0 ∉ s)
    (hok : strncat array s = .ok array') : array'.str = array.str ++ s := by
  by_cases hfits : array.str.length + s.length < size
  · rw [strncat, require_bind_of_pos hfits] at hok
    cases hok
    apply str_strcpy
    · rw [List.mem_append]
      exact not_or.mpr ⟨nul_not_mem_str array, hnul⟩
    · rwa [List.length_append]
  · rw [strncat, require_bind_of_neg hfits] at hok
    cases hok

theorem runs_strncat_iff (array : Buf size) (s : List UInt8) :
    Runs (strncat array s) ↔ array.str.length + s.length < size := by
  rw [strncat, runs_require_bind_iff]
  exact and_iff_left (runs_ok _)

theorem not_fails_strncat (array : Buf size) (s : List UInt8) : ¬Fails (strncat array s) := by
  rw [strncat, fails_outside_bind_iff]
  exact fun hboth => not_fails_ok _ hboth.2

/-! ## The parts of a program -/

variable {i : Nat}

theorem nul_not_mem_slash : 0 ∉ ascii "/" := by
  decide

/-- The path and a slash fit `cmd_line`. -/
def PathFits (ini : Dictionary) (i : Nat) : Prop :=
  i < 32 ∧ ∃ path, ini.string (programKey i "path") = some path ∧ path.1.length + 1 < 256

theorem runs_readPath_iff : Runs (readPath ini i) ↔ PathFits ini i := by
  rw [readPath, runs_bind_iff]
  constructor
  · rintro ⟨path, hpath, hrest⟩
    obtain ⟨hi, hrest⟩ := runs_require_bind_iff.mp hrest
    obtain ⟨cmdLine, hcopy, hslash⟩ := runs_bind_iff.mp hrest
    rw [runs_strncat_iff, strncpy_zero_spec path.2 hcopy] at hslash
    exact ⟨hi, path, getstring_eq_ok_iff.mp hpath, hslash⟩
  · rintro ⟨hi, path, hpath, hslash⟩
    obtain ⟨cmdLine, hcopy⟩ := (runs_strncpy_iff ProgInfo.zero.cmdLine path.1).mpr (by omega)
    refine ⟨path, getstring_eq_ok_iff.mpr hpath, ?_⟩
    refine runs_require_bind_iff.mpr ⟨hi, runs_bind_iff.mpr ⟨cmdLine, hcopy, ?_⟩⟩
    rw [runs_strncat_iff, strncpy_zero_spec path.2 hcopy]
    exact hslash

theorem fails_readPath_iff :
    Fails (readPath ini i) ↔ ini.string (programKey i "path") = none := by
  rw [readPath, fails_bind_iff, fails_getstring_iff]
  refine or_iff_left ?_
  rintro ⟨path, _, hrest⟩
  rcases fails_bind_iff.mp (fails_outside_bind_iff.mp hrest).2 with hcopy | ⟨_, _, hslash⟩
  · exact not_fails_strncpy _ _ hcopy
  · exact not_fails_strncat _ _ hslash

theorem readPath_spec {cmdLine : Buf 256} (hok : readPath ini i = .ok cmdLine) :
    ∃ path, ini.string (programKey i "path") = some path ∧
      cmdLine.str = path.1 ++ ascii "/" := by
  obtain ⟨path, hpath, hrest⟩ := bind_eq_ok_iff.mp hok
  have hi : i < 32 := (runs_require_bind_iff.mp ⟨cmdLine, hrest⟩).1
  rw [require_bind_of_pos hi] at hrest
  obtain ⟨copied, hcopy, hslash⟩ := bind_eq_ok_iff.mp hrest
  refine ⟨path, getstring_eq_ok_iff.mp hpath, ?_⟩
  rw [strncat_spec nul_not_mem_slash hslash, strncpy_zero_spec path.2 hcopy]

/-- The name fits `name`, and `cmd_line` behind as many bytes as are used. -/
def NameFits (ini : Dictionary) (i used : Nat) : Prop :=
  ∃ s, ini.string (programKey i "name") = some s ∧ s.1.length ≤ 128 ∧ used + s.1.length < 256

theorem runs_readName_iff (cmdLine : Buf 256) :
    Runs (readName ini i cmdLine) ↔ NameFits ini i cmdLine.str.length := by
  rw [readName, runs_bind_iff]
  constructor
  · rintro ⟨s, hs, hrest⟩
    obtain ⟨name, hname, hrest⟩ := runs_bind_iff.mp hrest
    obtain ⟨cmdLine', happend, _⟩ := runs_bind_iff.mp hrest
    refine ⟨s, getstring_eq_ok_iff.mp hs, (runs_strncpy_iff _ _).mp ⟨name, hname⟩, ?_⟩
    exact (runs_strncat_iff _ _).mp ⟨cmdLine', happend⟩
  · rintro ⟨s, hs, hname, happend⟩
    obtain ⟨name, hname⟩ := (runs_strncpy_iff ProgInfo.zero.name s.1).mpr hname
    obtain ⟨cmdLine', happend⟩ := (runs_strncat_iff cmdLine s.1).mpr happend
    refine ⟨s, getstring_eq_ok_iff.mpr hs, runs_bind_iff.mpr ⟨name, hname, ?_⟩⟩
    exact runs_bind_iff.mpr ⟨cmdLine', happend, runs_ok _⟩

theorem fails_readName_iff (cmdLine : Buf 256) :
    Fails (readName ini i cmdLine) ↔ ini.string (programKey i "name") = none := by
  rw [readName, fails_bind_iff, fails_getstring_iff]
  refine or_iff_left ?_
  rintro ⟨s, _, hrest⟩
  rcases fails_bind_iff.mp hrest with hname | ⟨name, _, hrest⟩
  · exact not_fails_strncpy _ _ hname
  · rcases fails_bind_iff.mp hrest with happend | ⟨cmdLine', _, hrest⟩
    · exact not_fails_strncat _ _ happend
    · exact not_fails_ok _ hrest

theorem readName_spec {cmdLine cmdLine' : Buf 256} {name : Buf 128}
    (hok : readName ini i cmdLine = .ok (name, cmdLine')) :
    ∃ s, ini.string (programKey i "name") = some s ∧ cmdLine'.str = cmdLine.str ++ s.1 := by
  obtain ⟨s, hs, hrest⟩ := bind_eq_ok_iff.mp hok
  obtain ⟨_, _, hrest⟩ := bind_eq_ok_iff.mp hrest
  obtain ⟨_, happend, hrest⟩ := bind_eq_ok_iff.mp hrest
  cases hrest
  exact ⟨s, getstring_eq_ok_iff.mp hs, strncat_spec s.2 happend⟩

/-- The argument is there, and there is an entry for it. -/
def ArgFits (ini : Dictionary) (i j : Nat) : Prop :=
  (∃ s, ini.string (argKey i j) = some s) ∧ j < 64

theorem runs_readArg_iff (j : Nat) (argv : Vector (Option (List UInt8)) 64) :
    Runs (readArg ini i j argv) ↔ ArgFits ini i j := by
  rw [readArg, runs_bind_iff]
  constructor
  · rintro ⟨s, hs, hrest⟩
    exact ⟨⟨s, getstring_eq_ok_iff.mp hs⟩, (runs_require_bind_iff.mp hrest).1⟩
  · rintro ⟨⟨s, hs⟩, hj⟩
    exact ⟨s, getstring_eq_ok_iff.mpr hs, runs_require_bind_iff.mpr ⟨hj, runs_ok _⟩⟩

theorem fails_readArg_iff (j : Nat) (argv : Vector (Option (List UInt8)) 64) :
    Fails (readArg ini i j argv) ↔ ini.string (argKey i j) = none := by
  rw [readArg, fails_bind_iff, fails_getstring_iff]
  refine or_iff_left ?_
  rintro ⟨s, _, hrest⟩
  exact not_fails_ok _ (fails_outside_bind_iff.mp hrest).2

/-- The array of the arguments, filled up to `k`. -/
structure ArgvUpTo (ini : Dictionary) (i : Nat) (cmdLine : List UInt8) (k : Nat)
    (argv : Vector (Option (List UInt8)) 64) : Prop where
  zero : argv[0]? = some (some cmdLine)
  filled : ∀ j, 1 ≤ j → j < k →
    ∃ s, ini.string (argKey i j) = some s ∧ argv[j]? = some (some s.1)
  empty : ∀ j, k ≤ j → j < 64 → argv[j]? = some none

theorem argvUpTo_one (ini : Dictionary) (i : Nat) (cmdLine : List UInt8) :
    ArgvUpTo ini i cmdLine 1 (ProgInfo.zero.argv.setIfInBounds 0 (some cmdLine)) where
  zero := Vector.getElem?_setIfInBounds_self_of_lt (Nat.zero_lt_of_lt (Nat.lt_succ_self 63))
  filled j hlow hhigh := by omega
  empty j hlow hhigh := by
    rw [Vector.getElem?_setIfInBounds_ne (by omega), Vector.getElem?_eq_getElem hhigh]
    exact congrArg some (Vector.getElem_replicate hhigh)

theorem argvUpTo_succ {cmdLine : List UInt8} {k : Nat} (hk : 1 ≤ k)
    {argv argv' : Vector (Option (List UInt8)) 64} (hargv : ArgvUpTo ini i cmdLine k argv)
    (hok : readArg ini i k argv = .ok argv') : ArgvUpTo ini i cmdLine (k + 1) argv' := by
  obtain ⟨s, hs, hrest⟩ := bind_eq_ok_iff.mp hok
  have hentry : k < 64 := (runs_require_bind_iff.mp ⟨argv', hrest⟩).1
  rw [require_bind_of_pos hentry] at hrest
  cases hrest
  refine ⟨?_, fun j hlow hhigh => ?_, fun j hlow hhigh => ?_⟩
  · rw [Vector.getElem?_setIfInBounds_ne (by omega)]
    exact hargv.zero
  · rcases Nat.lt_or_eq_of_le (Nat.le_of_lt_succ hhigh) with hbefore | rfl
    · rw [Vector.getElem?_setIfInBounds_ne (by omega)]
      exact hargv.filled j hlow hbefore
    · exact ⟨s, getstring_eq_ok_iff.mp hs, Vector.getElem?_setIfInBounds_self_of_lt hentry⟩
  · rw [Vector.getElem?_setIfInBounds_ne (by omega)]
    exact hargv.empty j (by omega) hhigh

/-- `command_argc`, with the default -1. -/
def cmdArgc (ini : Dictionary) (i : Nat) : Int :=
  iniparserGetint ini (programKey i "command_argc") (-1)

def ArgsFit (ini : Dictionary) (i : Nat) : Prop :=
  cmdArgc ini i ≠ -1 ∧ ∀ j, 1 ≤ j → j < 1 + (cmdArgc ini i).toNat → ArgFits ini i j

def ArgsMissing (ini : Dictionary) (i : Nat) : Prop :=
  cmdArgc ini i = -1 ∨ ∃ j, 1 ≤ j ∧ j < 1 + (cmdArgc ini i).toNat ∧
    ini.string (argKey i j) = none ∧ ∀ j', 1 ≤ j' → j' < j → ArgFits ini i j'

theorem runs_readArgv_iff (cmdLine : Buf 256) :
    Runs (readArgv ini i cmdLine) ↔ ArgsFit ini i := by
  rw [readArgv, runs_bind_iff]
  constructor
  · rintro ⟨argc, hargc, hrest⟩
    obtain ⟨hfound, rfl⟩ := getint_eq_ok_iff.mp hargc
    exact ⟨hfound, (runs_loop_iff runs_readArg_iff _ _ _).mp hrest⟩
  · rintro ⟨hfound, hargs⟩
    refine ⟨cmdArgc ini i, getint_eq_ok_iff.mpr ⟨hfound, rfl⟩, ?_⟩
    exact (runs_loop_iff runs_readArg_iff _ _ _).mpr hargs

theorem fails_readArgv_iff (cmdLine : Buf 256) :
    Fails (readArgv ini i cmdLine) ↔ ArgsMissing ini i := by
  rw [readArgv, fails_bind_iff, fails_getint_iff]
  change (cmdArgc ini i = -1 ∨ _) ↔ _
  have hloop (argc : Nat) (argv : Vector (Option (List UInt8)) 64) :=
    loop_eq_error_iff runs_readArg_iff (@fails_readArg_iff ini i) argc 1 argv
  by_cases hfound : cmdArgc ini i = -1
  · exact iff_of_true (.inl hfound) (.inl hfound)
  · rw [ArgsMissing, or_iff_right hfound, or_iff_right hfound, ← hloop]
    constructor
    · rintro ⟨argc, hargc, hrest⟩
      obtain ⟨_, rfl⟩ := getint_eq_ok_iff.mp hargc
      exact hrest
    · intro hrest
      exact ⟨cmdArgc ini i, getint_eq_ok_iff.mpr ⟨hfound, rfl⟩, hrest⟩

theorem readArgv_spec {cmdLine : Buf 256} {argv : Vector (Option (List UInt8)) 64}
    (hok : readArgv ini i cmdLine = .ok argv) :
    ArgvUpTo ini i cmdLine.str (1 + (cmdArgc ini i).toNat) argv := by
  obtain ⟨argc, hargc, hrest⟩ := bind_eq_ok_iff.mp hok
  obtain ⟨_, rfl⟩ := getint_eq_ok_iff.mp hargc
  refine loop_invariant (fun k s s' hlow _ => ?_) (argvUpTo_one ini i cmdLine.str) hrest
  exact argvUpTo_succ hlow

theorem isYes_iff {s : List UInt8} (hnul : 0 ∉ s) : isYes s = true ↔ s <+: ascii "yes" := by
  rw [isYes, decide_eq_true_iff, strncmp_eq_zero_iff, takeWhile_of_not_mem hnul,
    List.take_length, List.prefix_iff_eq_take]
  rfl

theorem runs_readFlag_iff (key : String) :
    Runs (readFlag ini key) ↔ ∃ s, ini.string key = some s := by
  rw [readFlag, runs_bind_iff]
  constructor
  · rintro ⟨s, hs, _⟩
    exact ⟨s, getstring_eq_ok_iff.mp hs⟩
  · rintro ⟨s, hs⟩
    exact ⟨s, getstring_eq_ok_iff.mpr hs, runs_ok _⟩

theorem fails_readFlag_iff (key : String) :
    Fails (readFlag ini key) ↔ ini.string key = none := by
  rw [readFlag, fails_bind_iff, fails_getstring_iff]
  refine or_iff_left ?_
  rintro ⟨s, _, hrest⟩
  exact not_fails_ok _ hrest

theorem readFlag_spec {key : String} {flag : Bool} (hok : readFlag ini key = .ok flag) :
    ∃ s, ini.string key = some s ∧ (flag = true ↔ s.1 <+: ascii "yes") := by
  obtain ⟨s, hs, hrest⟩ := bind_eq_ok_iff.mp hok
  cases hrest
  exact ⟨s, getstring_eq_ok_iff.mp hs, isYes_iff s.2⟩

end MdsFormal.Mon.ReadIni
