import MdsFormal.Library.InPlace
import MdsFormal.Library.Retries
import MdsFormal.Mon.ReadIni
import MdsFormal.Process.SystemFork

/-!
# How the monitor comes to its service

`main` of the monitor forks until a fork succeeds, and `start_service` reads the
configuration up to three times.  A reading works on the globals and leaves what it has
written when it fails.  The monitor still serves what its first successful reading says, as
if there had been no other.
-/

namespace MdsFormal.Mon.StartService

open Library.CString Library.Faults Library.InPlace Library.Retries
open Process.SystemFork ReadIni

/-! ## Reading in place -/

abbrev Reading := Writing Stop Globals

/-- Write into `prog_info[i]`. -/
def store (i : Nat) (write : ProgInfo → Except Stop ProgInfo) : Reading Unit := do
  of (require (i < 32) .outside)
  let globals ← get
  let prog ← of (write (globals.progInfo[i]?.getD .zero))
  set { globals with progInfo := globals.progInfo.setIfInBounds i prog }

/-- Assign to fields of `prog_info[i]`. -/
def assign (i : Nat) (write : ProgInfo → ProgInfo) : Reading Unit :=
  store i fun prog => pure (write prog)

/-- `path`, and the slash behind it. -/
def storePath (ini : Dictionary) (i : Nat) : Reading Unit := do
  let s ← of (getstring ini (programKey i "path"))
  store i fun prog => do
    let cmdLine ← strncpy prog.cmdLine s.1
    pure { prog with cmdLine := cmdLine }
  store i fun prog => do
    let cmdLine ← strncat prog.cmdLine (ascii "/")
    pure { prog with cmdLine := cmdLine }

/-- `name`, in an array of its own and behind the path. -/
def storeName (ini : Dictionary) (i : Nat) : Reading Unit := do
  let s ← of (getstring ini (programKey i "name"))
  store i fun prog => do
    let name ← strncpy prog.name s.1
    pure { prog with name := name }
  store i fun prog => do
    let cmdLine ← strncat prog.cmdLine s.1
    pure { prog with cmdLine := cmdLine }

/-- One turn of the loop over the arguments. -/
def storeArg (ini : Dictionary) (i j : Nat) : Reading Unit := do
  let s ← of (getstring ini (argKey i j))
  store i fun prog => do
    require (j < 64) .outside
    pure { prog with argv := prog.argv.setIfInBounds j (some s.1) }

/-- `command_argc` and the arguments. -/
def storeArgv (ini : Dictionary) (i : Nat) : Reading Unit := do
  let cmdArgc ← of (getint ini (programKey i "command_argc"))
  assign i fun prog =>
    { prog with argv := prog.argv.setIfInBounds 0 (some prog.cmdLine.str) }
  turns (storeArg ini i) cmdArgc.toNat 1

/-- One turn of the loop over the programs. -/
def storeProgInfo (ini : Dictionary) (i : Nat) : Reading Unit := do
  storePath ini i
  storeName ini i
  storeArgv ini i
  let deamon ← of (readFlag ini (programKey i "make_deamon"))
  assign i fun prog => { prog with deamon := deamon }
  let chkProcess ← of (readFlag ini (programKey i "check_process"))
  assign i fun prog => { prog with chkProcess := chkProcess }
  let numThread := iniparserGetint ini (programKey i "num_thread") 0
  assign i fun prog => { prog with numThread := numThread }

/-- `read_ini`, which leaves in the globals what it has written. -/
def storeIni (ini : Option Dictionary) : Reading Unit :=
  match ini with
  | none => of (.error .returnFail)
  | some ini => do
      let prgCnt ← of (getint ini "main_info:prg_cnt")
      modify fun globals => { globals with prgCnt := prgCnt }
      let forkRetryCnt ← of (getint ini "main_info:run_retry")
      modify fun globals => { globals with forkRetryCnt := forkRetryCnt }
      let checkProcessInterval ← of (getint ini "main_info:check_process_interval")
      modify fun globals => { globals with checkProcessInterval := checkProcessInterval }
      modify fun globals => { globals with progInfo := .replicate 32 .zero }
      turns (storeProgInfo ini) prgCnt.toNat 0

/-! ## From the fork to the service -/

/-- Where the monitor ends up. -/
inductive Outcome where
  /-- `exit(0)` or `exit(EXIT_SUCCESS)` -/
  | exitSuccess
  /-- `exit(EXIT_FAILURE)` -/
  | exitFailure
  /-- a write outside of an array -/
  | outside
  /-- the programs are started, unless it is a restart, and then checked -/
  | serving (restart : Bool) (globals : Globals)

/-- The loop of `start_service`, with `left` readings to go. -/
def tryReadings (readings : Nat → Option Dictionary) (restart : Bool) :
    Nat → Nat → Globals → Outcome
  | 0, _, _ => .exitFailure
  | left + 1, n, globals =>
      match run (storeIni (readings n)) globals with
      | (.ok (), globals) => .serving restart globals
      | (.error .returnFail, globals) => tryReadings readings restart left (n + 1) globals
      | (.error .outside, _) => .outside

/-- `start_service`; `readings n` is the file as the n-th reading finds it. -/
def startService (readings : Nat → Option Dictionary) (restart : Bool) (globals : Globals) :
    Outcome :=
  tryReadings readings restart 3 0 globals

/-- The loop of `main` while `fork` fails; with `count` at 10 the result is not looked at. -/
def forkLoop (forks : Nat → ForkReturn) : Nat → Nat → Option ForkReturn
  | 0, _ => none
  | left + 1, k =>
      if forks k = .failed then forkLoop forks left (k + 1) else some (forks k)

/-- `main`; `forks k` is what the k-th `fork` returns, and `sid` what `setsid` does. -/
def main (argv : List (List UInt8)) (forks : Nat → ForkReturn) (sid : Int)
    (readings : Nat → Option Dictionary) (globals : Globals) : Outcome :=
  let pid := if forks 0 = .failed then forkLoop forks 10 1 else some (forks 0)
  match pid with
  | none => .exitSuccess
  | some .child =>
      if sid < 0 then .exitFailure
      else
        let restart := decide (2 ≤ argv.length) && argv.contains (ascii "-restart")
        startService readings restart globals
  | some _ => .exitSuccess

/-! ## A reading in place is the reading -/

/-- The globals with an entry for program `i`. -/
def withProg (globals : Globals) (i : Nat) (prog : ProgInfo) : Globals :=
  { globals with progInfo := globals.progInfo.setIfInBounds i prog }

section

variable {globals : Globals} {i : Nat} {prog : ProgInfo} {ini : Dictionary}

theorem realizes_store (hi : i < 32) (write : ProgInfo → Except Stop ProgInfo) :
    Realizes (store i write) (withProg globals i prog) (write prog) fun prog' =>
      ((), withProg globals i prog') := by
  have hentry : (withProg globals i prog).progInfo[i]?.getD .zero = prog := by
    rw [withProg, Vector.getElem?_setIfInBounds_self_of_lt hi]
    rfl
  have hagain : ∀ prog', withProg (withProg globals i prog) i prog' = withProg globals i prog' := by
    intro prog'
    unfold withProg
    rw [Vector.setIfInBounds_setIfInBounds]
  have hrun : run (store i write) (withProg globals i prog) =
      match write prog with
      | .ok prog' => (.ok (), withProg globals i prog')
      | .error fault => (.error fault, withProg globals i prog) := by
    have hin : require (i < 32) Stop.outside = .ok () := if_pos hi
    rw [store, hin, run_bind, run_of]
    dsimp only
    rw [run_bind, run_get]
    dsimp only
    rw [run_bind, run_of, hentry]
    cases write prog with
    | error fault => rfl
    | ok prog' =>
        dsimp only
        rw [run_set, ← hagain prog']
        rfl
  constructor
  · intro prog' hprog
    rw [hrun, hprog]
  · intro fault hfault
    rw [hrun, hfault]
    exact ⟨_, rfl⟩

theorem realizes_store_of_outside (hi : ¬ i < 32) (write : ProgInfo → Except Stop ProgInfo)
    {β : Type} (stands : β → Unit × Globals) :
    Realizes (store i write) globals (.error .outside) stands where
  of_ok value hvalue := by cases hvalue
  of_error fault hfault := by
    cases hfault
    have hout : require (i < 32) Stop.outside = .error .outside := if_neg hi
    rw [store, hout, run_bind, run_of]
    exact ⟨globals, rfl⟩

/-- A value is computed from the entry and written to it. -/
theorem realizes_store_map {α : Type} (hi : i < 32) {value : Except Stop α}
    (write : α → ProgInfo) {change : ProgInfo → Except Stop ProgInfo}
    (hchange : change prog = value >>= fun v => pure (write v)) :
    Realizes (store i change) (withProg globals i prog) value fun v =>
      ((), withProg globals i (write v)) := by
  have hstore := @realizes_store globals i prog hi change
  rw [hchange] at hstore
  exact hstore.of_map

theorem realizes_assign (hi : i < 32) (write : ProgInfo → ProgInfo) :
    Realizes (assign i write) (withProg globals i prog) (.ok ()) fun _ =>
      ((), withProg globals i (write prog)) :=
  realizes_store_map hi (fun _ => write prog) rfl

theorem realizes_storePath :
    Realizes (storePath ini i) (withProg globals i .zero) (readPath ini i) fun cmdLine =>
      ((), withProg globals i { ProgInfo.zero with cmdLine := cmdLine }) := by
  refine (realizes_of _).bind fun s _ => ?_
  by_cases hi : i < 32
  · rw [require_bind_of_pos hi]
    refine (realizes_store_map hi (fun cmdLine => { ProgInfo.zero with cmdLine := cmdLine })
      rfl).bind fun cmdLine _ => ?_
    exact realizes_store_map hi (fun cmdLine => { ProgInfo.zero with cmdLine := cmdLine }) rfl
  · rw [require_bind_of_neg hi]
    exact (realizes_store_of_outside hi _ fun value : Unit => (value, globals)).bind_error

theorem realizes_storeName (hi : i < 32) (hname : prog.name = ProgInfo.zero.name) :
    Realizes (storeName ini i) (withProg globals i prog)
      (readName ini i prog.cmdLine) fun read =>
      ((), withProg globals i { prog with name := read.1, cmdLine := read.2 }) := by
  refine (realizes_of _).bind fun s _ => ?_
  have hcopy := @realizes_store_map globals i prog _ hi (strncpy ProgInfo.zero.name s.1)
    (fun name => { prog with name := name }) (fun prog => do
      let name ← strncpy prog.name s.1
      pure { prog with name := name }) (by rw [← hname])
  refine hcopy.bind fun name _ => ?_
  refine Realizes.map ?_
  exact realizes_store_map hi (fun cmdLine => { prog with name := name, cmdLine := cmdLine }) rfl

theorem realizes_storeArg (hi : i < 32) (j : Nat) (argv : Vector (Option (List UInt8)) 64) :
    Realizes (storeArg ini i j) (withProg globals i { prog with argv := argv })
      (readArg ini i j argv) fun argv' =>
      ((), withProg globals i { prog with argv := argv' }) := by
  refine (realizes_of _).bind fun s _ => ?_
  refine realizes_store_map hi (fun argv' => { prog with argv := argv' }) ?_
  rw [bind_assoc]
  rfl

theorem realizes_storeArgv (hi : i < 32) (hargv : prog.argv = ProgInfo.zero.argv) :
    Realizes (storeArgv ini i) (withProg globals i prog) (readArgv ini i prog.cmdLine) fun argv =>
      ((), withProg globals i { prog with argv := argv }) := by
  refine (realizes_of _).bind fun cmdArgc _ => ?_
  refine (realizes_assign hi _).andThen ?_
  rw [← hargv]
  exact realizes_turns (realizes_storeArg hi) cmdArgc.toNat 1 _

/-- One turn stores the program it reads. -/
theorem realizes_storeProgInfo (hzero : ∀ hi : i < 32, globals.progInfo[i] = .zero) :
    Realizes (storeProgInfo ini i) globals (readProgram ini i) fun prog =>
      ((), withProg globals i prog) := by
  have hstart : withProg globals i .zero = globals := by
    have hsame : globals.progInfo.setIfInBounds i .zero = globals.progInfo := by
      refine Vector.ext fun j hj => ?_
      rw [Vector.getElem_setIfInBounds hj]
      split
      · rename_i heq
        subst heq
        exact (hzero hj).symm
      · rfl
    rw [withProg, hsame]
  have hprogram : Realizes (storeProgInfo ini i) (withProg globals i .zero) (readProgram ini i)
      fun prog => ((), withProg globals i prog) := by
    refine realizes_storePath.bind fun cmdLine hcmdLine => ?_
    have hi : i < 32 := (runs_readPath_iff.mp ⟨cmdLine, hcmdLine⟩).1
    have hname := @realizes_storeName globals i { ProgInfo.zero with cmdLine := cmdLine } ini hi rfl
    refine hname.bind fun (name, cmdLine) _ => ?_
    have hargv := @realizes_storeArgv globals i
      { ProgInfo.zero with name := name, cmdLine := cmdLine } ini hi rfl
    refine hargv.bind fun argv _ => ?_
    refine (realizes_of _).bind fun deamon _ => ?_
    refine (realizes_assign hi _).andThen ?_
    refine (realizes_of _).bind fun chkProcess _ => ?_
    refine (realizes_assign hi _).andThen ?_
    exact realizes_store hi _
  rwa [hstart] at hprogram

/-- The entries from `k` on are those that `memset` has left. -/
def ZeroFrom (k : Nat) (progInfo : Vector ProgInfo 32) : Prop :=
  ∀ j, k ≤ j → ∀ hj : j < 32, progInfo[j] = .zero

theorem zeroFrom_succ {k : Nat} {progInfo progInfo' : Vector ProgInfo 32}
    (hzero : ZeroFrom k progInfo) (hstore : storeProgram ini k progInfo = .ok progInfo') :
    ZeroFrom (k + 1) progInfo' := by
  obtain ⟨program, _, hset⟩ := bind_eq_ok_iff.mp hstore
  cases hset
  intro j hlow hj
  rw [Vector.getElem_setIfInBounds_ne hj (Nat.ne_of_lt hlow)]
  exact hzero j (Nat.le_of_succ_le hlow) hj

/-- Whatever was in the globals, a reading in place is the reading. -/
theorem realizes_storeIni (ini : Option Dictionary) :
    Realizes (storeIni ini) globals (readIni ini) fun globals' => ((), globals') := by
  cases ini with
  | none =>
      refine ⟨fun value hvalue => ?_, fun fault hfault => ⟨globals, ?_⟩⟩
      · cases hvalue
      · cases hfault
        rfl
  | some ini =>
      refine (realizes_of _).bind fun prgCnt _ => ?_
      refine (realizes_modify _).andThen ?_
      refine (realizes_of _).bind fun forkRetryCnt _ => ?_
      refine (realizes_modify _).andThen ?_
      refine (realizes_of _).bind fun checkProcessInterval _ => ?_
      refine (realizes_modify _).andThen ?_
      refine (realizes_modify _).andThen ?_
      refine Realizes.map ?_
      have hturn : ∀ k progInfo, ZeroFrom k progInfo →
          Realizes (storeProgInfo ini k)
            { globals with
              progInfo := progInfo
              prgCnt := prgCnt
              forkRetryCnt := forkRetryCnt
              checkProcessInterval := checkProcessInterval }
            (storeProgram ini k progInfo) fun progInfo' =>
            ((), ⟨progInfo', prgCnt, forkRetryCnt, checkProcessInterval⟩) := by
        intro k progInfo hzero
        exact Realizes.map (realizes_storeProgInfo fun hk => hzero k (Nat.le_refl k) hk)
      have hstart : ZeroFrom 0 (Vector.replicate 32 ProgInfo.zero) := fun j _ hj =>
        Vector.getElem_replicate hj
      exact Realizes.turns hturn (fun _ _ _ => zeroFrom_succ) prgCnt.toNat 0 hstart

end

/-! ## What is served -/

section

variable {readings : Nat → Option Dictionary} {forks : Nat → ForkReturn}
  {restart restart' : Bool} {globals served : Globals} {left n k : Nat}

/-- The loop of the readings serves what the first one that does not fail gives. -/
theorem tryReadings_serving_iff :
    tryReadings readings restart left n globals = .serving restart' served ↔
      restart = restart' ∧ Within (fun m => readIni (readings m) = .ok served)
        (fun m => Fails (readIni (readings m))) left n := by
  induction left generalizing n globals with
  | zero =>
      refine iff_of_false (fun hserving => by cases hserving) fun hboth => ?_
      exact not_within_zero hboth.2
  | succ left ih =>
      have hreal := @realizes_storeIni globals (readings n)
      rw [within_succ_iff, tryReadings]
      cases hread : readIni (readings n) with
      | ok value =>
          rw [hreal.of_ok value hread]
          have hgoes : ¬ Fails (.ok value : Except Stop Globals) := not_fails_ok value
          rw [or_iff_left fun hboth => hgoes hboth.1, Outcome.serving.injEq, Except.ok.injEq]
      | error fault =>
          obtain ⟨globals', hrun⟩ := hreal.of_error fault hread
          rw [hrun, or_iff_right (fun hok => by cases hok)]
          cases fault with
          | returnFail =>
              rw [ih]
              exact and_congr_right fun _ => (and_iff_right rfl).symm
          | outside =>
              refine iff_of_false (fun hserving => by cases hserving) fun hboth => ?_
              exact absurd hboth.2.1 fun hfails => by cases hfails

/-- The loop of the forks looks at so many of them. -/
theorem forkLoop_child_iff :
    forkLoop forks left k = some .child ↔
      Within (forks · = .child) (forks · = .failed) left k := by
  induction left generalizing k with
  | zero => exact iff_of_false (fun hchild => by cases hchild) not_within_zero
  | succ left ih =>
      rw [within_succ_iff, forkLoop]
      by_cases hfailed : forks k = .failed
      · rw [if_pos hfailed, ih, hfailed, or_iff_right (fun hchild => by cases hchild)]
        exact (and_iff_right rfl).symm
      · rw [if_neg hfailed, or_iff_left (fun hboth => hfailed hboth.1), Option.some_inj]

end

/--
The monitor serves exactly when one of the first eleven forks gives the child after forks
that failed, `setsid` succeeds, and one of three readings succeeds after others that failed.
It then serves what this reading says, and does not start the programs where it was given
`-restart`.
-/
theorem main_serving_iff (argv : List (List UInt8)) (forks : Nat → ForkReturn) (sid : Int)
    (readings : Nat → Option Dictionary) (globals served : Globals) (restart : Bool) :
    main argv forks sid readings globals = .serving restart served ↔
      (∃ k < 11, forks k = .child ∧ ∀ j < k, forks j = .failed) ∧ 0 ≤ sid ∧
        (restart = true ↔ 2 ≤ argv.length ∧ ascii "-restart" ∈ argv) ∧
        ∃ n < 3, readIni (readings n) = .ok served ∧
          ∀ m < n, Fails (readIni (readings m)) := by
  have hforks : (if forks 0 = .failed then forkLoop forks 10 1 else some (forks 0)) =
      some .child ↔ ∃ k < 11, forks k = .child ∧ ∀ j < k, forks j = .failed := by
    rw [← within_first_iff]
    exact @forkLoop_child_iff forks 11 0
  rw [← hforks, ← within_first_iff]
  unfold main
  dsimp only
  cases hpid : (if forks 0 = .failed then forkLoop forks 10 1 else some (forks 0)) with
  | none => exact iff_of_false (fun hserving => by cases hserving) fun hall => by cases hall.1
  | some pid =>
      cases pid with
      | failed => exact iff_of_false (fun hserving => by cases hserving) fun hall => by cases hall.1
      | parent pid =>
          exact iff_of_false (fun hserving => by cases hserving) fun hall => by cases hall.1
      | child =>
          dsimp only
          by_cases hsid : sid < 0
          · rw [if_pos hsid]
            refine iff_of_false (fun hserving => by cases hserving) fun hall => ?_
            exact absurd hall.2.1 (Int.not_le.mpr hsid)
          · rw [if_neg hsid, startService, tryReadings_serving_iff, and_iff_right rfl,
              and_iff_right (Int.not_lt.mp hsid)]
            refine and_congr_left fun _ => ?_
            rw [Bool.eq_iff_iff, Bool.and_eq_true, decide_eq_true_iff, List.contains_iff_mem]
            exact Iff.comm

end MdsFormal.Mon.StartService
