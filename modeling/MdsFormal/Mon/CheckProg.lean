import Mathlib.Logic.Function.Basic
import MdsFormal.Mon.ProgStart

/-!
# Checking the started programs

`check_prog` of the monitor, as a machine that stops at each place where it asks the
system for something.  A round sleeps, probes every monitored program, launches those it
did not find and, when nothing failed, compares the instances found with `num_thread`.
-/

namespace MdsFormal.Mon.CheckProg

open ProgStart

/-- The two calls of `mds_api_poweroff_and_log`, with the program they are made for.  The
call does not return. -/
inductive PowerOff where
  | case1 (i : Nat)
  | case2 (i : Nat)
  deriving DecidableEq

/-- Where the function is. -/
inductive Pc where
  | sleep
  | program (i : Nat)
  | test (i : Nat)
  | find (i : Nat)
  | relaunch (i : Nat)
  | tally
  | compare (i : Nat)
  | nomon (i : Nat)
  | off (cause : PowerOff)
  deriving DecidableEq

/-- The locals of `check_prog` and the globals it uses.  `probes` is not in the code: it
lists the results of the round's searches for each program. -/
structure Check where
  progInfo : List ProgInfo
  foundFail : Bool
  foundFailApps : Bool
  zombiecnt : Int
  chkcnt : Int
  pc : Pc
  probes : Nat → List Int

/-- What the machine is given: nothing, the result of `mds_api_proc_find`, what a launch
meets, and whether `access` finds the flag file. -/
inductive Label where
  | go
  | found (res : Int)
  | launched (attempt : Attempt)
  | access (present : Bool)

/-- The results of `mds_api_proc_find`. -/
def ProcFound (res : Int) : Prop := res = -1 ∨ res = -2 ∨ 0 < res

instance (res : Int) : Decidable (ProcFound res) := inferInstanceAs (Decidable (_ ∨ _ ∨ _))

def Check.start (progInfo : List ProgInfo) : Check where
  progInfo := progInfo
  foundFail := false
  foundFailApps := false
  zombiecnt := 0
  chkcnt := 10
  pc := .sleep
  probes := fun _ => []

def Check.setCurNumThread (s : Check) (i : Nat) (num : Int) : Check :=
  { s with progInfo := s.progInfo.modify i fun prog => { prog with curNumThread := num } }

def Check.record (s : Check) (i : Nat) (res : Int) : Check :=
  { s with probes := Function.update s.probes i (s.probes i ++ [res]) }

/-- The body of the `while(chkcnt--)` loop behind the search. -/
def Check.afterFind (s : Check) (i : Nat) (res : Int) : Check :=
  if res = -1 then
    { s with foundFailApps := true, foundFail := true, pc := .test i }
  else if res = -2 then
    if s.zombiecnt + 1 ≥ 5 then
      { s with foundFailApps := true, zombiecnt := s.zombiecnt + 1, pc := .off (.case1 i) }
    else
      { s with foundFailApps := true, zombiecnt := s.zombiecnt + 1, chkcnt := 10, pc := .test i }
  else
    { s.setCurNumThread i res with foundFail := false, pc := .relaunch i }

/-- The head of the first `for` loop. -/
def Check.enterProgram (s : Check) (i : Nat) : Check :=
  match s.progInfo[i]? with
  | none => { s with pc := .tally }
  | some prog =>
      if prog.chkProcess = true then
        { s with foundFail := true, zombiecnt := 0, chkcnt := 10, pc := .test i }
      else { s with pc := .program (i + 1) }

/-- The test of `while(chkcnt--)`, up to the search. -/
def Check.testLoop (s : Check) (i : Nat) : Check :=
  if s.chkcnt = 0 then { s with chkcnt := s.chkcnt - 1, pc := .relaunch i }
  else { s.setCurNumThread i 0 with chkcnt := s.chkcnt - 1, pc := .find i }

/-- The body of the second `for` loop, up to `_check_nomon_file`. -/
def Check.compareProgram (s : Check) (i : Nat) : Check :=
  match s.progInfo[i]? with
  | none => { s with pc := .sleep }
  | some prog =>
      if prog.chkProcess = false then { s with pc := .compare (i + 1) }
      else if prog.numThread = 0 then { s with pc := .compare (i + 1) }
      else if prog.curNumThread ≥ prog.numThread then { s with pc := .compare (i + 1) }
      else { s with pc := .nomon i }

/-- `_check_nomon_file`, by what its `access` finds. -/
def checkNomonFile (present : Bool) : Int := if present then 0 else -1

/-- A step of the function itself. -/
def Check.go (s : Check) : Option Check :=
  match s.pc with
  | .sleep => some { s with foundFailApps := false, pc := .program 0, probes := fun _ => [] }
  | .program i => some (s.enterProgram i)
  | .test i => some (s.testLoop i)
  | .relaunch i => if s.foundFail then none else some { s with pc := .program (i + 1) }
  | .tally =>
      some (if s.foundFailApps then { s with pc := .sleep } else { s with pc := .compare 0 })
  | .compare i => some (s.compareProgram i)
  | .find _ | .nomon _ | .off _ => none

def step (s : Check) : Label → Option Check
  | .go => s.go
  | .found res =>
      match s.pc with
      | .find i => if ProcFound res then some ((s.record i res).afterFind i res) else none
      | _ => none
  | .launched attempt =>
      match s.pc with
      | .relaunch i =>
          -- the result of the launch is not used, but the launch has to be over
          if s.foundFail then
            (s.progInfo[i]?.bind fun prog => launch prog attempt).map fun _ =>
              { s with pc := .program (i + 1) }
          else none
      | _ => none
  | .access present =>
      match s.pc with
      | .nomon i =>
          some (if checkNomonFile present < 0 then { s with pc := .off (.case2 i) }
            else { s with pc := .compare (i + 1) })
      | _ => none

/-! ## What each step needs and does -/

section

variable {s s' : Check}

theorem step_found {res : Int} (hstep : step s (.found res) = some s') :
    ∃ i, s.pc = .find i ∧ ProcFound res ∧ s' = (s.record i res).afterFind i res := by
  simp only [step] at hstep
  cases hpc : s.pc with
  | find i =>
      simp only [hpc] at hstep
      split at hstep
      · rename_i hres
        exact ⟨i, rfl, hres, (Option.some.inj hstep).symm⟩
      · cases hstep
  | _ => simp [hpc] at hstep

theorem step_launched {attempt : Attempt} (hstep : step s (.launched attempt) = some s') :
    ∃ i, s.pc = .relaunch i ∧ s.foundFail = true ∧ s' = { s with pc := .program (i + 1) } := by
  simp only [step] at hstep
  cases hpc : s.pc with
  | relaunch i =>
      simp only [hpc] at hstep
      split at hstep
      · rename_i hfail
        obtain ⟨ret, -, rfl⟩ := Option.map_eq_some_iff.mp hstep
        exact ⟨i, rfl, hfail, rfl⟩
      · cases hstep
  | _ => simp [hpc] at hstep

theorem step_access {present : Bool} (hstep : step s (.access present) = some s') :
    ∃ i, s.pc = .nomon i ∧
      s' = { s with pc := if present then .compare (i + 1) else .off (.case2 i) } := by
  simp only [step] at hstep
  cases hpc : s.pc with
  | nomon i =>
      simp only [hpc] at hstep
      refine ⟨i, rfl, (Option.some.inj hstep).symm.trans ?_⟩
      cases present <;> rfl
  | _ => simp [hpc] at hstep

end

end MdsFormal.Mon.CheckProg
