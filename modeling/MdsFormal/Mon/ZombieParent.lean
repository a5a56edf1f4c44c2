import MdsFormal.Library.LabelledRun
import MdsFormal.Mon.CheckProg
import MdsFormal.Process.ProcFind

/-!
# The parent of a zombie

`check_prog` together with the searches it makes.  Two counters have the name `zombiecnt`:
the monitor's own, which `check_prog` counts up to the power-off, and one that is static
in the file of the search.  The search kills a zombie's parent only when the second one
has reached 3, and nothing counts it up.
-/

namespace MdsFormal.Mon.ZombieParent

open Library.LabelledRun Library.Scan Process ProcFind ProgStart CheckProg

/-! ## The search with its retries -/

/-- What one call of `_mds_api_proc_find` finds: in the array that is gone, and under `/proc`. -/
structure Look where
  readDead : ReadDead
  procDir : Option (List (List Char))
  statFiles : StatFiles

/-- One call of `_mds_api_proc_find`: what it returned and what it did. -/
structure Call where
  res : Int
  actions : List Action
  deriving DecidableEq

def Look.call (look : Look) (name : List Char) (zombiecnt pidMon : Int) : Call :=
  let (res, actions) :=
    ProcFind.mdsApiProcFind look.readDead name look.procDir look.statFiles zombiecnt pidMon
  ⟨res, actions⟩

/-- The source's `DEFAULT_CHK_PROC_CNT`. -/
def defaultChkProcCnt : Nat := 4

/-- The `while(max_cnt --)` loop, with `ret` as it stands; the k-th call has its own look. -/
def procFindLoop (name : List Char) (looks : Nat → Look) (zombiecnt pidMon : Int) :
    Nat → Nat → Int → Int × List Call
  | 0, _, ret => (ret, [])
  | maxCnt + 1, k, _ =>
      let call := (looks k).call name zombiecnt pidMon
      if call.res > 0 then (call.res, [call])
      else
        let (ret, calls) := procFindLoop name looks zombiecnt pidMon maxCnt (k + 1) call.res
        (ret, call :: calls)

/-- `mds_api_proc_find`. -/
def mdsApiProcFind (name : List Char) (looks : Nat → Look) (zombiecnt pidMon : Int) :
    Int × List Call :=
  procFindLoop name looks zombiecnt pidMon defaultChkProcCnt 0 0

/-! ## The monitor and the search together -/

/-- `zombiecnt` is the search's counter, `calls` what the searches have returned and done. -/
structure Watch where
  check : Check
  zombiecnt : Int
  pidMon : Int
  calls : List Call

inductive WatchLabel where
  | check (label : Label)
  | search (looks : Nat → Look)

def Watch.start (progInfo : List ProgInfo) (pidMon : Int) : Watch where
  check := Check.start progInfo
  zombiecnt := 0
  pidMon := pidMon
  calls := []

/-- The searches of `check_prog` are calls of `mds_api_proc_find`; the rest is its own. -/
def watchStep (s : Watch) : WatchLabel → Option Watch
  | .check (.found _) => none
  | .check label => (step s.check label).map fun check => { s with check := check }
  | .search looks =>
      match s.check.pc with
      | .find i =>
          s.check.progInfo[i]?.bind fun prog =>
            let (res, calls) := mdsApiProcFind prog.name looks s.zombiecnt s.pidMon
            (step s.check (.found res)).map fun check =>
              { s with check := check, calls := s.calls ++ calls }
      | _ => none

/-! ## What a search returns and does -/

section

variable {name fixName : List Char} {statFiles : StatFiles} {zombiecnt pidMon : Int}

/-- One scan returns -1, -2 or a positive number. -/
theorem findLoop_found {entries : List (List Char)} {numThread : Int} {isfounded : Bool}
    (hcount : 0 ≤ numThread) (hfound : isfounded = true → 0 < numThread) :
    ProcFound (findLoop fixName statFiles zombiecnt pidMon entries numThread isfounded).1 := by
  induction entries generalizing numThread isfounded with
  | nil =>
      cases isfounded with
      | false => exact Or.inl rfl
      | true => exact Or.inr (Or.inr (hfound rfl))
  | cons entry rest ih =>
      rw [findLoop]
      split
      · exact ih hcount hfound
      · split
        · exact ih hcount hfound
        · split
          · exact Or.inl rfl
          · split
            · split
              · exact Or.inr (Or.inl rfl)
              · refine ih ?_ fun _ => ?_ <;> omega
            · exact ih hcount hfound

theorem call_found (look : Look) : ProcFound (look.call name zombiecnt pidMon).res := by
  cases hdir : look.procDir with
  | none =>
      left
      simp [Look.call, ProcFind.mdsApiProcFind, hdir]
  | some entries =>
      have hscan : (look.call name zombiecnt pidMon).res =
          (findLoop (look.readDead (processNameFix name)) look.statFiles zombiecnt pidMon entries
            0 false).1 := by
        simp [Look.call, ProcFind.mdsApiProcFind, hdir]
      rw [hscan]
      exact findLoop_found (Int.le_refl 0) fun hfound => Bool.noConfusion hfound

/-- What the machine of the monitor alone assumes of the search. -/
theorem procFindLoop_found (looks : Nat → Look) {maxCnt k : Nat} {ret : Int}
    (hret : maxCnt = 0 → ProcFound ret) :
    ProcFound (procFindLoop name looks zombiecnt pidMon maxCnt k ret).1 := by
  induction maxCnt generalizing k ret with
  | zero => exact hret rfl
  | succ maxCnt ih =>
      rw [procFindLoop]
      dsimp only
      split
      · exact call_found (looks k)
      · exact ih fun _ => call_found (looks k)

theorem mdsApiProcFind_found (looks : Nat → Look) :
    ProcFound (mdsApiProcFind name looks zombiecnt pidMon).1 :=
  procFindLoop_found looks fun hzero => absurd hzero (by decide)

/-- A scan that starts with the counter below 3 kills nothing. -/
theorem findLoop_noKill (hcnt : zombiecnt < 3) {entries : List (List Char)} {numThread pid : Int}
    {isfounded : Bool} :
    .kill pid ∉ (findLoop fixName statFiles zombiecnt pidMon entries numThread isfounded).2 := by
  induction entries generalizing numThread isfounded with
  | nil => simp [findLoop]
  | cons entry rest ih =>
      rw [findLoop]
      split
      · exact ih
      · split
        · exact ih
        · split
          · simp
          · split
            · split
              · simp [reap, Int.not_le.mpr hcnt]
              · exact ih
            · exact ih

theorem call_noKill (hcnt : zombiecnt < 3) (look : Look) {pid : Int} :
    .kill pid ∉ (look.call name zombiecnt pidMon).actions := by
  cases hdir : look.procDir with
  | none => simp [Look.call, ProcFind.mdsApiProcFind, hdir]
  | some entries =>
      have hscan : (look.call name zombiecnt pidMon).actions =
          (findLoop (look.readDead (processNameFix name)) look.statFiles zombiecnt pidMon entries
            0 false).2 := by
        simp [Look.call, ProcFind.mdsApiProcFind, hdir]
      rw [hscan]
      exact findLoop_noKill hcnt

theorem procFindLoop_noKill (hcnt : zombiecnt < 3) (looks : Nat → Look) {maxCnt k : Nat}
    {ret pid : Int} :
    ∀ call ∈ (procFindLoop name looks zombiecnt pidMon maxCnt k ret).2,
      .kill pid ∉ call.actions := by
  induction maxCnt generalizing k ret with
  | zero =>
      intro call hcall
      cases hcall
  | succ maxCnt ih =>
      rw [procFindLoop]
      dsimp only
      split
      · intro call hcall
        rw [List.mem_singleton.mp hcall]
        exact call_noKill hcnt (looks k)
      · intro call hcall
        rcases List.mem_cons.mp hcall with rfl | hlater
        · exact call_noKill hcnt (looks k)
        · exact ih call hlater

end

/-! ## The monitor's own machine -/

/-- The program that is tested or searched for is there. -/
def InRange (s : Check) : Prop :=
  ∀ i, s.pc = .test i ∨ s.pc = .find i → i < s.progInfo.length

section

variable {s s' : Check}

/-- At the other places nothing is asked. -/
theorem inRange_of_pc (hplace : ∀ i, s.pc ≠ .test i ∧ s.pc ≠ .find i) : InRange s := by
  intro i hpc
  exact absurd hpc (not_or.mpr (hplace i))

theorem inRange_at {i : Nat} (hpc : s.pc = .test i ∨ s.pc = .find i)
    (hlt : i < s.progInfo.length) : InRange s := by
  intro j hplace
  rcases hpc with hpc | hpc
  · rw [hpc] at hplace
    rcases hplace with htest | hfind
    · cases htest
      exact hlt
    · cases hfind
  · rw [hpc] at hplace
    rcases hplace with htest | hfind
    · cases htest
    · cases hfind
      exact hlt

theorem inRange_enterProgram (s : Check) (i : Nat) : InRange (s.enterProgram i) := by
  unfold Check.enterProgram
  cases hprog : s.progInfo[i]? with
  | none => exact inRange_of_pc fun j => by simp
  | some prog =>
      obtain ⟨hlt, -⟩ := List.getElem?_eq_some_iff.mp hprog
      dsimp only
      split
      · exact inRange_at (.inl rfl) hlt
      · exact inRange_of_pc fun j => by simp

theorem inRange_testLoop {i : Nat} (hlt : i < s.progInfo.length) : InRange (s.testLoop i) := by
  unfold Check.testLoop
  split
  · exact inRange_of_pc fun j => by simp
  · exact inRange_at (.inr rfl) (by simpa [Check.setCurNumThread] using hlt)

theorem inRange_compareProgram (s : Check) (i : Nat) : InRange (s.compareProgram i) := by
  unfold Check.compareProgram
  split
  · exact inRange_of_pc fun j => by simp
  · split
    · exact inRange_of_pc fun j => by simp
    · split
      · exact inRange_of_pc fun j => by simp
      · split
        · exact inRange_of_pc fun j => by simp
        · exact inRange_of_pc fun j => by simp

theorem inRange_go (hs : InRange s) (hgo : s.go = some s') : InRange s' := by
  unfold Check.go at hgo
  cases hpc : s.pc with
  | sleep =>
      rw [hpc] at hgo
      cases hgo
      exact inRange_of_pc fun j => by simp
  | program i =>
      rw [hpc] at hgo
      cases hgo
      exact inRange_enterProgram s i
  | test i =>
      rw [hpc] at hgo
      cases hgo
      exact inRange_testLoop (hs i (.inl hpc))
  | relaunch i =>
      rw [hpc] at hgo
      obtain ⟨-, hnext⟩ := Option.ite_none_left_eq_some.mp hgo
      cases hnext
      exact inRange_of_pc fun j => by simp
  | tally =>
      rw [hpc] at hgo
      cases hgo
      split
      · exact inRange_of_pc fun j => by simp
      · exact inRange_of_pc fun j => by simp
  | compare i =>
      rw [hpc] at hgo
      cases hgo
      exact inRange_compareProgram s i
  | find i | nomon i | off cause =>
      rw [hpc] at hgo
      cases hgo

theorem inRange_afterFind {i : Nat} (hlt : i < s.progInfo.length) (res : Int) :
    InRange (s.afterFind i res) := by
  unfold Check.afterFind
  split
  · exact inRange_at (.inl rfl) hlt
  · split
    · split
      · exact inRange_of_pc fun j => by simp
      · exact inRange_at (.inl rfl) hlt
    · exact inRange_of_pc fun j => by simp

theorem inRange_step {label : Label} (hs : InRange s) (hstep : step s label = some s') :
    InRange s' := by
  cases label with
  | go => exact inRange_go hs hstep
  | found res =>
      obtain ⟨i, hpc, -, rfl⟩ := step_found hstep
      exact inRange_afterFind (s := s.record i res) (hs i (.inr hpc)) res
  | launched attempt =>
      obtain ⟨i, -, -, rfl⟩ := step_launched hstep
      exact inRange_of_pc fun j => by simp
  | access present =>
      obtain ⟨i, -, rfl⟩ := step_access hstep
      exact inRange_of_pc fun j => by cases present <;> simp

end

/-- A step of both is a step of `check_prog`. -/
theorem watchStep_checks {s s' : Watch} {label : WatchLabel}
    (hstep : watchStep s label = some s') : ∃ own, step s.check own = some s'.check := by
  cases label with
  | check label =>
      cases label with
      | found res => cases hstep
      | _ =>
          obtain ⟨check, hcheck, rfl⟩ := Option.map_eq_some_iff.mp hstep
          exact ⟨_, hcheck⟩
  | search looks =>
      simp only [watchStep] at hstep
      split at hstep
      · obtain ⟨prog, -, hfound⟩ := Option.bind_eq_some_iff.mp hstep
        obtain ⟨check, hcheck, rfl⟩ := Option.map_eq_some_iff.mp hfound
        exact ⟨_, hcheck⟩
      · cases hstep

/-- No search is refused: `check_prog` is ready for all that it can return. -/
theorem watchStep_search {s : Watch} {i : Nat} (hpc : s.check.pc = .find i)
    (hs : InRange s.check) (looks : Nat → Look) : (watchStep s (.search looks)).isSome := by
  obtain ⟨prog, hprog⟩ : ∃ prog, s.check.progInfo[i]? = some prog :=
    ⟨_, List.getElem?_eq_getElem (hs i (.inr hpc))⟩
  have hfound : ProcFound (mdsApiProcFind prog.name looks s.zombiecnt s.pidMon).1 :=
    mdsApiProcFind_found looks
  simp [watchStep, hpc, hprog, step, hfound]

/-- Whatever the searches find, a run of both goes through states of `check_prog` alone, and
goes on at each search that it comes to. -/
theorem watch_fits_check {progInfo : List ProgInfo} {pidMon : Int} {labels : List WatchLabel}
    {s : Watch} (hrun : run watchStep (Watch.start progInfo pidMon) labels = some s) :
    (∃ own, run step (Check.start progInfo) own = some s.check) ∧
      ∀ i, s.check.pc = .find i → ∀ looks, (watchStep s (.search looks)).isSome := by
  have hreached : ∃ own, run step (Check.start progInfo) own = some s.check := by
    refine inv_of_run (fun s => ∃ own, run step (Check.start progInfo) own = some s.check) ?_
      ⟨[], rfl⟩ hrun
    rintro s label s' ⟨own, hown⟩ hstep
    obtain ⟨last, hlast⟩ := watchStep_checks hstep
    refine ⟨own ++ [last], ?_⟩
    rw [run_append, hown, Option.bind_some, run, hlast]
    rfl
  obtain ⟨own, hown⟩ := hreached
  have hstart : InRange (Check.start progInfo) := inRange_of_pc fun j => by simp [Check.start]
  have hrange : InRange s.check := inv_of_run InRange (fun _ _ _ => inRange_step) hstart hown
  exact ⟨⟨own, hown⟩, fun i hpc looks => watchStep_search hpc hrange looks⟩

/-! ## Whole runs -/

/-- The search's counter is as it was at the start, and no search has killed anything. -/
def NeverKilled (s : Watch) : Prop :=
  s.zombiecnt = 0 ∧ ∀ call ∈ s.calls, ∀ pid, .kill pid ∉ call.actions

theorem neverKilled_step {s s' : Watch} {label : WatchLabel} (hinv : NeverKilled s)
    (hstep : watchStep s label = some s') : NeverKilled s' := by
  obtain ⟨hcnt, hcalls⟩ := hinv
  cases label with
  | check label =>
      have hmap : ∃ check, { s with check := check } = s' := by
        cases label with
        | found res => cases hstep
        | _ =>
            obtain ⟨check, -, hnext⟩ := Option.map_eq_some_iff.mp hstep
            exact ⟨check, hnext⟩
      obtain ⟨check, rfl⟩ := hmap
      exact ⟨hcnt, hcalls⟩
  | search looks =>
      simp only [watchStep] at hstep
      split at hstep
      · obtain ⟨prog, -, hfound⟩ := Option.bind_eq_some_iff.mp hstep
        obtain ⟨check, -, rfl⟩ := Option.map_eq_some_iff.mp hfound
        refine ⟨hcnt, fun call hcall pid => ?_⟩
        rcases List.mem_append.mp hcall with hearlier | hnow
        · exact hcalls call hearlier pid
        · refine procFindLoop_noKill ?_ looks call hnow
          rw [hcnt]
          decide
      · cases hstep

theorem neverKilled_run {progInfo : List ProgInfo} {pidMon : Int} {labels : List WatchLabel}
    {s : Watch} (hrun : run watchStep (Watch.start progInfo pidMon) labels = some s) :
    NeverKilled s := by
  refine inv_of_run NeverKilled (fun _ _ _ => neverKilled_step) ⟨rfl, ?_⟩ hrun
  intro call hcall
  cases hcall

/-! ## The parent and the power-off -/

/-- A search has killed the parent, with three zombies seen before. -/
def KilledInTime (s : Watch) (parent : Int) : Prop :=
  ∃ before call after, s.calls = before ++ call :: after ∧ .kill parent ∈ call.actions ∧
    3 ≤ before.countP fun call => call.res = -2

/-- Every zombie that is taken for the program's has this parent. -/
def ZombiesHaveParent (name : List Char) (parent : Int) (look : Look) : Prop :=
  ∀ pid content line, look.statFiles pid = some content → scanStat content = some line →
    line.pname = look.readDead (processNameFix name) → line.state = 'Z' → line.ppid = parent

/-- The run ends with the power-off for the zombies of program `i`, whose parent is neither
the monitor nor process 1. -/
structure ZombieRun (progInfo : List ProgInfo) (pidMon : Int) (labels : List WatchLabel)
    (s : Watch) (i : Nat) (prog : ProgInfo) (parent : Int) : Prop where
  reached : run watchStep (Watch.start progInfo pidMon) labels = some s
  off : s.check.pc = .off (.case1 i)
  named : progInfo[i]? = some prog
  zombies : ∀ looks, .search looks ∈ labels → ∀ k, ZombiesHaveParent prog.name parent (looks k)
  foreign : parent ≠ pidMon ∧ parent ≠ 1

theorem NeverKilled.not_killedInTime {s : Watch} (hs : NeverKilled s) (parent : Int) :
    ¬ KilledInTime s parent := by
  rintro ⟨before, call, after, hcalls, hkill, -⟩
  refine hs.2 call ?_ parent hkill
  rw [hcalls]
  exact List.mem_append_right before List.mem_cons_self

/-- No run kills the parent of a zombie, whichever way it ends. -/
theorem parent_never_killed {progInfo : List ProgInfo} {pidMon : Int}
    {labels : List WatchLabel} {s : Watch}
    (hrun : run watchStep (Watch.start progInfo pidMon) labels = some s) (parent : Int) :
    ¬ KilledInTime s parent :=
  (neverKilled_run hrun).not_killedInTime parent

/-! ## A run that reaches the power-off -/

def logd : ProgInfo := ⟨['l', 'o', 'g', 'd'], [], false, true, 1, 0⟩

/-- Process 7 is a zombie of logd whose parent is process 5, and the name is read back. -/
def zombieLook : Look where
  readDead := id
  procDir := some [['7']]
  statFiles := fun pid => if pid = 7 then some (statText 7 logd.name 'Z' 5 []) else none

/-- The way to the first search. -/
theorem watch_fits_check_logd :
    ∃ s, run watchStep (Watch.start [logd] 100) [.check .go, .check .go, .check .go] = some s ∧
      (∃ own, run step (Check.start [logd]) own = some s.check) ∧
      ∀ i, s.check.pc = .find i → ∀ looks, (watchStep s (.search looks)).isSome := by
  have hreached : ∃ s, run watchStep (Watch.start [logd] 100)
      [.check .go, .check .go, .check .go] = some s := ⟨_, rfl⟩
  obtain ⟨s, hrun⟩ := hreached
  exact ⟨s, hrun, watch_fits_check hrun⟩

/-- A round in which five searches find the zombie. -/
def zombieLabels : List WatchLabel :=
  [.check .go, .check .go, .check .go, .search fun _ => zombieLook, .check .go,
    .search fun _ => zombieLook, .check .go, .search fun _ => zombieLook, .check .go,
    .search fun _ => zombieLook, .check .go, .search fun _ => zombieLook]

theorem zombieLabels_off :
    (run watchStep (Watch.start [logd] 100) zombieLabels).map (fun s => s.check.pc) =
      some (.off (.case1 0)) := by
  decide +kernel

/-- The one stat file names process 5 as the parent. -/
theorem zombieLook_parent : ZombiesHaveParent logd.name 5 zombieLook := by
  intro pid content line hfile hscan _ _
  have hcontent : statText 7 logd.name 'Z' 5 [] = content := by
    simp only [zombieLook] at hfile
    split at hfile
    · exact Option.some.inj hfile
    · cases hfile
  have hline : scanStat (statText 7 logd.name 'Z' 5 []) = some ⟨7, logd.name, 'Z', 5⟩ :=
    scanStat_statText 7 5 (by decide) (by decide) (by decide) []
  rw [hcontent, hscan] at hline
  cases hline
  rfl

theorem zombieLabels_run : ∃ s, ZombieRun [logd] 100 zombieLabels s 0 logd 5 := by
  obtain ⟨s, hrun, hoff⟩ := Option.map_eq_some_iff.mp zombieLabels_off
  refine ⟨s, hrun, hoff, rfl, fun looks hlooks k => ?_, by decide⟩
  have hsame : looks = fun _ => zombieLook := by
    simpa [zombieLabels] using hlooks
  rw [hsame]
  exact zombieLook_parent

/-- The device is powered off and the parent was not killed. -/
theorem parentKilled_violated :
    ¬ ∀ progInfo pidMon labels s i prog parent,
      ZombieRun progInfo pidMon labels s i prog parent → KilledInTime s parent := by
  intro hclaim
  obtain ⟨s, hzombies⟩ := zombieLabels_run
  exact (neverKilled_run hzombies.reached).not_killedInTime 5 (hclaim _ _ _ _ _ _ _ hzombies)

theorem parent_never_killed_logd :
    ∃ s, ZombieRun [logd] 100 zombieLabels s 0 logd 5 ∧ ¬ KilledInTime s 5 := by
  obtain ⟨s, hzombies⟩ := zombieLabels_run
  exact ⟨s, hzombies, parent_never_killed hzombies.reached 5⟩

end MdsFormal.Mon.ZombieParent
