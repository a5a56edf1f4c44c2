import MdsFormal.Library.LabelledRun
import MdsFormal.Mon.CheckProg

/-!
# The probe loop of one program

`while(chkcnt--)` searches for one program until it is found, ten searches in a
row report nothing, or the fifth zombie powers the device off.  Each zombie sets
`chkcnt` back to 10, so what decreases is ten times the zombies still allowed
plus `chkcnt`.
-/

namespace MdsFormal.Mon.ProbeLoop

open Library.LabelledRun ProgStart CheckProg

variable {i : Nat} {s : Check}

/-- The labels of `n` turns of the loop whose searches have the results from number `k` on. -/
def probeLabels (res : Nat → Int) (k : Nat) : Nat → List Label
  | 0 => []
  | n + 1 => .go :: .found (res k) :: probeLabels res (k + 1) n

/-- The three ways out of the loop. -/
inductive Outcome where
  | found
  | relaunched
  | poweredOff
  deriving DecidableEq

/-- The step that leaves the loop: `chkcnt` is tested once more when it ran out. -/
def Outcome.exit : Outcome → List Label
  | .relaunched => [.go]
  | .found | .poweredOff => []

/-- The last of the first `n` results. -/
def LastIs (res : Nat → Int) (n : Nat) (accepts : Int → Prop) : Prop :=
  ∃ k, n = k + 1 ∧ accepts (res k)

/-- What the first `n` results have to be for the outcome, and how the function goes on:
without a launch, with nothing but a launch, or not at all. -/
def Outcome.Justified (i : Nat) (res : Nat → Int) (n : Nat) (final : Check) : Outcome → Prop
  | .found =>
      LastIs res n (fun last => 0 < last ∧
        ∃ prog, final.progInfo[i]? = some prog ∧ prog.curNumThread = last) ∧
      final.pc = .relaunch i ∧ ∀ attempt, step final (.launched attempt) = none
  | .relaunched =>
      (10 ≤ n ∧ ∀ k < n, n ≤ k + 10 → res k = -1) ∧
      final.pc = .relaunch i ∧ ∀ label next, step final label = some next →
        ∃ attempt, label = .launched attempt
  | .poweredOff =>
      LastIs res n (· = -2) ∧ ((List.range n).map res).count (-2) = 5 ∧
      final.pc = .off (.case1 i) ∧ ∀ label, step final label = none

/-- The loop that program `i` enters in `s` ends after `n` searches in `final`. -/
structure EndsAfter (s : Check) (i : Nat) (res : Nat → Int) (n : Nat) (outcome : Outcome)
    (final : Check) : Prop where
  ran : run step s (.go :: (probeLabels res 0 n ++ outcome.exit)) = some final
  justified : outcome.Justified i res n final

/-! ## How the function goes on -/

theorem not_launched (hpc : s.pc = .relaunch i) (hfail : s.foundFail = false)
    (attempt : Attempt) : step s (.launched attempt) = none := by
  simp only [step, hpc, hfail]
  rfl

theorem only_launched (hpc : s.pc = .relaunch i) (hfail : s.foundFail = true) {label : Label}
    {next : Check} (hstep : step s label = some next) : ∃ attempt, label = .launched attempt := by
  cases label with
  | launched attempt => exact ⟨attempt, rfl⟩
  | go =>
      simp only [step, Check.go, hpc, hfail] at hstep
      cases hstep
  | found result =>
      simp only [step, hpc] at hstep
      cases hstep
  | access present =>
      simp only [step, hpc] at hstep
      cases hstep

theorem step_off {cause : PowerOff} (hpc : s.pc = .off cause) (label : Label) :
    step s label = none := by
  cases label <;> simp only [step, Check.go, hpc]

/-! ## One turn of the loop -/

/-- The test of `chkcnt` and the search behind it. -/
def probe (s : Check) (i : Nat) (res : Int) : Check :=
  ((s.testLoop i).record i res).afterFind i res

theorem run_probe (hpc : s.pc = .test i) (hleft : s.chkcnt ≠ 0) {res : Int}
    (hres : ProcFound res) (rest : List Label) :
    run step s (.go :: .found res :: rest) = run step (probe s i res) rest := by
  have hgo : step s .go = some (s.testLoop i) := by
    simp only [step, Check.go, hpc]
  have hpc' : (s.testLoop i).pc = .find i := by
    rw [Check.testLoop, if_neg hleft]
  have hfound : step (s.testLoop i) (.found res) = some (probe s i res) := by
    simp only [step, hpc', if_pos hres]
    rfl
  rw [run, hgo, Option.bind_some, run, hfound, Option.bind_some]

/-- The loop is entered by a program that is monitored. -/
theorem run_enterProgram (hpc : s.pc = .program i) {prog : ProgInfo}
    (hprog : s.progInfo[i]? = some prog) (hchk : prog.chkProcess = true) (rest : List Label) :
    run step s (.go :: rest) =
      run step { s with foundFail := true, zombiecnt := 0, chkcnt := 10, pc := .test i } rest := by
  have hgo : step s .go =
      some { s with foundFail := true, zombiecnt := 0, chkcnt := 10, pc := .test i } := by
    simp only [step, Check.go, hpc, Check.enterProgram, hprog, hchk, if_true]
  rw [run, hgo, Option.bind_some]

/--
The loop stands at its test after `k` searches: the results since `chkcnt` was
last set to 10 were all -1, and `zombies` of them were -2 before.
-/
structure AtTest (i : Nat) (res : Nat → Int) (k left zombies : Nat) (s : Check) : Prop where
  pc : s.pc = .test i
  foundFail : s.foundFail = true
  present : i < s.progInfo.length
  chkcnt : s.chkcnt = left
  zombiecnt : s.zombiecnt = zombies
  few : zombies < 5
  counted : ((List.range k).map res).count (-2) = zombies
  within : left ≤ 10 ∧ 10 ≤ left + k
  failing : ∀ j < k, k + left ≤ j + 10 → res j = -1

theorem count_succ (res : Nat → Int) (k : Nat) :
    ((List.range (k + 1)).map res).count (-2) =
      ((List.range k).map res).count (-2) + if res k = -2 then 1 else 0 := by
  rw [List.range_succ, List.map_append, List.count_append]
  simp [List.count_singleton]

variable {res : Nat → Int} {k left zombies : Nat}

@[simp]
theorem length_setCurNumThread (s : Check) (i : Nat) (num : Int) :
    (s.setCurNumThread i num).progInfo.length = s.progInfo.length := by
  simp [Check.setCurNumThread]

theorem AtTest.chkcnt_ne_zero (hs : AtTest i res k (left + 1) zombies s) : s.chkcnt ≠ 0 := by
  rw [hs.chkcnt]
  omega

/-- The locals of the loop while its search runs. -/
theorem AtTest.searching (hs : AtTest i res k (left + 1) zombies s) (result : Int) :
    ((s.testLoop i).record i result).foundFail = true ∧
      ((s.testLoop i).record i result).chkcnt = left ∧
      ((s.testLoop i).record i result).zombiecnt = zombies ∧
      i < ((s.testLoop i).record i result).progInfo.length := by
  rw [Check.testLoop, if_neg hs.chkcnt_ne_zero]
  refine ⟨hs.foundFail, ?_, hs.zombiecnt, ?_⟩
  · simp [Check.record, hs.chkcnt]
  · simpa [Check.record, Check.setCurNumThread] using hs.present

/-- Nothing was found: one test fewer is left. -/
theorem AtTest.probe_missing (hs : AtTest i res k (left + 1) zombies s) (hres : res k = -1) :
    AtTest i res (k + 1) left zombies (probe s i (res k)) := by
  obtain ⟨-, hchkcnt, hzombiecnt, hpresent⟩ := hs.searching (res k)
  have hwithin := hs.within
  have hprobe : probe s i (res k) =
      { (s.testLoop i).record i (res k) with
        foundFailApps := true, foundFail := true, pc := .test i } :=
    if_pos hres
  rw [hprobe]
  refine ⟨rfl, rfl, hpresent, hchkcnt, hzombiecnt, hs.few, ?_, by omega, ?_⟩
  · rw [count_succ, hs.counted, hres]
    rfl
  · intro j hj hrecent
    rcases Nat.lt_or_eq_of_le (Nat.le_of_lt_succ hj) with hlt | rfl
    · exact hs.failing j hlt (by omega)
    · exact hres

/-- A zombie before the fifth gives ten tests again. -/
theorem AtTest.probe_zombie (hs : AtTest i res k (left + 1) zombies s) (hres : res k = -2)
    (hfew : zombies + 1 < 5) :
    AtTest i res (k + 1) 10 (zombies + 1) (probe s i (res k)) := by
  obtain ⟨hfail, -, hzombiecnt, hpresent⟩ := hs.searching (res k)
  have hprobe : probe s i (res k) =
      { (s.testLoop i).record i (res k) with
        foundFailApps := true
        zombiecnt := ((s.testLoop i).record i (res k)).zombiecnt + 1
        chkcnt := 10
        pc := .test i } := by
    rw [probe, Check.afterFind, hres, if_neg (by decide), if_pos rfl, if_neg]
    rw [← hres, hzombiecnt]
    omega
  rw [hprobe]
  refine ⟨rfl, hfail, hpresent, rfl, ?_, hfew, ?_, by omega, ?_⟩
  · change ((s.testLoop i).record i (res k)).zombiecnt + 1 = ((zombies + 1 : Nat) : Int)
    rw [hzombiecnt]
    rfl
  · rw [count_succ, hs.counted, hres]
    rfl
  · intro j hj hrecent
    omega

/-! ## The ways out -/

/-- The fifth zombie. -/
theorem AtTest.probe_off (hs : AtTest i res k (left + 1) zombies s) (hres : res k = -2)
    (hlast : zombies + 1 = 5) :
    Outcome.poweredOff.Justified i res (k + 1) (probe s i (res k)) := by
  obtain ⟨-, -, hzombiecnt, -⟩ := hs.searching (res k)
  have hpc : (probe s i (res k)).pc = .off (.case1 i) := by
    rw [probe, Check.afterFind, hres, if_neg (by decide), if_pos rfl, if_pos]
    rw [← hres, hzombiecnt]
    omega
  refine ⟨⟨k, rfl, hres⟩, ?_, hpc, step_off hpc⟩
  rw [count_succ, hs.counted, hres]
  exact hlast

/-- The program was found. -/
theorem AtTest.probe_found (hs : AtTest i res k (left + 1) zombies s) (hres : 0 < res k) :
    Outcome.found.Justified i res (k + 1) (probe s i (res k)) := by
  obtain ⟨-, -, -, hpresent⟩ := hs.searching (res k)
  have hprobe : probe s i (res k) =
      { ((s.testLoop i).record i (res k)).setCurNumThread i (res k) with
        foundFail := false, pc := .relaunch i } := by
    rw [probe, Check.afterFind, if_neg (by omega), if_neg (by omega)]
  rw [hprobe]
  refine ⟨⟨k, rfl, hres, ?_⟩, rfl, not_launched rfl rfl⟩
  simp only [Check.setCurNumThread, List.getElem?_modify_eq]
  rw [List.getElem?_eq_getElem hpresent]
  exact ⟨_, rfl, rfl⟩

/-- `chkcnt` ran out. -/
theorem AtTest.testLoop_relaunched (hs : AtTest i res k 0 zombies s) :
    Outcome.relaunched.Justified i res k (s.testLoop i) := by
  have hwithin := hs.within
  have hzero : s.chkcnt = 0 := hs.chkcnt
  rw [Check.testLoop, if_pos hzero]
  refine ⟨⟨by omega, ?_⟩, rfl, ?_⟩
  · intro j hj hrecent
    exact hs.failing j hj (by omega)
  · intro label next hnext
    have hfail : ({ s with chkcnt := s.chkcnt - 1, pc := .relaunch i } : Check).foundFail = true :=
      hs.foundFail
    exact only_launched (show _ = Pc.relaunch i from rfl) hfail hnext

theorem AtTest.run_exit (hs : AtTest i res k 0 zombies s) :
    run step s Outcome.relaunched.exit = some (s.testLoop i) := by
  simp only [Outcome.exit, run, step, Check.go, hs.pc, Option.bind_some]

/-- From its test the loop ends within the searches that the two counters allow. -/
theorem AtTest.ends (hs : AtTest i res k left zombies s) (hres : ∀ j, ProcFound (res j)) :
    ∃ n ≤ 10 * (4 - zombies) + left, ∃ (outcome : Outcome) (final : Check),
      run step s (probeLabels res k n ++ outcome.exit) = some final ∧
        outcome.Justified i res (k + n) final := by
  induction hmeasure : 10 * (4 - zombies) + left using Nat.strongRecOn
    generalizing k left zombies s with
  | ind measure ih =>
      cases left with
      | zero =>
          exact ⟨0, Nat.zero_le _, .relaunched, s.testLoop i, hs.run_exit,
            hs.testLoop_relaunched⟩
      | succ left =>
          have hturn := run_probe hs.pc hs.chkcnt_ne_zero (hres k)
          have hfew := hs.few
          rcases hres k with hmissing | hzombie | hfound
          · obtain ⟨n, hn, outcome, final, hrun, hjust⟩ :=
              ih _ (by omega) (hs.probe_missing hmissing) rfl
            rw [Nat.add_right_comm, Nat.add_assoc] at hjust
            exact ⟨n + 1, by omega, outcome, final, (hturn _).trans hrun, hjust⟩
          · by_cases hmore : zombies + 1 < 5
            · obtain ⟨n, hn, outcome, final, hrun, hjust⟩ :=
                ih _ (by omega) (hs.probe_zombie hzombie hmore) rfl
              rw [Nat.add_right_comm, Nat.add_assoc] at hjust
              exact ⟨n + 1, by omega, outcome, final, (hturn _).trans hrun, hjust⟩
            · exact ⟨1, by omega, .poweredOff, _, hturn [], hs.probe_off hzombie (by omega)⟩
          · exact ⟨1, by omega, .found, _, hturn [], hs.probe_found hfound⟩

/-! ## Only one way out -/

theorem probeLabels_add (res : Nat → Int) (k n m : Nat) :
    probeLabels res k (n + m) = probeLabels res k n ++ probeLabels res (k + n) m := by
  induction n generalizing k with
  | zero => simp [probeLabels]
  | succ n ih =>
      rw [Nat.add_right_comm, probeLabels, probeLabels, ih, Nat.add_right_comm k 1 n]
      rfl

/-- A step that is followed by a search has come to the search. -/
theorem pc_of_found {label : Label} {result : Int} {final : Check} {rest : List Label}
    (hrun : run step s (label :: .found result :: rest) = some final) :
    ∃ next j, step s label = some next ∧ next.pc = .find j := by
  obtain ⟨next, hnext, hrest⟩ := Option.bind_eq_some_iff.mp hrun
  obtain ⟨after, hafter, -⟩ := Option.bind_eq_some_iff.mp hrest
  obtain ⟨j, hpc, -⟩ := step_found hafter
  exact ⟨next, j, hnext, hpc⟩

/-- After the loop has ended there is no further turn of it. -/
theorem Outcome.Justified.no_turn {outcome : Outcome} {n : Nat} {middle final next : Check}
    {j : Nat} (hjust : outcome.Justified i res n final)
    (hexit : run step middle outcome.exit = some final) (hgo : step middle .go = some next)
    (hpc : next.pc = .find j) : False := by
  cases outcome with
  | found =>
      obtain ⟨-, hrelaunch, -⟩ := hjust
      cases hexit
      simp only [step, Check.go, hrelaunch] at hgo
      split at hgo
      · cases hgo
      · cases hgo
        cases hpc
  | relaunched =>
      obtain ⟨-, hrelaunch, -⟩ := hjust
      rw [Outcome.exit, run, hgo] at hexit
      cases hexit
      rw [hrelaunch] at hpc
      cases hpc
  | poweredOff =>
      obtain ⟨-, -, -, hoff⟩ := hjust
      cases hexit
      rw [hoff .go] at hgo
      cases hgo

theorem EndsAfter.not_lt {n m : Nat} {outcome other : Outcome} {final last : Check}
    (hends : EndsAfter s i res n outcome final) (hother : EndsAfter s i res m other last) :
    ¬ n < m := by
  intro hlt
  obtain ⟨extra, rfl⟩ : ∃ extra, m = n + (extra + 1) := ⟨m - n - 1, by omega⟩
  have hran := hends.ran
  have hran' := hother.ran
  rw [← List.cons_append, run_append] at hran
  rw [probeLabels_add, List.append_assoc, ← List.cons_append, run_append] at hran'
  obtain ⟨middle, hmiddle, hexit⟩ := Option.bind_eq_some_iff.mp hran
  rw [hmiddle, Option.bind_some] at hran'
  obtain ⟨next, j, hgo, hpc⟩ := pc_of_found hran'
  exact hends.justified.no_turn hexit hgo hpc

/-- The result that ends the loop. -/
def Outcome.Last : Outcome → Int → Prop
  | .found, last => 0 < last
  | .relaunched, last => last = -1
  | .poweredOff, last => last = -2

theorem Outcome.Last.unique {outcome other : Outcome} {last : Int} (hlast : outcome.Last last)
    (hother : other.Last last) : outcome = other := by
  cases outcome <;> cases other <;> simp only [Outcome.Last] at hlast hother <;>
    first | rfl | omega

theorem Outcome.Justified.last {outcome : Outcome} {n : Nat} {final : Check}
    (hjust : outcome.Justified i res n final) : LastIs res n outcome.Last := by
  cases outcome with
  | found =>
      obtain ⟨⟨k, hk, hpos, -⟩, -⟩ := hjust
      exact ⟨k, hk, hpos⟩
  | relaunched =>
      obtain ⟨⟨hten, hall⟩, -⟩ := hjust
      exact ⟨n - 1, by omega, hall (n - 1) (by omega) (by omega)⟩
  | poweredOff => exact hjust.1

/-- The loop does not end twice, or in two ways. -/
theorem EndsAfter.unique {n m : Nat} {outcome other : Outcome} {final last : Check}
    (hends : EndsAfter s i res n outcome final) (hother : EndsAfter s i res m other last) :
    m = n ∧ other = outcome ∧ last = final := by
  obtain rfl : m = n :=
    Nat.le_antisymm (Nat.not_lt.mp (hends.not_lt hother)) (Nat.not_lt.mp (hother.not_lt hends))
  obtain ⟨k, rfl, hlast⟩ := hends.justified.last
  obtain ⟨k', hk, hlast'⟩ := hother.justified.last
  cases hk
  obtain rfl := hlast'.unique hlast
  exact ⟨rfl, rfl, Option.some.inj (hother.ran.symm.trans hends.ran)⟩

/--
Whatever the searches return, the loop of a monitored program ends after at most
fifty of them, in one of its three ways and in no other.
-/
theorem probeLoop_ends (hpc : s.pc = .program i) {prog : ProgInfo}
    (hprog : s.progInfo[i]? = some prog) (hchk : prog.chkProcess = true)
    (hres : ∀ k, ProcFound (res k)) :
    ∃ n outcome final, n ≤ 50 ∧ EndsAfter s i res n outcome final ∧
      ∀ m other last, EndsAfter s i res m other last →
        m = n ∧ other = outcome ∧ last = final := by
  have hstart : AtTest i res 0 10 0
      { s with foundFail := true, zombiecnt := 0, chkcnt := 10, pc := .test i } := by
    obtain ⟨hlt, -⟩ := List.getElem?_eq_some_iff.mp hprog
    refine ⟨rfl, rfl, hlt, rfl, rfl, by decide, rfl, by decide, ?_⟩
    intro j hj
    exact absurd hj (Nat.not_lt_zero j)
  obtain ⟨n, hn, outcome, final, hrun, hjust⟩ := hstart.ends hres
  rw [Nat.zero_add] at hjust
  have hends : EndsAfter s i res n outcome final :=
    ⟨(run_enterProgram hpc hprog hchk _).trans hrun, hjust⟩
  exact ⟨n, outcome, final, hn, hends, fun m other last hother => hends.unique hother⟩

/-- Searches that never find anything. -/
theorem probeLoop_ends_missing :
    ∃ n outcome final, n ≤ 50 ∧
      EndsAfter { Check.start [⟨['d', 'm'], [47], true, true, 2, 0⟩] with pc := .program 0 } 0
        (fun _ => -1) n outcome final ∧
      ∀ m other last,
        EndsAfter { Check.start [⟨['d', 'm'], [47], true, true, 2, 0⟩] with pc := .program 0 } 0
          (fun _ => -1) m other last →
        m = n ∧ other = outcome ∧ last = final :=
  probeLoop_ends rfl rfl rfl (fun _ => Or.inl rfl)

end MdsFormal.Mon.ProbeLoop
