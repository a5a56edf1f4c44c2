import MdsFormal.Library.LabelledRun
import MdsFormal.Mon.CheckProg

/-!
# Power-off only for cause

Every power-off of `check_prog` is explained by the searches of its own round.  What
carries the proof is an invariant at each place of the function: a program that is done
with was found at its first search of the round, unless `found_fail_apps` is set, and
`zombiecnt` counts the zombies reported in the round for the program being searched.
-/

namespace MdsFormal.Mon.PowerOff

open Library.LabelledRun ProgStart CheckProg

/-! ## What a power-off should mean -/

def Monitored (s : Check) (i : Nat) : Prop :=
  ∃ prog, s.progInfo[i]? = some prog ∧ prog.chkProcess = true

/-- The round's last search for program `i` is its fifth that reports a zombie. -/
def FifthZombie (s : Check) (i : Nat) : Prop :=
  Monitored s i ∧ (s.probes i).count (-2) = 5 ∧ (s.probes i).getLast? = some (-2)

/-- The round's first search found every monitored program. -/
def AllFound (s : Check) : Prop :=
  ∀ i, Monitored s i → ∃ res, 0 < res ∧ (s.probes i).head? = some res

/-- The round found fewer instances of a monitored program than it should have. -/
def TooFew (s : Check) : Prop :=
  ∃ i prog res, s.progInfo[i]? = some prog ∧ prog.chkProcess = true ∧ prog.numThread ≠ 0 ∧
    (s.probes i).getLast? = some res ∧ res < prog.numThread

/-- A step that powers the device off has one of the two causes. -/
def PowersOffForCause (s : Check) (label : Label) : Prop :=
  ∀ next cause, step s label = some next → next.pc = .off cause →
    match cause with
    | .case1 i => FifthZombie next i
    | .case2 _ => AllFound s ∧ TooFew s ∧ label = .access false

/-! ## The invariant -/

/-- The one search for program `i` in this round found it. -/
def FoundAtOnce (s : Check) (i : Nat) : Prop :=
  ∃ prog, s.progInfo[i]? = some prog ∧ 0 < prog.curNumThread ∧ s.probes i = [prog.curNumThread]

/-- The programs before number `n` were found, or the round has a failure. -/
def Settled (s : Check) (n : Nat) : Prop :=
  ∀ i < n, Monitored s i → s.foundFailApps = true ∨ FoundAtOnce s i

/-- No search of the round was for program `n` or a later one. -/
def Untouched (s : Check) (n : Nat) : Prop := ∀ i, n ≤ i → s.probes i = []

/-- Program `i` is being searched, so far without a result other than failures. -/
structure Probing (s : Check) (i : Nat) : Prop where
  monitored : Monitored s i
  zombies : s.zombiecnt = (s.probes i).count (-2)
  few : s.zombiecnt < 5
  failing : s.probes i = [] ∨ s.foundFailApps = true

/-- What holds at each place of the function. -/
def Inv (s : Check) : Prop :=
  match s.pc with
  | .sleep | .off _ => True
  | .program i => Settled s i ∧ Untouched s i
  | .test i =>
      Settled s i ∧ Untouched s (i + 1) ∧ Probing s i ∧ (s.probes i = [] → s.chkcnt = 10)
  | .find i => Settled s i ∧ Untouched s (i + 1) ∧ Probing s i
  | .relaunch i => Settled s (i + 1) ∧ Untouched s (i + 1)
  | .tally => Settled s s.progInfo.length
  | .compare _ => Settled s s.progInfo.length ∧ s.foundFailApps = false
  | .nomon i =>
      Settled s s.progInfo.length ∧ s.foundFailApps = false ∧
        ∃ prog, s.progInfo[i]? = some prog ∧ prog.chkProcess = true ∧ prog.numThread ≠ 0 ∧
          prog.curNumThread < prog.numThread

/-! ## Frame lemmas -/

section

variable {s s' : Check} {i j n : Nat} {num res : Int}

theorem setCurNumThread_getElem? (hne : j ≠ i) :
    (s.setCurNumThread i num).progInfo[j]? = s.progInfo[j]? := by
  simp [Check.setCurNumThread, Ne.symm hne]

theorem setCurNumThread_getElem?_self :
    (s.setCurNumThread i num).progInfo[i]? =
      s.progInfo[i]?.map fun prog => { prog with curNumThread := num } := by
  simp [Check.setCurNumThread]

@[simp]
theorem monitored_setCurNumThread :
    Monitored (s.setCurNumThread i num) j ↔ Monitored s j := by
  rcases eq_or_ne j i with rfl | hne
  · simp [Monitored, setCurNumThread_getElem?_self]
  · simp [Monitored, setCurNumThread_getElem? hne]

/-- A program's being settled depends on its entry, its searches and the failure flag. -/
theorem Settled.congr (hs : Settled s n) (hprog : ∀ j < n, s'.progInfo[j]? = s.progInfo[j]?)
    (hprobes : ∀ j < n, s'.probes j = s.probes j)
    (hfail : s.foundFailApps = true → s'.foundFailApps = true) : Settled s' n := by
  intro j hj hmon
  unfold Monitored FoundAtOnce at *
  rw [hprog j hj] at hmon ⊢
  rw [hprobes j hj]
  exact (hs j hj hmon).imp_left hfail

/-- With the failure flag set nothing else is asked of the programs. -/
theorem Settled.of_fail (hfail : s.foundFailApps = true) : Settled s n :=
  fun _ _ _ => Or.inl hfail

theorem Settled.succ (hs : Settled s n)
    (hlast : Monitored s n → s.foundFailApps = true ∨ FoundAtOnce s n) : Settled s (n + 1) := by
  intro j hj hmon
  rcases Nat.lt_or_eq_of_le (Nat.le_of_lt_succ hj) with hlt | rfl
  · exact hs j hlt hmon
  · exact hlast hmon

theorem Settled.foundAtOnce (hs : Settled s s.progInfo.length) (hfail : s.foundFailApps = false)
    (hmon : Monitored s i) : FoundAtOnce s i := by
  obtain ⟨prog, hprog, hchk⟩ := hmon
  obtain ⟨hi, -⟩ := List.getElem?_eq_some_iff.mp hprog
  rcases hs i hi ⟨prog, hprog, hchk⟩ with hset | hfound
  · rw [hfail] at hset
    exact Bool.noConfusion hset
  · exact hfound

theorem Untouched.succ (hs : Untouched s n) : Untouched s (n + 1) :=
  fun j hj => hs j (Nat.le_of_succ_le hj)

/-! ## The steps of the function itself -/

theorem inv_enterProgram (hsettled : Settled s i) (hfresh : Untouched s i) :
    Inv (s.enterProgram i) := by
  unfold Check.enterProgram
  cases hprog : s.progInfo[i]? with
  | none =>
      have hlen : s.progInfo.length ≤ i := List.getElem?_eq_none_iff.mp hprog
      exact fun j hj => hsettled j (Nat.lt_of_lt_of_le hj hlen)
  | some prog =>
      cases hchk : prog.chkProcess with
      | true =>
          simp only [hchk, if_true]
          refine ⟨hsettled, hfresh.succ, ⟨⟨prog, hprog, hchk⟩, ?_, ?_, Or.inl ?_⟩, fun _ => rfl⟩
          · simp [hfresh i (Nat.le_refl i)]
          · simp
          · exact hfresh i (Nat.le_refl i)
      | false =>
          simp only [hchk, Bool.false_eq_true, if_false]
          refine ⟨Settled.succ hsettled ?_, hfresh.succ⟩
          rintro ⟨other, hother, hmon⟩
          cases hprog.symm.trans hother
          rw [hchk] at hmon
          exact Bool.noConfusion hmon

theorem inv_testLoop (hsettled : Settled s i) (hfresh : Untouched s (i + 1))
    (hprobing : Probing s i) (hcnt : s.probes i = [] → s.chkcnt = 10) : Inv (s.testLoop i) := by
  unfold Check.testLoop
  rcases eq_or_ne s.chkcnt 0 with hzero | hmore
  · rw [if_pos hzero]
    have hfail : s.foundFailApps = true := by
      rcases hprobing.failing with hnone | hfail
      · have hten := hcnt hnone
        omega
      · exact hfail
    exact ⟨Settled.of_fail hfail, hfresh⟩
  · rw [if_neg hmore]
    refine ⟨hsettled.congr (fun j hj => ?_) (fun _ _ => rfl) id, hfresh, ?_⟩
    · exact setCurNumThread_getElem? (Nat.ne_of_lt hj)
    · exact ⟨monitored_setCurNumThread.mpr hprobing.monitored, hprobing.zombies, hprobing.few,
        hprobing.failing⟩

theorem inv_compareProgram (hsettled : Settled s s.progInfo.length)
    (hfail : s.foundFailApps = false) : Inv (s.compareProgram i) := by
  unfold Check.compareProgram
  cases hprog : s.progInfo[i]? with
  | none => trivial
  | some prog =>
      cases hchk : prog.chkProcess with
      | false =>
          simp only [hchk, if_true]
          exact ⟨hsettled, hfail⟩
      | true =>
          simp only [hchk, Bool.true_eq_false, if_false]
          rcases eq_or_ne prog.numThread 0 with hnum | hnum
          · simp only [hnum, if_true]
            exact ⟨hsettled, hfail⟩
          · rcases Int.lt_or_le prog.curNumThread prog.numThread with hfew | henough
            · simp only [hnum, if_false, Int.not_le.mpr hfew]
              exact ⟨hsettled, hfail, prog, hprog, hchk, hnum, hfew⟩
            · simp only [hnum, if_false, henough, if_true]
              exact ⟨hsettled, hfail⟩

theorem inv_go (hinv : Inv s) (hgo : s.go = some s') : Inv s' := by
  unfold Check.go at hgo
  unfold Inv at hinv
  split at hgo
  all_goals rename_i hpc; rw [hpc] at hinv
  · cases hgo
    exact ⟨fun _ hj => absurd hj (Nat.not_lt_zero _), fun _ _ => rfl⟩
  · cases hgo
    exact inv_enterProgram hinv.1 hinv.2
  · cases hgo
    exact inv_testLoop hinv.1 hinv.2.1 hinv.2.2.1 hinv.2.2.2
  · split at hgo
    · cases hgo
    · cases hgo
      exact hinv
  · cases hgo
    rcases Bool.eq_false_or_eq_true s.foundFailApps with hfail | hfail
    · simp only [hfail, if_true]
      trivial
    · simp only [hfail, Bool.false_eq_true, if_false]
      exact ⟨Settled.congr hinv (fun _ _ => rfl) (fun _ _ => rfl) fun h => hfail ▸ h, rfl⟩
  · cases hgo
    exact inv_compareProgram hinv.1 hinv.2
  all_goals cases hgo

/-! ## The search -/

theorem record_probes_self : (s.record i res).probes i = s.probes i ++ [res] :=
  Function.update_self i _ s.probes

@[simp]
theorem record_zombiecnt : (s.record i res).zombiecnt = s.zombiecnt := rfl

theorem record_probes (hne : j ≠ i) : (s.record i res).probes j = s.probes j :=
  Function.update_of_ne hne _ s.probes

theorem Untouched.record (hs : Untouched s (i + 1)) : Untouched (s.record i res) (i + 1) := by
  intro j hj
  rw [record_probes (Nat.ne_of_gt hj)]
  exact hs j hj

/-- A search that finds the program ends its part of the round. -/
theorem inv_afterFind_found (hsettled : Settled s i) (hfresh : Untouched s (i + 1))
    (hprobing : Probing s i) (hres : 0 < res) : Inv ((s.record i res).afterFind i res) := by
  have hone : res ≠ -1 := by omega
  have htwo : res ≠ -2 := by omega
  unfold Check.afterFind
  rw [if_neg hone, if_neg htwo]
  refine ⟨Settled.succ ?_ fun _ => ?_, hfresh.record⟩
  · refine hsettled.congr (fun j hj => ?_) (fun j hj => record_probes (Nat.ne_of_lt hj)) id
    exact setCurNumThread_getElem? (Nat.ne_of_lt hj)
  · rcases hprobing.failing with hnone | hfail
    · right
      obtain ⟨prog, hprog, -⟩ := hprobing.monitored
      refine ⟨{ prog with curNumThread := res }, ?_, hres, ?_⟩
      · refine (setCurNumThread_getElem?_self (s := s.record i res)).trans ?_
        exact congrArg (Option.map _) hprog
      · refine record_probes_self.trans ?_
        rw [hnone]
        rfl
    · exact Or.inl hfail

/-- A search that does not find the program is made again. -/
theorem inv_afterFind_missing (hfresh : Untouched s (i + 1)) (hprobing : Probing s i) :
    Inv ((s.record i (-1)).afterFind i (-1)) := by
  unfold Check.afterFind
  rw [if_pos rfl]
  refine ⟨Settled.of_fail rfl, hfresh.record, ⟨hprobing.monitored, ?_, hprobing.few, Or.inr rfl⟩,
    fun hnone => ?_⟩
  · refine hprobing.zombies.trans ?_
    simp [record_probes_self]
  · have hsome := record_probes_self.symm.trans hnone
    simp at hsome

/-- The zombie of a search is counted. -/
theorem zombies_record (hprobing : Probing s i) :
    s.zombiecnt + 1 = ((s.record i (-2)).probes i).count (-2) := by
  rw [record_probes_self, List.count_append, hprobing.zombies]
  rfl

/-- A search that finds a zombie is made again, unless it is the fifth. -/
theorem inv_afterFind_zombie (hfresh : Untouched s (i + 1)) (hprobing : Probing s i) :
    Inv ((s.record i (-2)).afterFind i (-2)) := by
  unfold Check.afterFind
  rw [if_neg (by decide), if_pos rfl, record_zombiecnt]
  rcases Int.lt_or_le (s.zombiecnt + 1) 5 with hfew | hfive
  · rw [if_neg (Int.not_le.mpr hfew)]
    exact ⟨Settled.of_fail rfl, hfresh.record,
      ⟨hprobing.monitored, zombies_record hprobing, hfew, Or.inr rfl⟩, fun _ => rfl⟩
  · rw [if_pos hfive]
    trivial

/-- Only the fifth zombie of a program powers the device off. -/
theorem fifthZombie_of_off {cause : PowerOff} (hprobing : Probing s i)
    (hoff : ((s.record i res).afterFind i res).pc = .off cause) :
    cause = .case1 i ∧ FifthZombie ((s.record i res).afterFind i res) i := by
  unfold Check.afterFind at hoff ⊢
  rcases eq_or_ne res (-1) with rfl | hone
  · rw [if_pos rfl] at hoff
    cases hoff
  rcases eq_or_ne res (-2) with rfl | htwo
  · rw [if_neg hone, if_pos rfl, record_zombiecnt] at hoff ⊢
    rcases Int.lt_or_le (s.zombiecnt + 1) 5 with hfew | hfive
    · rw [if_neg (Int.not_le.mpr hfew)] at hoff
      cases hoff
    · rw [if_pos hfive] at hoff ⊢
      cases hoff
      refine ⟨rfl, hprobing.monitored, ?_, ?_⟩
      · have hcount := zombies_record hprobing
        have hbelow := hprobing.few
        have hsum : ((s.record i (-2)).probes i).count (-2) = 5 := by omega
        exact hsum
      · refine (congrArg List.getLast? record_probes_self).trans ?_
        exact List.getLast?_concat
  · rw [if_neg hone, if_neg htwo] at hoff
    cases hoff

/-! ## Every step -/

theorem inv_step {label : Label} (hinv : Inv s) (hstep : step s label = some s') : Inv s' := by
  cases label with
  | go => exact inv_go hinv hstep
  | found res =>
      obtain ⟨i, hpc, hres, rfl⟩ := step_found hstep
      unfold Inv at hinv
      rw [hpc] at hinv
      obtain ⟨hsettled, hfresh, hprobing⟩ := hinv
      rcases hres with rfl | rfl | hpos
      · exact inv_afterFind_missing hfresh hprobing
      · exact inv_afterFind_zombie hfresh hprobing
      · exact inv_afterFind_found hsettled hfresh hprobing hpos
  | launched attempt =>
      obtain ⟨i, hpc, -, rfl⟩ := step_launched hstep
      unfold Inv at hinv
      rw [hpc] at hinv
      exact hinv
  | access present =>
      obtain ⟨i, hpc, rfl⟩ := step_access hstep
      unfold Inv at hinv
      rw [hpc] at hinv
      cases present with
      | false => trivial
      | true => exact ⟨hinv.1, hinv.2.1⟩

/-- No step of the function itself powers the device off. -/
theorem go_not_off {cause : PowerOff} (hgo : s.go = some s') : s'.pc ≠ .off cause := by
  intro hoff
  unfold Check.go at hgo
  split at hgo
  · cases hgo
    cases hoff
  · cases hgo
    unfold Check.enterProgram at hoff
    split at hoff
    · cases hoff
    · split at hoff <;> cases hoff
  · cases hgo
    unfold Check.testLoop at hoff
    split at hoff <;> cases hoff
  · split at hgo
    · cases hgo
    · cases hgo
      cases hoff
  · cases hgo
    split at hoff <;> cases hoff
  · cases hgo
    unfold Check.compareProgram at hoff
    split at hoff
    · cases hoff
    · repeat' split at hoff
      all_goals cases hoff
  all_goals cases hgo

/-- A round without a failure has found every monitored program at once. -/
theorem allFound_of_settled (hsettled : Settled s s.progInfo.length)
    (hfail : s.foundFailApps = false) : AllFound s := by
  intro i hmon
  obtain ⟨prog, -, hpos, hprobes⟩ := hsettled.foundAtOnce hfail hmon
  refine ⟨prog.curNumThread, hpos, ?_⟩
  rw [hprobes]
  rfl

theorem powersOffForCause_of_inv {label : Label} (hinv : Inv s) : PowersOffForCause s label := by
  intro next cause hstep hoff
  cases label with
  | go => exact absurd hoff (go_not_off hstep)
  | found res =>
      obtain ⟨i, hpc, -, rfl⟩ := step_found hstep
      unfold Inv at hinv
      rw [hpc] at hinv
      obtain ⟨rfl, hfifth⟩ := fifthZombie_of_off hinv.2.2 hoff
      exact hfifth
  | launched attempt =>
      obtain ⟨i, -, -, rfl⟩ := step_launched hstep
      cases hoff
  | access present =>
      obtain ⟨i, hpc, rfl⟩ := step_access hstep
      unfold Inv at hinv
      rw [hpc] at hinv
      obtain ⟨hsettled, hfail, prog, hprog, hchk, hnum, hfew⟩ := hinv
      cases present with
      | true => cases hoff
      | false =>
          cases hoff
          obtain ⟨other, hother, -, hprobes⟩ := hsettled.foundAtOnce hfail ⟨prog, hprog, hchk⟩
          cases hprog.symm.trans hother
          refine ⟨allFound_of_settled hsettled hfail,
            ⟨i, prog, prog.curNumThread, hprog, hchk, hnum, ?_, hfew⟩, rfl⟩
          rw [hprobes]
          rfl

end

/-- In every run of the monitor's check, over any configuration and any number of rounds,
the device is powered off only for one of the two causes. -/
theorem checkProg_powersOffForCause (progInfo : List ProgInfo) (labels : List Label) :
    EachStep step PowersOffForCause (Check.start progInfo) labels :=
  eachStep_of_kept Inv (fun _ _ _ => inv_step) (fun _ _ => powersOffForCause_of_inv)
    (show Inv (Check.start progInfo) from trivial)

end MdsFormal.Mon.PowerOff
