import Mathlib.Data.Nat.Find
import MdsFormal.Mon.ProgStart

/-!
# When the monitor gives up

The counter `f_tmp` is 0 after the launch loop exactly when the last of the retries
succeeded; after a loop in which every launch failed it is -1.  The test behind the loop
gives up on 0.  The second part is about programs that are launched again although a
launch of theirs has succeeded.
-/

namespace MdsFormal.Mon.LaunchRetries

open Process.SystemFork ProgStart

/-! ## The launch loop -/

/-- No launch of program `i` succeeds. -/
def Exhausted (forkRetryCnt : Nat) (ret : Nat → Nat → Int) (i : Nat) : Prop :=
  ∀ k ≤ forkRetryCnt, ret i k = -1

/-- Only the last launch of program `i` succeeds. -/
def LastTry (forkRetryCnt : Nat) (ret : Nat → Nat → Int) (i : Nat) : Prop :=
  (∀ k < forkRetryCnt, ret i k = -1) ∧ ret i forkRetryCnt ≠ -1

/-- A launch of program `i` before the last one succeeds. -/
def EarlyTry (forkRetryCnt : Nat) (ret : Nat → Nat → Int) (i : Nat) : Prop :=
  ∃ k < forkRetryCnt, ret i k ≠ -1

/-- The attempts of a loop that fails `failures` times and then gets `ret`. -/
def failedThen (failures : Nat) (ret : Int) : List (Option Int) :=
  List.replicate failures (some (-1)) ++ [some ret]

theorem tryLoop_of_started {ret : Nat → Int} {k : Nat} (hstarted : ret k ≠ -1) (fTmp : Nat) :
    tryLoop (fun k => some (ret k)) fTmp k = ⟨failedThen 0 (ret k), some (fTmp : Int)⟩ := by
  rw [tryLoop]
  simp [hstarted, failedThen]

theorem tryLoop_zero_of_failed {ret : Nat → Int} {k : Nat} (hfailed : ret k = -1) :
    tryLoop (fun k => some (ret k)) 0 k = ⟨[some (-1)], some (-1)⟩ := by
  simp [tryLoop, hfailed]

theorem tryLoop_succ_of_failed {ret : Nat → Int} {k : Nat} (hfailed : ret k = -1) (fTmp : Nat) :
    tryLoop (fun k => some (ret k)) (fTmp + 1) k =
      (tryLoop (fun k => some (ret k)) fTmp (k + 1)).prepend (-1) := by
  rw [tryLoop]
  simp [hfailed]

/-- A loop ends with its first success, or with every try used up. -/
theorem tryLoop_cases (ret : Nat → Int) (fTmp k : Nat) :
    (∃ failures ≤ fTmp, (∀ j < failures, ret (k + j) = -1) ∧ ret (k + failures) ≠ -1 ∧
      tryLoop (fun k => some (ret k)) fTmp k =
        ⟨failedThen failures (ret (k + failures)), some ((fTmp - failures : Nat) : Int)⟩) ∨
    ((∀ j ≤ fTmp, ret (k + j) = -1) ∧
      tryLoop (fun k => some (ret k)) fTmp k =
        ⟨List.replicate (fTmp + 1) (some (-1)), some (-1)⟩) := by
  induction fTmp generalizing k with
  | zero =>
      rcases eq_or_ne (ret k) (-1) with hfailed | hstarted
      · refine .inr ⟨fun j hj => ?_, tryLoop_zero_of_failed hfailed⟩
        rw [Nat.le_zero.mp hj]
        exact hfailed
      · refine .inl ⟨0, Nat.le_refl 0, fun j hj => absurd hj (Nat.not_lt_zero j), hstarted, ?_⟩
        exact tryLoop_of_started hstarted 0
  | succ fTmp ih =>
      rcases eq_or_ne (ret k) (-1) with hfailed | hstarted
      · have hshift : ∀ j, ret (k + 1 + j) = ret (k + (j + 1)) := fun j => by
          rw [Nat.add_right_comm, Nat.add_assoc]
        rw [tryLoop_succ_of_failed hfailed]
        rcases ih (k + 1) with ⟨failures, hle, hbefore, hret, hrest⟩ | ⟨hall, hrest⟩
        · left
          refine ⟨failures + 1, Nat.succ_le_succ hle, fun j hj => ?_, ?_, ?_⟩
          · cases j with
            | zero => exact hfailed
            | succ j => exact hshift j ▸ hbefore j (Nat.lt_of_succ_lt_succ hj)
          · exact hshift failures ▸ hret
          · rw [hrest, hshift, Nat.succ_sub_succ]
            rfl
        · right
          refine ⟨fun j hj => ?_, ?_⟩
          · cases j with
            | zero => exact hfailed
            | succ j => exact hshift j ▸ hall j (Nat.le_of_succ_le_succ hj)
          · rw [hrest]
            rfl
      · refine .inl ⟨0, Nat.zero_le _, fun j hj => absurd hj (Nat.not_lt_zero j), hstarted, ?_⟩
        exact tryLoop_of_started hstarted (fTmp + 1)

section

variable {forkRetryCnt : Nat} {ret : Nat → Nat → Int} {i count : Nat}

/-- The launch loop of program `i`. -/
def tried (forkRetryCnt : Nat) (ret : Nat → Nat → Int) (i : Nat) : Tried :=
  tryLoop (fun k => some (ret i k)) forkRetryCnt 0

theorem tried_exhausted (hall : Exhausted forkRetryCnt ret i) :
    tried forkRetryCnt ret i =
      ⟨List.replicate (forkRetryCnt + 1) (some (-1)), some (-1)⟩ := by
  rcases tryLoop_cases (ret i) forkRetryCnt 0 with ⟨failures, hle, _, hret, _⟩ | ⟨_, hloop⟩
  · rw [Nat.zero_add] at hret
    exact absurd (hall failures hle) hret
  · exact hloop

/-- Unless every launch failed, the loop ends with one that did not. -/
theorem tried_started (hsome : ¬ Exhausted forkRetryCnt ret i) :
    ∃ failures ≤ forkRetryCnt, (∀ j < failures, ret i j = -1) ∧ ret i failures ≠ -1 ∧
      tried forkRetryCnt ret i =
        ⟨failedThen failures (ret i failures), some ((forkRetryCnt - failures : Nat) : Int)⟩ := by
  rcases tryLoop_cases (ret i) forkRetryCnt 0 with
    ⟨failures, hle, hbefore, hret, hloop⟩ | ⟨hall, _⟩
  · simp only [Nat.zero_add] at hbefore hret hloop
    exact ⟨failures, hle, hbefore, hret, hloop⟩
  · simp only [Nat.zero_add] at hall
    exact absurd hall hsome

/-- The counter is 0 exactly when the last launch was the first to succeed. -/
theorem tried_fTmp_eq_zero_iff :
    (tried forkRetryCnt ret i).fTmp = some 0 ↔ LastTry forkRetryCnt ret i := by
  by_cases hall : Exhausted forkRetryCnt ret i
  · rw [tried_exhausted hall]
    exact iff_of_false (by simp) fun hlast => hlast.2 (hall forkRetryCnt (Nat.le_refl _))
  · obtain ⟨failures, hle, hbefore, hret, hloop⟩ := tried_started hall
    rw [hloop, Option.some.injEq, Int.natCast_eq_zero, Nat.sub_eq_zero_iff_le]
    constructor
    · intro hge
      cases Nat.le_antisymm hle hge
      exact ⟨hbefore, hret⟩
    · intro hlast
      by_contra hlt
      exact hret (hlast.1 failures (Nat.lt_of_not_le hlt))

theorem tried_attempts_eq_iff :
    (tried forkRetryCnt ret i).attempts = List.replicate (forkRetryCnt + 1) (some (-1)) ↔
      Exhausted forkRetryCnt ret i := by
  constructor
  · intro hattempts
    by_contra hsome
    obtain ⟨failures, _, _, hret, hloop⟩ := tried_started hsome
    have hlast : (some (ret i failures) : Option Int) ∈ (tried forkRetryCnt ret i).attempts := by
      rw [hloop]
      exact List.mem_append_right _ List.mem_cons_self
    rw [hattempts] at hlast
    exact hret (Option.some.inj (List.eq_of_mem_replicate hlast))
  · intro hall
    rw [tried_exhausted hall]

theorem exists_fTmp (forkRetryCnt : Nat) (ret : Nat → Nat → Int) (i : Nat) :
    ∃ fTmp, (tried forkRetryCnt ret i).fTmp = some fTmp := by
  by_cases hall : Exhausted forkRetryCnt ret i
  · exact ⟨_, congrArg Tried.fTmp (tried_exhausted hall)⟩
  · obtain ⟨failures, _, _, _, hloop⟩ := tried_started hall
    exact ⟨_, congrArg Tried.fTmp hloop⟩

/-! ## The loop over the programs -/

theorem startFrom_next (hlast : ¬ LastTry forkRetryCnt ret i) :
    startFrom forkRetryCnt (fun i k => some (ret i k)) (count + 1) i =
      (startFrom forkRetryCnt (fun i k => some (ret i k)) count (i + 1)).prepend
        (tried forkRetryCnt ret i).attempts := by
  obtain ⟨fTmp, hfTmp⟩ := exists_fTmp forkRetryCnt ret i
  have hne : fTmp ≠ 0 := by
    rintro rfl
    exact hlast (tried_fTmp_eq_zero_iff.mp hfTmp)
  rw [tried] at hfTmp
  simp only [startFrom, hfTmp, hne, if_false]
  rfl

theorem startFrom_exit (hlast : LastTry forkRetryCnt ret i) :
    startFrom forkRetryCnt (fun i k => some (ret i k)) (count + 1) i =
      ⟨[(tried forkRetryCnt ret i).attempts], .exited⟩ := by
  have hfTmp := tried_fTmp_eq_zero_iff.mpr hlast
  rw [tried] at hfTmp
  simp only [startFrom, hfTmp, if_true]
  rfl

/-- Without a program that is started by its last launch, every program is come to. -/
theorem startFrom_alive (hnone : ∀ j < count, ¬ LastTry forkRetryCnt ret (i + j)) :
    startFrom forkRetryCnt (fun i k => some (ret i k)) count i =
      ⟨(List.range count).map fun j => (tried forkRetryCnt ret (i + j)).attempts, .alive⟩ := by
  induction count generalizing i with
  | zero => rfl
  | succ count ih =>
      have hrest : ∀ j < count, ¬ LastTry forkRetryCnt ret (i + 1 + j) := by
        intro j hj
        rw [Nat.add_assoc, Nat.add_comm 1]
        exact hnone (j + 1) (Nat.succ_lt_succ hj)
      have hhere : ¬ LastTry forkRetryCnt ret i := hnone 0 (Nat.succ_pos count)
      rw [startFrom_next hhere, ih hrest, List.range_succ_eq_map]
      simp [Started.prepend, Function.comp_def, Nat.add_assoc, Nat.add_comm 1]

/-- The first program that is started by its last launch is the last one come to. -/
theorem startFrom_exited {stop : Nat} (hstop : stop < count)
    (hlast : LastTry forkRetryCnt ret (i + stop))
    (hfirst : ∀ j < stop, ¬ LastTry forkRetryCnt ret (i + j)) :
    startFrom forkRetryCnt (fun i k => some (ret i k)) count i =
      ⟨(List.range (stop + 1)).map fun j => (tried forkRetryCnt ret (i + j)).attempts,
        .exited⟩ := by
  induction stop generalizing i count with
  | zero =>
      obtain ⟨count, rfl⟩ : ∃ n, count = n + 1 := ⟨count - 1, by omega⟩
      exact startFrom_exit hlast
  | succ stop ih =>
      obtain ⟨count, rfl⟩ : ∃ n, count = n + 1 := ⟨count - 1, by omega⟩
      have hrest : ∀ j < stop, ¬ LastTry forkRetryCnt ret (i + 1 + j) := by
        intro j hj
        rw [Nat.add_assoc, Nat.add_comm 1]
        exact hfirst (j + 1) (Nat.succ_lt_succ hj)
      have hlater : LastTry forkRetryCnt ret (i + 1 + stop) := by
        rwa [Nat.add_assoc, Nat.add_comm 1]
      have hhere : ¬ LastTry forkRetryCnt ret i := hfirst 0 (Nat.succ_pos stop)
      rw [startFrom_next hhere, ih (Nat.lt_of_succ_lt_succ hstop) hlater hrest,
        List.range_succ_eq_map (n := stop + 1)]
      simp [Started.prepend, Function.comp_def, Nat.add_assoc, Nat.add_comm 1]

/-- Among the attempts of the first `n` programs there is an exhausted loop. -/
theorem exhausted_mem_iff {n : Nat} :
    List.replicate (forkRetryCnt + 1) (some (-1)) ∈
        (List.range n).map (fun j => (tried forkRetryCnt ret j).attempts) ↔
      ∃ j < n, Exhausted forkRetryCnt ret j := by
  rw [List.mem_map]
  constructor
  · rintro ⟨j, hj, hattempts⟩
    exact ⟨j, List.mem_range.mp hj, tried_attempts_eq_iff.mp hattempts⟩
  · rintro ⟨j, hj, hall⟩
    exact ⟨j, List.mem_range.mpr hj, tried_attempts_eq_iff.mpr hall⟩

/-- A loop that is not exhausted ends with a launch that did not return -1. -/
theorem tried_ends_started (hsome : ¬ Exhausted forkRetryCnt ret i) :
    ∃ last, (tried forkRetryCnt ret i).attempts.getLast? = some (some last) ∧ last ≠ -1 := by
  obtain ⟨failures, _, _, hret, hloop⟩ := tried_started hsome
  refine ⟨ret i failures, ?_, hret⟩
  rw [hloop]
  exact List.getLast?_concat

/-- A program is exhausted, started by its last launch, or started by an earlier one. -/
theorem earlyTry_iff :
    EarlyTry forkRetryCnt ret i ↔
      ¬ LastTry forkRetryCnt ret i ∧ ¬ Exhausted forkRetryCnt ret i := by
  constructor
  · rintro ⟨k, hk, hstarted⟩
    exact ⟨fun hlast => hstarted (hlast.1 k hk), fun hall => hstarted (hall k (Nat.le_of_lt hk))⟩
  · rintro ⟨hlast, hall⟩
    by_contra hearly
    have hbefore : ∀ k < forkRetryCnt, ret i k = -1 := by
      intro k hk
      by_contra hstarted
      exact hearly ⟨k, hk, hstarted⟩
    refine hall fun k hk => ?_
    rcases Nat.lt_or_eq_of_le hk with hlt | rfl
    · exact hbefore k hlt
    · by_contra hstarted
      exact hlast ⟨hbefore, hstarted⟩

end

/-! ## Giving up -/

/-- `exit(1)` is reached exactly when a program's launches all returned -1; otherwise every
program ends with a launch that did not, and the alive command is run. -/
def GivesUpOnExhausted (prgCnt forkRetryCnt : Nat) (ret : Nat → Nat → Int) : Prop :=
  let started := progStart prgCnt forkRetryCnt fun i k => some (ret i k)
  let exhausted := List.replicate (forkRetryCnt + 1) (some (-1)) ∈ started.tried
  (started.ending = .exited ↔ exhausted) ∧
    (¬ exhausted → started.tried.length = prgCnt ∧
      (∀ attempts ∈ started.tried, ∃ last, attempts.getLast? = some (some last) ∧ last ≠ -1) ∧
      started.ending = .alive)

section

variable {prgCnt forkRetryCnt : Nat} {ret : Nat → Nat → Int}

theorem progStart_alive (hnone : ∀ i < prgCnt, ¬ LastTry forkRetryCnt ret i) :
    progStart prgCnt forkRetryCnt (fun i k => some (ret i k)) =
      ⟨(List.range prgCnt).map fun j => (tried forkRetryCnt ret j).attempts, .alive⟩ := by
  rw [progStart]
  have hrun := startFrom_alive (i := 0) fun j hj => by
    rw [Nat.zero_add]
    exact hnone j hj
  simpa only [Nat.zero_add] using hrun

theorem progStart_exited {stop : Nat} (hstop : stop < prgCnt)
    (hlast : LastTry forkRetryCnt ret stop)
    (hfirst : ∀ i < stop, ¬ LastTry forkRetryCnt ret i) :
    progStart prgCnt forkRetryCnt (fun i k => some (ret i k)) =
      ⟨(List.range (stop + 1)).map fun j => (tried forkRetryCnt ret j).attempts, .exited⟩ := by
  rw [← Nat.zero_add stop] at hlast
  unfold progStart
  have hrun := startFrom_exited hstop hlast fun j hj => by
    rw [Nat.zero_add]
    exact hfirst j hj
  simpa only [Nat.zero_add] using hrun

/-- Where no program is started by its last launch, the start gives up on none. -/
theorem givesUp_iff_of_alive (hnone : ∀ i < prgCnt, ¬ LastTry forkRetryCnt ret i) :
    GivesUpOnExhausted prgCnt forkRetryCnt ret ↔ ∀ i < prgCnt, EarlyTry forkRetryCnt ret i := by
  unfold GivesUpOnExhausted
  rw [progStart_alive hnone]
  simp only [exhausted_mem_iff]
  constructor
  · rintro ⟨hexit, _⟩ i hi
    refine earlyTry_iff.mpr ⟨hnone i hi, fun hall => ?_⟩
    exact Ending.noConfusion (hexit.mpr ⟨i, hi, hall⟩)
  · intro hearly
    have hsome : ∀ i < prgCnt, ¬ Exhausted forkRetryCnt ret i := fun i hi =>
      (earlyTry_iff.mp (hearly i hi)).2
    refine ⟨iff_of_false Ending.noConfusion ?_, fun _ => ⟨by simp, ?_, trivial⟩⟩
    · rintro ⟨i, hi, hall⟩
      exact hsome i hi hall
    · intro attempts hattempts
      obtain ⟨i, hi, rfl⟩ := List.mem_map.mp hattempts
      exact tried_ends_started (hsome i (List.mem_range.mp hi))

/-- Where a program is started by its last launch, the first such program ends the start. -/
theorem givesUp_iff_of_exited {stop : Nat} (hstop : stop < prgCnt)
    (hlast : LastTry forkRetryCnt ret stop)
    (hfirst : ∀ i < stop, ¬ LastTry forkRetryCnt ret i) :
    GivesUpOnExhausted prgCnt forkRetryCnt ret ↔ ∃ i < stop, Exhausted forkRetryCnt ret i := by
  unfold GivesUpOnExhausted
  rw [progStart_exited hstop hlast hfirst]
  simp only [exhausted_mem_iff]
  constructor
  · rintro ⟨hexit, _⟩
    obtain ⟨i, hi, hall⟩ := hexit.mp trivial
    rcases Nat.lt_or_eq_of_le (Nat.le_of_lt_succ hi) with hlt | rfl
    · exact ⟨i, hlt, hall⟩
    · exact absurd (hall forkRetryCnt (Nat.le_refl _)) hlast.2
  · rintro ⟨i, hi, hall⟩
    have hexhausted : ∃ j < stop + 1, Exhausted forkRetryCnt ret j :=
      ⟨i, Nat.lt_succ_of_lt hi, hall⟩
    exact ⟨iff_of_true trivial hexhausted, fun hnone => absurd hexhausted hnone⟩

/-- The start gives up exactly on exhausted retries in two cases: every program is started
before its last try, or the first program that only its last try starts comes after an
exhausted one. -/
theorem givesUpOnExhausted_iff (prgCnt forkRetryCnt : Nat) (ret : Nat → Nat → Int) :
    GivesUpOnExhausted prgCnt forkRetryCnt ret ↔
      (∀ i < prgCnt, EarlyTry forkRetryCnt ret i) ∨
        ∃ stop < prgCnt, LastTry forkRetryCnt ret stop ∧
          (∀ i < stop, ¬ LastTry forkRetryCnt ret i) ∧
          ∃ i < stop, Exhausted forkRetryCnt ret i := by
  classical
  by_cases hlate : ∃ stop, stop < prgCnt ∧ LastTry forkRetryCnt ret stop
  · obtain ⟨hstop, hlast⟩ := Nat.find_spec hlate
    have hfirst : ∀ i < Nat.find hlate, ¬ LastTry forkRetryCnt ret i := fun i hi hother =>
      Nat.find_min hlate hi ⟨Nat.lt_trans hi hstop, hother⟩
    rw [givesUp_iff_of_exited hstop hlast hfirst]
    constructor
    · intro hexhausted
      exact Or.inr ⟨_, hstop, hlast, hfirst, hexhausted⟩
    · rintro (hearly | ⟨stop, _, hother, hbefore, i, hi, hall⟩)
      · exact absurd hlast (earlyTry_iff.mp (hearly _ hstop)).1
      · refine ⟨i, ?_, hall⟩
        by_contra hle
        exact hbefore _ (Nat.lt_of_le_of_lt (Nat.le_of_not_lt hle) hi) hlast
  · have hnone : ∀ i < prgCnt, ¬ LastTry forkRetryCnt ret i := fun i hi hlast =>
      hlate ⟨i, hi, hlast⟩
    rw [givesUp_iff_of_alive hnone]
    constructor
    · exact Or.inl
    · rintro (hearly | ⟨stop, hstop, hlast, _⟩)
      · exact hearly
      · exact absurd hlast (hnone stop hstop)

end

/-- One program, no retries: its only launch succeeds and the monitor exits. -/
theorem givesUpOnExhausted_lastTry : ¬ GivesUpOnExhausted 1 0 fun _ _ => 0 := by
  intro h
  have hexit : (progStart 1 0 fun _ _ => some 0).ending = .exited := rfl
  exact absurd (h.1.mp hexit) (by decide)

end MdsFormal.Mon.LaunchRetries
