import Mathlib.Logic.Basic
import MdsFormal.Mon.ProgStart

/-!
# How often a program is forked

A program that is made a daemon is not waited for, so the result of its launch is the
value that `status` happened to hold.  Where that is -1 a launch that succeeded is taken
for a failed one and made again.
-/

namespace MdsFormal.Mon.DaemonForks

open Process.SystemFork ProgStart

/-! ## One call -/

/-- The parent gets -1 only for a fork that failed or a wait that failed. -/
def FailsForCause (command : List UInt8) (deamon : Bool) (run : ForkRun) : Prop :=
  mdsApiSystemFork (some command) deamon run = some (-1) →
    run.fork = .failed ∨ deamon = false ∧ WaitFails run.waits

/-- The fork of a daemon succeeds while `status` holds -1. -/
def StaleFailure (deamon : Bool) (run : ForkRun) : Prop :=
  deamon = true ∧ run.Forked ∧ run.status = -1

theorem failsForCause_iff (command : List UInt8) (deamon : Bool) (run : ForkRun) :
    FailsForCause command deamon run ↔ ¬ StaleFailure deamon run := by
  unfold FailsForCause StaleFailure
  rw [mdsApiSystemFork_eq_neg_one_iff]
  constructor
  · rintro hcause ⟨hdeamon, ⟨pid, hpid⟩, hstatus⟩
    rcases hcause (Or.inr ⟨⟨pid, hpid⟩, Or.inr ⟨hdeamon, hstatus⟩⟩) with hfailed | ⟨hwaited, _⟩
    · rw [hpid] at hfailed
      exact ForkReturn.noConfusion hfailed
    · rw [hdeamon] at hwaited
      exact Bool.noConfusion hwaited
  · rintro hfresh (hfailed | ⟨hforked, hwait | ⟨hdeamon, hstatus⟩⟩)
    · exact Or.inl hfailed
    · exact Or.inr hwait
    · exact absurd ⟨hdeamon, hforked, hstatus⟩ hfresh

/-! ## One run of the monitor's start -/

/-- The attempt gets as far as a fork that succeeds. -/
def Attempt.Forks (attempt : Attempt) : Prop :=
  mdsApiCheckExistFile attempt.access 3 = true ∧ attempt.run.Forked

/-- The start of the configured programs. -/
def progStarted (progInfo : List ProgInfo) (forkRetryCnt : Nat)
    (attempts : Nat → Nat → Attempt) : Started :=
  progStart progInfo.length forkRetryCnt (launches progInfo attempts)

/-- No two of the attempts made for a daemon program fork it. -/
def DaemonsForkedOnce (progInfo : List ProgInfo) (forkRetryCnt : Nat)
    (attempts : Nat → Nat → Attempt) : Prop :=
  ∀ i prog made, progInfo[i]? = some prog → prog.deamon = true →
    (progStarted progInfo forkRetryCnt attempts).tried[i]? = some made →
      ∀ k < made.length, ∀ l < made.length,
        Attempt.Forks (attempts i k) → Attempt.Forks (attempts i l) → k = l

/-- No fork of a daemon program succeeds while `status` holds -1. -/
def NoStaleFailure (progInfo : List ProgInfo) (attempts : Nat → Nat → Attempt) : Prop :=
  ∀ i prog k, progInfo[i]? = some prog → prog.deamon = true →
    Attempt.Forks (attempts i k) → (attempts i k).run.status ≠ -1

/-- Every attempt of a launch loop but the last has returned -1. -/
theorem tryLoop_again {launch : Nat → Option Int} {fTmp k j : Nat}
    (hj : j + 1 < (tryLoop launch fTmp k).attempts.length) : launch (k + j) = some (-1) := by
  induction fTmp generalizing k j with
  | zero =>
      rw [tryLoop] at hj
      cases hlaunch : launch k with
      | none => simp [hlaunch] at hj
      | some ret =>
          rcases eq_or_ne ret (-1) with hfailed | hstarted
          · simp [hlaunch, hfailed] at hj
          · simp [hlaunch, hstarted] at hj
  | succ fTmp ih =>
      rw [tryLoop] at hj
      cases hlaunch : launch k with
      | none => simp [hlaunch] at hj
      | some ret =>
          rcases eq_or_ne ret (-1) with rfl | hstarted
          · simp only [hlaunch, if_true, Tried.prepend, List.length_cons] at hj
            cases j with
            | zero => exact hlaunch
            | succ j =>
                have hrest := ih (Nat.lt_of_succ_lt_succ hj)
                rwa [Nat.add_assoc, Nat.add_comm 1] at hrest
          · simp [hlaunch, hstarted] at hj

/-- The attempts made for a program are those of its own launch loop. -/
theorem startFrom_tried {launch : Nat → Nat → Option Int} {forkRetryCnt count first i : Nat}
    {made : List (Option Int)}
    (hmade : (startFrom forkRetryCnt launch count first).tried[i]? = some made) :
    made = (tryLoop (launch (first + i)) forkRetryCnt 0).attempts := by
  induction count generalizing first i with
  | zero => simp [startFrom] at hmade
  | succ count ih =>
      have hhead : (startFrom forkRetryCnt launch (count + 1) first).tried[0]? =
          some (tryLoop (launch first) forkRetryCnt 0).attempts := by
        rw [startFrom]
        split
        · rfl
        · split <;> rfl
      cases i with
      | zero => exact Option.some.inj (hmade.symm.trans hhead)
      | succ i =>
          rw [startFrom] at hmade
          split at hmade
          · simp at hmade
          · split at hmade
            · simp at hmade
            · rw [← Nat.add_assoc, Nat.add_right_comm]
              exact ih hmade

/-- The fork of a daemon is the last attempt unless `status` holds -1. -/
theorem launches_of_forks {progInfo : List ProgInfo} {attempts : Nat → Nat → Attempt}
    {i k : Nat} {prog : ProgInfo} (hprog : progInfo[i]? = some prog)
    (hdeamon : prog.deamon = true) (hforks : Attempt.Forks (attempts i k)) :
    launches progInfo attempts i k = some (attempts i k).run.status := by
  obtain ⟨hexists, pid, hpid⟩ := hforks
  simp [launches, launch, hprog, hexists, mdsApiSystemFork, hpid, hdeamon]

theorem daemonsForkedOnce_of_noStaleFailure {progInfo : List ProgInfo} {forkRetryCnt : Nat}
    {attempts : Nat → Nat → Attempt} (hfresh : NoStaleFailure progInfo attempts) :
    DaemonsForkedOnce progInfo forkRetryCnt attempts := by
  intro i prog made hprog hdeamon hmade
  have hloop := startFrom_tried hmade
  rw [Nat.zero_add] at hloop
  -- a fork with a later attempt behind it would have returned -1
  have hlast : ∀ k l, l < made.length → Attempt.Forks (attempts i k) → ¬ k < l := by
    intro k l hl hforks hlt
    have hmore : k + 1 <
        (tryLoop (launches progInfo attempts i) forkRetryCnt 0).attempts.length := by
      rw [← hloop]
      exact Nat.lt_of_le_of_lt hlt hl
    have hagain := tryLoop_again hmore
    rw [Nat.zero_add, launches_of_forks hprog hdeamon hforks] at hagain
    exact hfresh i prog k hprog hdeamon hforks (Option.some.inj hagain)
  intro k hk l hl hfork hfork'
  exact Nat.le_antisymm (Nat.le_of_not_lt (hlast l k hk hfork'))
    (Nat.le_of_not_lt (hlast k l hl hfork))

/-! ## Forked once -/

/-- A call fails for cause exactly when it is not the fork of a daemon with -1 in `status`;
and a start without such a call forks each daemon program at most once. -/
theorem forkedOnce_iff_noStaleFailure (command : List UInt8) (deamon : Bool) (run : ForkRun)
    (progInfo : List ProgInfo) (forkRetryCnt : Nat) (attempts : Nat → Nat → Attempt) :
    (FailsForCause command deamon run ↔ ¬ StaleFailure deamon run) ∧
      (NoStaleFailure progInfo attempts → DaemonsForkedOnce progInfo forkRetryCnt attempts) :=
  ⟨failsForCause_iff command deamon run, daemonsForkedOnce_of_noStaleFailure⟩

/-- Every attempt finds the file and forks, and `status` holds -1. -/
def staleAttempt : Attempt := ⟨fun _ => true, ⟨0, .parent 5, [], -1⟩⟩

/-- A daemon that was launched is launched again as failed. -/
theorem forkedOnce_violated :
    ¬ FailsForCause [] true staleAttempt.run ∧
      ¬ DaemonsForkedOnce [⟨[], [], true, true, 0, 0⟩] 1 fun _ _ => staleAttempt := by
  constructor
  · intro hcause
    rcases hcause rfl with hfailed | ⟨hwaited, _⟩
    · exact ForkReturn.noConfusion hfailed
    · exact Bool.noConfusion hwaited
  · intro honce
    have hforks : Attempt.Forks staleAttempt := ⟨rfl, 5, rfl⟩
    have hmade : (progStarted [⟨[], [], true, true, 0, 0⟩] 1 fun _ _ => staleAttempt).tried[0]? =
        some [some (-1), some (-1)] := by decide
    have hsame := honce 0 _ _ rfl rfl hmade 0 (by decide) 1 (by decide) hforks hforks
    exact absurd hsame (by decide)

end MdsFormal.Mon.DaemonForks
