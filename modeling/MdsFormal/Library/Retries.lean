/-!
# Retries

Attempts that are numbered are made until one of them ends the loop.  `Within` says that an
attempt within a limit is good and that all before it, which let the loop go on, were bad.
-/

namespace MdsFormal.Library.Retries

variable {good bad : Nat → Prop} {left n : Nat}

/-- One of `left` attempts from number `n` on is good, and those before it are bad. -/
def Within (good bad : Nat → Prop) (left n : Nat) : Prop :=
  ∃ m < left, good (n + m) ∧ ∀ l < m, bad (n + l)

theorem not_within_zero : ¬ Within good bad 0 n := by
  rintro ⟨m, hm, _⟩
  exact Nat.not_lt_zero m hm

/-- The first attempt is good, or it is bad and one of the others is the first good one. -/
theorem within_succ_iff :
    Within good bad (left + 1) n ↔ good n ∨ bad n ∧ Within good bad left (n + 1) := by
  constructor
  · rintro ⟨m, hm, hgood, hbad⟩
    cases m with
    | zero => exact Or.inl hgood
    | succ m =>
        refine Or.inr ⟨hbad 0 (Nat.zero_lt_succ m), m, Nat.lt_of_succ_lt_succ hm, ?_, ?_⟩
        · rwa [Nat.add_assoc, Nat.add_comm 1 m]
        · intro l hl
          rw [Nat.add_assoc, Nat.add_comm 1 l]
          exact hbad (l + 1) (Nat.succ_lt_succ hl)
  · rintro (hgood | ⟨hbad, m, hm, hgood, hrest⟩)
    · exact ⟨0, Nat.zero_lt_succ left, hgood, fun l hl => absurd hl (Nat.not_lt_zero l)⟩
    · refine ⟨m + 1, Nat.succ_lt_succ hm, ?_, ?_⟩
      · rwa [Nat.add_comm m 1, ← Nat.add_assoc]
      · intro l hl
        cases l with
        | zero => exact hbad
        | succ l =>
            rw [Nat.add_comm l 1, ← Nat.add_assoc]
            exact hrest l (Nat.lt_of_succ_lt_succ hl)

/-- From the first attempt on. -/
theorem within_first_iff :
    Within good bad left 0 ↔ ∃ m < left, good m ∧ ∀ l < m, bad l := by
  unfold Within
  simp only [Nat.zero_add]

end MdsFormal.Library.Retries
