/-!
# Computations that may fault

A computation in `Except` either reaches its end or stops at its first fault.  A
sequence reaches its end when each part does on what the part before it gave.
-/

namespace MdsFormal.Library.Faults

variable {ε α β : Type}

/-- The computation reaches its end. -/
def Runs (computation : Except ε α) : Prop := ∃ result, computation = .ok result

instance decidableRuns (computation : Except ε α) : Decidable (Runs computation) :=
  match computation with
  | .ok result => isTrue ⟨result, rfl⟩
  | .error _ => isFalse fun ⟨_, hresult⟩ => nomatch hresult

instance decidableEqError [DecidableEq ε] (computation : Except ε α) (fault : ε) :
    Decidable (computation = .error fault) :=
  match computation with
  | .ok _ => isFalse fun heq => nomatch heq
  | .error fault' => decidable_of_iff (fault' = fault) ⟨congrArg Except.error, Except.error.inj⟩

/-- A fault unless the condition holds. -/
def require (condition : Prop) [Decidable condition] (fault : ε) : Except ε Unit :=
  if condition then .ok () else .error fault

theorem runs_ok (result : α) : Runs (.ok result : Except ε α) := ⟨result, rfl⟩

theorem not_runs_error (fault : ε) : ¬Runs (.error fault : Except ε α) := by
  rintro ⟨result, hresult⟩
  cases hresult

theorem bind_of_eq_ok {first : Except ε α} {value : α} (hfirst : first = .ok value)
    {next : α → Except ε β} : (first >>= next) = next value := by
  rw [hfirst]
  rfl

theorem bind_eq_ok_iff {first : Except ε α} {next : α → Except ε β} {result : β} :
    (first >>= next) = .ok result ↔ ∃ value, first = .ok value ∧ next value = .ok result := by
  cases first with
  | error fault =>
      refine iff_of_false (fun hrun => ?_) ?_
      · cases hrun
      · rintro ⟨value, hfirst, _⟩
        cases hfirst
  | ok value =>
      constructor
      · intro hrun
        exact ⟨value, rfl, hrun⟩
      · rintro ⟨value', hfirst, hrun⟩
        cases hfirst
        exact hrun

theorem runs_bind_iff {first : Except ε α} {next : α → Except ε β} :
    Runs (first >>= next) ↔ ∃ value, first = .ok value ∧ Runs (next value) := by
  constructor
  · rintro ⟨result, hrun⟩
    obtain ⟨value, hfirst, hnext⟩ := bind_eq_ok_iff.mp hrun
    exact ⟨value, hfirst, result, hnext⟩
  · rintro ⟨value, hfirst, result, hnext⟩
    exact ⟨result, bind_eq_ok_iff.mpr ⟨value, hfirst, hnext⟩⟩

theorem require_bind_of_pos {condition : Prop} [Decidable condition] (hcondition : condition)
    (fault : ε) (next : Unit → Except ε β) : (require condition fault >>= next) = next () := by
  rw [require, if_pos hcondition]
  rfl

theorem require_bind_of_neg {condition : Prop} [Decidable condition] (hcondition : ¬condition)
    (fault : ε) (next : Unit → Except ε β) :
    (require condition fault >>= next) = .error fault := by
  rw [require, if_neg hcondition]
  rfl

theorem runs_require_bind_iff {condition : Prop} [Decidable condition] {fault : ε}
    {next : Unit → Except ε β} :
    Runs (require condition fault >>= next) ↔ condition ∧ Runs (next ()) := by
  by_cases hcondition : condition
  · rw [require_bind_of_pos hcondition]
    exact (and_iff_right hcondition).symm
  · rw [require_bind_of_neg hcondition]
    exact iff_of_false (not_runs_error fault) fun hboth => hcondition hboth.1

theorem bind_eq_error_iff {first : Except ε α} {next : α → Except ε β} {fault : ε} :
    (first >>= next) = .error fault ↔
      first = .error fault ∨ ∃ value, first = .ok value ∧ next value = .error fault := by
  cases first with
  | error fault' =>
      constructor
      · intro hrun
        cases hrun
        exact .inl rfl
      · rintro (hfirst | ⟨value, hfirst, _⟩)
        · cases hfirst
          rfl
        · cases hfirst
  | ok value =>
      constructor
      · intro hrun
        exact .inr ⟨value, rfl, hrun⟩
      · rintro (hfirst | ⟨value', hfirst, hrun⟩)
        · cases hfirst
        · cases hfirst
          exact hrun

/-! ## Exact preconditions -/

/-- The computation reaches its end exactly under the condition, and then with a result that
satisfies the postcondition. -/
structure Guarded (condition : Prop) (computation : Except ε α) (post : α → Prop) : Prop where
  ends : condition → ∃ result, computation = .ok result ∧ post result
  of_runs : Runs computation → condition

theorem guarded_ok {result : α} {post : α → Prop} (hpost : post result) :
    Guarded True (.ok result : Except ε α) post where
  ends _ := ⟨result, rfl, hpost⟩
  of_runs _ := trivial

theorem guarded_require {condition : Prop} [Decidable condition] {fault : ε} :
    Guarded condition (require condition fault) fun _ => True where
  ends hcondition := ⟨(), if_pos hcondition, trivial⟩
  of_runs hruns := by
    rw [require] at hruns
    split at hruns
    · assumption
    · exact absurd hruns (not_runs_error fault)

namespace Guarded

variable {p q : Prop} {first : Except ε α} {next : α → Except ε β} {post : α → Prop}
  {post' : β → Prop}

theorem congr (hpq : p ↔ q) (hguarded : Guarded p first post) : Guarded q first post where
  ends hq := hguarded.ends (hpq.mpr hq)
  of_runs hruns := hpq.mp (hguarded.of_runs hruns)

theorem weaken {post'' : α → Prop} (hpost : ∀ value, post value → post'' value)
    (hguarded : Guarded p first post) : Guarded p first post'' where
  ends hp := by
    obtain ⟨result, hresult, hholds⟩ := hguarded.ends hp
    exact ⟨result, hresult, hpost result hholds⟩
  of_runs := hguarded.of_runs

/-- A result of the computation satisfies the postcondition. -/
theorem post_of_eq (hguarded : Guarded p first post) {value : α} (hvalue : first = .ok value) :
    post value := by
  obtain ⟨result, hresult, hpost⟩ := hguarded.ends (hguarded.of_runs ⟨value, hvalue⟩)
  rw [hvalue] at hresult
  cases hresult
  exact hpost

/-- What holds of every result holds with the postcondition. -/
theorem and_of_eq {post'' : α → Prop} (hguarded : Guarded p first post)
    (hresult : ∀ value, first = .ok value → post'' value) :
    Guarded p first fun value => post value ∧ post'' value where
  ends hp := by
    obtain ⟨result, hrun, hholds⟩ := hguarded.ends hp
    exact ⟨result, hrun, hholds, hresult result hrun⟩
  of_runs := hguarded.of_runs

/-- A sequence needs what its parts need. -/
theorem bind (hfirst : Guarded p first post)
    (hnext : p → ∀ value, post value → Guarded q (next value) post') :
    Guarded (p ∧ q) (first >>= next) post' where
  ends := by
    rintro ⟨hp, hq⟩
    obtain ⟨value, hvalue, hpost⟩ := hfirst.ends hp
    obtain ⟨result, hresult, hpost'⟩ := (hnext hp value hpost).ends hq
    exact ⟨result, bind_eq_ok_iff.mpr ⟨value, hvalue, hresult⟩, hpost'⟩
  of_runs := by
    intro hruns
    obtain ⟨value, hvalue, hrest⟩ := runs_bind_iff.mp hruns
    have hp : p := hfirst.of_runs ⟨value, hvalue⟩
    exact ⟨hp, (hnext hp value (hfirst.post_of_eq hvalue)).of_runs hrest⟩

/-- A sequence whose rest needs nothing. -/
theorem bind_free (hfirst : Guarded p first post)
    (hnext : p → ∀ value, post value → Guarded True (next value) post') :
    Guarded p (first >>= next) post' :=
  congr (and_iff_left trivial) (hfirst.bind hnext)

end Guarded

/-! ## Counted loops -/

variable {σ : Type} {body : Nat → σ → Except ε σ}

/-- `for(k = i; left turns; k++)`. -/
def loop (body : Nat → σ → Except ε σ) : Nat → Nat → σ → Except ε σ
  | 0, _, s => .ok s
  | left + 1, i, s => body i s >>= loop body left (i + 1)

theorem guarded_loop_succ {need : Nat → Prop} {first last : σ → Prop} {left i : Nat} {s : σ}
    (hfirst : Guarded (need i) (body i s) first)
    (hrest : ∀ next, first next →
      Guarded (∀ k, i + 1 ≤ k → k < i + 1 + left → need k) (loop body left (i + 1) next) last) :
    Guarded (∀ k, i ≤ k → k < i + 1 + left → need k) (loop body (left + 1) i s) last := by
  have hsplit : (need i ∧ ∀ k, i + 1 ≤ k → k < i + 1 + left → need k) ↔
      ∀ k, i ≤ k → k < i + 1 + left → need k := by
    constructor
    · rintro ⟨hneed, hneeds⟩ k hlow hhigh
      rcases Nat.eq_or_lt_of_le hlow with rfl | hlater
      · exact hneed
      · exact hneeds k hlater hhigh
    · intro hall
      exact ⟨hall i (Nat.le_refl i) (by omega), fun k hlow hhigh => hall k (by omega) hhigh⟩
  exact (hfirst.bind fun _ next hnext => hrest next hnext).congr hsplit

/-- A loop needs what its turns need. -/
theorem guarded_loop {need : Nat → Prop} {inv : Nat → σ → Prop}
    (hbody : ∀ k s, inv k s → Guarded (need k) (body k s) (inv (k + 1))) (left i : Nat) {s : σ}
    (hinv : inv i s) :
    Guarded (∀ k, i ≤ k → k < i + left → need k) (loop body left i s) (inv (i + left)) := by
  induction left generalizing i s with
  | zero =>
      exact (guarded_ok hinv).congr (iff_of_true trivial fun k hlow hhigh => by omega)
  | succ left ih =>
      have hlen : i + (left + 1) = i + 1 + left := by omega
      rw [hlen]
      exact guarded_loop_succ (hbody i s hinv) fun next hnext => ih (i + 1) hnext

theorem loop_invariant {inv : Nat → σ → Prop} {left i : Nat} {s s' : σ}
    (hstep : ∀ k s s', i ≤ k → k < i + left → inv k s → body k s = .ok s' → inv (k + 1) s')
    (hinv : inv i s) (hrun : loop body left i s = .ok s') : inv (i + left) s' := by
  induction left generalizing i s with
  | zero =>
      cases hrun
      exact hinv
  | succ left ih =>
      obtain ⟨next, hbody, hrest⟩ := bind_eq_ok_iff.mp hrun
      have hnext := hstep i s next (Nat.le_refl i) (by omega) hinv hbody
      have hlater : ∀ k s s', i + 1 ≤ k → k < i + 1 + left → inv k s → body k s = .ok s' →
          inv (k + 1) s' := fun k s s' hlow hhigh => hstep k s s' (by omega) (by omega)
      rw [← Nat.add_assoc, Nat.add_right_comm]
      exact ih hlater hnext hrest

/-- A loop whose turns do not depend on each other ends when each turn does. -/
theorem runs_loop_iff {good : Nat → Prop} (hgood : ∀ k s, Runs (body k s) ↔ good k)
    (left i : Nat) (s : σ) :
    Runs (loop body left i s) ↔ ∀ k, i ≤ k → k < i + left → good k := by
  induction left generalizing i s with
  | zero =>
      refine iff_of_true (runs_ok s) fun k hlow hhigh => ?_
      omega
  | succ left ih =>
      rw [loop, runs_bind_iff]
      constructor
      · rintro ⟨next, hbody, hrest⟩ k hlow hhigh
        rcases Nat.eq_or_lt_of_le hlow with rfl | hlater
        · exact (hgood i s).mp ⟨next, hbody⟩
        · exact (ih (i + 1) next).mp hrest k hlater (by omega)
      · intro hall
        obtain ⟨next, hbody⟩ := (hgood i s).mpr (hall i (Nat.le_refl i) (by omega))
        refine ⟨next, hbody, (ih (i + 1) next).mpr fun k hlow hhigh => ?_⟩
        exact hall k (by omega) (by omega)

/-- It stops with a fault at the first turn that does. -/
theorem loop_eq_error_iff {good bad : Nat → Prop} {fault : ε}
    (hgood : ∀ k s, Runs (body k s) ↔ good k) (hbad : ∀ k s, body k s = .error fault ↔ bad k)
    (left i : Nat) (s : σ) :
    loop body left i s = .error fault ↔
      ∃ k, i ≤ k ∧ k < i + left ∧ bad k ∧ ∀ j, i ≤ j → j < k → good j := by
  induction left generalizing i s with
  | zero =>
      refine iff_of_false (fun hrun => ?_) ?_
      · cases hrun
      · rintro ⟨k, hlow, hhigh, _⟩
        omega
  | succ left ih =>
      rw [loop, bind_eq_error_iff]
      constructor
      · rintro (hbody | ⟨next, hbody, hrest⟩)
        · refine ⟨i, Nat.le_refl i, by omega, (hbad i s).mp hbody, fun j hlow hhigh => ?_⟩
          omega
        · obtain ⟨k, hlow, hhigh, hk, hbefore⟩ := (ih (i + 1) next).mp hrest
          refine ⟨k, by omega, by omega, hk, fun j hj hjk => ?_⟩
          rcases Nat.eq_or_lt_of_le hj with rfl | hlater
          · exact (hgood i s).mp ⟨next, hbody⟩
          · exact hbefore j hlater hjk
      · rintro ⟨k, hlow, hhigh, hk, hbefore⟩
        rcases Nat.eq_or_lt_of_le hlow with rfl | hlater
        · exact .inl ((hbad i s).mpr hk)
        · obtain ⟨next, hbody⟩ := (hgood i s).mpr (hbefore i (Nat.le_refl i) hlater)
          refine .inr ⟨next, hbody, (ih (i + 1) next).mpr ?_⟩
          exact ⟨k, hlater, by omega, hk, fun j hj hjk => hbefore j (by omega) hjk⟩

end MdsFormal.Library.Faults
