import Mathlib.Data.Fin.Tuple.Basic

/-!
# Searching fixed tables of slots

A table of fixed size is searched from index 0 upwards.  `claimSlot` is the
usual two scans: the entry already in use for a key, or else the first free
entry.
-/

namespace MdsFormal.Library.SlotTable

universe u

variable {Entry : Type u} {size : Nat}

/-- The first entry that passes the test. -/
def firstSlot (test : Entry → Prop) [DecidablePred test] (table : Fin size → Entry) :
    Option (Fin size) :=
  Fin.find? fun slot => decide (test (table slot))

/-- The entry in use for a key, or else the first free one. -/
def claimSlot (mine free : Entry → Prop) [DecidablePred mine] [DecidablePred free]
    (table : Fin size → Entry) : Option (Fin size) :=
  match firstSlot mine table with
  | some slot => some slot
  | none => firstSlot free table

variable {test mine free : Entry → Prop} [DecidablePred test] [DecidablePred mine]
  [DecidablePred free] {table : Fin size → Entry} {slot : Fin size}

theorem firstSlot_eq_some_iff :
    firstSlot test table = some slot ↔
      test (table slot) ∧ ∀ earlier < slot, ¬ test (table earlier) := by
  rw [firstSlot, Fin.find?_eq_some_iff]
  simp

theorem firstSlot_eq_none_iff :
    firstSlot test table = none ↔ ∀ slot, ¬ test (table slot) := by
  rw [firstSlot, Fin.find?_eq_none_iff]
  simp

theorem firstSlot_test (hslot : firstSlot test table = some slot) : test (table slot) :=
  (firstSlot_eq_some_iff.mp hslot).1

/-- Only which entries pass the test matters. -/
theorem firstSlot_congr {other : Fin size → Entry}
    (hsame : ∀ slot, test (other slot) ↔ test (table slot)) :
    firstSlot test other = firstSlot test table := by
  have hbool : (fun slot => decide (test (other slot))) =
      fun slot => decide (test (table slot)) := by
    funext slot
    exact decide_eq_decide.mpr (hsame slot)
  rw [firstSlot, firstSlot, hbool]

/-- An entry that is the only one to pass the test is the one found. -/
theorem firstSlot_eq_some_of_unique (hslot : test (table slot))
    (hunique : ∀ other, test (table other) → other = slot) :
    firstSlot test table = some slot := by
  refine firstSlot_eq_some_iff.mpr ⟨hslot, fun earlier hlt htest => ?_⟩
  exact absurd (hunique earlier htest) (Fin.ne_of_lt hlt)

/-- A claimed entry was in use for the key, or no entry was and it was free. -/
theorem claimSlot_cases (hclaim : claimSlot mine free table = some slot) :
    mine (table slot) ∨ (∀ other, ¬ mine (table other)) ∧ free (table slot) := by
  unfold claimSlot at hclaim
  cases hmine : firstSlot mine table with
  | some found =>
      rw [hmine] at hclaim
      cases hclaim
      exact Or.inl (firstSlot_test hmine)
  | none =>
      rw [hmine] at hclaim
      exact Or.inr ⟨firstSlot_eq_none_iff.mp hmine, firstSlot_test hclaim⟩

theorem claimSlot_eq_none_iff :
    claimSlot mine free table = none ↔
      (∀ slot, ¬ mine (table slot)) ∧ ∀ slot, ¬ free (table slot) := by
  unfold claimSlot
  cases hmine : firstSlot mine table with
  | some found =>
      have hfound := firstSlot_test hmine
      exact iff_of_false (by simp) fun h => h.1 found hfound
  | none =>
      have hnone := firstSlot_eq_none_iff.mp hmine
      rw [firstSlot_eq_none_iff]
      exact ⟨fun h => ⟨hnone, h⟩, fun h => h.2⟩

end MdsFormal.Library.SlotTable
