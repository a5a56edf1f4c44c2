import Mathlib.Data.Fintype.Card
import MdsFormal.Library.BoundedMap
import MdsFormal.Library.SlotTable

/-!
# Keyed slots as a bounded map

A table whose slots are free or carry a key, no key twice, stands for the map
that gives each key its slot's value.  Storing under a key that a slot carries,
filling a free slot and finding none of either are the three cases of storing
into the map.
-/

namespace MdsFormal.Library.SlotMap

universe u v

variable {Key : Type u} {Value : Type v} [DecidableEq Key] {size : Nat}

/-- The slots with these keys and values stand for the map. -/
structure Represents (key : Fin size → Option Key) (value : Fin size → Value)
    (m : BoundedMap Key Value size) : Prop where
  unique : ∀ first second name, key first = some name → key second = some name → first = second
  lookup_iff : ∀ name stored,
    m.lookup name = some stored ↔ ∃ slot, key slot = some name ∧ value slot = stored

variable {key : Fin size → Option Key} {value : Fin size → Value} {m : BoundedMap Key Value size}
  {slot : Fin size} {name : Key} {stored : Value}

theorem represents_empty (hfree : ∀ slot, key slot = none) :
    Represents key value BoundedMap.empty := by
  constructor
  · intro first second name hfirst
    rw [hfree] at hfirst
    cases hfirst
  · intro name stored
    simp [hfree]

theorem Represents.lookup_eq (hm : Represents key value m) (hslot : key slot = some name) :
    m.lookup name = some (value slot) :=
  (hm.lookup_iff name (value slot)).mpr ⟨slot, hslot, rfl⟩

/-- As many keys are stored as slots are taken. -/
theorem Represents.card_keys (hm : Represents key value m) :
    m.entries.keys.card = (Finset.univ.filter fun slot => (key slot).isSome).card := by
  symm
  refine Finset.card_bij (fun slot hslot => (key slot).get (Finset.mem_filter.mp hslot).2) ?_ ?_ ?_
  · intro slot hslot
    have hkey := Option.some_get (Finset.mem_filter.mp hslot).2
    exact Finmap.mem_keys.mpr (Finmap.mem_of_lookup_eq_some (hm.lookup_eq hkey.symm))
  · intro first hfirst second hsecond heq
    refine hm.unique first second _ (Option.some_get (Finset.mem_filter.mp hfirst).2).symm ?_
    rw [heq]
    exact (Option.some_get (Finset.mem_filter.mp hsecond).2).symm
  · intro name hname
    obtain ⟨stored, hstored⟩ := Finmap.mem_iff.mp (Finmap.mem_keys.mp hname)
    obtain ⟨slot, hslot, _⟩ := (hm.lookup_iff name stored).mp hstored
    exact ⟨slot, by simp [hslot], by simp [hslot]⟩

/-- A free slot is room for a key. -/
theorem Represents.accepts_of_free (hm : Represents key value m) (hfree : key slot = none)
    (name : Key) : m.Accepts name := by
  right
  rw [hm.card_keys]
  have hlt := Finset.card_lt_univ_of_notMem
    (show slot ∉ Finset.univ.filter fun slot => (key slot).isSome by simp [hfree])
  rwa [Fintype.card_fin] at hlt

/-- Without a free slot there is room only for the keys that are there. -/
theorem Represents.not_accepts (hm : Represents key value m)
    (hnone : ∀ slot, key slot ≠ some name) (hfull : ∀ slot, key slot ≠ none) :
    ¬ m.Accepts name := by
  rintro (hmem | hroom)
  · obtain ⟨stored, hstored⟩ := Finmap.mem_iff.mp hmem
    obtain ⟨slot, hslot, _⟩ := (hm.lookup_iff name stored).mp hstored
    exact hnone slot hslot
  · rw [hm.card_keys, Finset.filter_true_of_mem, Finset.card_univ, Fintype.card_fin] at hroom
    · exact Nat.lt_irrefl size hroom
    · intro slot _
      exact Option.isSome_iff_ne_none.mpr (hfull slot)

/-- Storing under a key that a slot carries. -/
theorem Represents.overwrite (hm : Represents key value m) (hslot : key slot = some name)
    (stored : Value) : Represents key (Function.update value slot stored) (m.set name stored) := by
  constructor
  · exact hm.unique
  · intro other found
    by_cases hother : other = name
    · subst hother
      rw [BoundedMap.lookup_set_self (BoundedMap.accepts_of_lookup (hm.lookup_eq hslot))]
      constructor
      · rintro ⟨rfl⟩
        exact ⟨slot, hslot, Function.update_self ..⟩
      · rintro ⟨place, hplace, rfl⟩
        rw [hm.unique place slot other hplace hslot, Function.update_self]
    · rw [BoundedMap.lookup_set_of_ne hother, hm.lookup_iff]
      refine exists_congr fun place => and_congr_right fun hplace => ?_
      have hne : place ≠ slot := by
        rintro rfl
        exact hother (Option.some.inj (hplace.symm.trans hslot))
      rw [Function.update_of_ne hne]

/-- Storing a key that no slot carries into a free one. -/
theorem Represents.fill (hm : Represents key value m) (hfree : key slot = none)
    (hnone : ∀ slot, key slot ≠ some name) (stored : Value) :
    Represents (Function.update key slot (some name)) (Function.update value slot stored)
      (m.set name stored) := by
  have hkey : ∀ place other, Function.update key slot (some name) place = some other ↔
      (place = slot ∧ other = name) ∨ key place = some other := by
    intro place other
    by_cases hplace : place = slot
    · subst hplace
      simp [hfree, eq_comm]
    · simp [hplace]
  constructor
  · intro first second other hfirst hsecond
    rcases (hkey first other).mp hfirst with ⟨rfl, rfl⟩ | hfirst_old
    · rcases (hkey second other).mp hsecond with ⟨rfl, _⟩ | hsecond_old
      · rfl
      · exact absurd hsecond_old (hnone second)
    · rcases (hkey second other).mp hsecond with ⟨rfl, rfl⟩ | hsecond_old
      · exact absurd hfirst_old (hnone first)
      · exact hm.unique first second other hfirst_old hsecond_old
  · intro other found
    by_cases hother : other = name
    · subst hother
      rw [BoundedMap.lookup_set_self (hm.accepts_of_free hfree other)]
      constructor
      · rintro ⟨rfl⟩
        exact ⟨slot, Function.update_self .., Function.update_self ..⟩
      · rintro ⟨place, hplace, rfl⟩
        rcases (hkey place other).mp hplace with ⟨rfl, _⟩ | hold
        · rw [Function.update_self]
        · exact absurd hold (hnone place)
    · rw [BoundedMap.lookup_set_of_ne hother, hm.lookup_iff]
      refine exists_congr fun place => ?_
      rw [hkey]
      by_cases hplace : place = slot
      · subst hplace
        simp [hfree, hother]
      · simp [hplace]

/-- Storing a new key when no slot is free changes nothing. -/
theorem Represents.set_full (hm : Represents key value m) (hnone : ∀ slot, key slot ≠ some name)
    (hfull : ∀ slot, key slot ≠ none) (stored : Value) : m.set name stored = m :=
  BoundedMap.set_of_not_accepts (hm.not_accepts hnone hfull)

end MdsFormal.Library.SlotMap
