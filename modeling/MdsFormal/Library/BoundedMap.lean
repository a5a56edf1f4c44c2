import Mathlib.Data.Finmap

/-!
# Finite maps of bounded capacity

A map that takes a new key only while it has room.  A key it has can always be
given a new value.
-/

namespace MdsFormal.Library

universe u v

/-- A finite map with at most `capacity` keys. -/
structure BoundedMap (Key : Type u) (Value : Type v) (capacity : Nat) where
  entries : Finmap fun _ : Key => Value
  card_le : entries.keys.card ≤ capacity

namespace BoundedMap

variable {Key : Type u} {Value : Type v} {capacity : Nat}

def empty : BoundedMap Key Value capacity := ⟨∅, by simp⟩

variable [DecidableEq Key]

def lookup (m : BoundedMap Key Value capacity) (key : Key) : Option Value :=
  m.entries.lookup key

/-- The key is there already, or there is room for one more. -/
def Accepts (m : BoundedMap Key Value capacity) (key : Key) : Prop :=
  key ∈ m.entries ∨ m.entries.keys.card < capacity

instance (m : BoundedMap Key Value capacity) (key : Key) : Decidable (m.Accepts key) :=
  inferInstanceAs (Decidable (_ ∨ _))

theorem keys_insert (entries : Finmap fun _ : Key => Value) (key : Key) (value : Value) :
    (entries.insert key value).keys = insert key entries.keys := by
  ext other
  simp [Finmap.mem_keys, Finmap.mem_insert]

theorem Accepts.card_insert_le {m : BoundedMap Key Value capacity} {key : Key}
    (haccepts : m.Accepts key) (value : Value) :
    (m.entries.insert key value).keys.card ≤ capacity := by
  rw [keys_insert]
  rcases haccepts with hmem | hroom
  · rw [Finset.insert_eq_of_mem (Finmap.mem_keys.mpr hmem)]
    exact m.card_le
  · exact (Finset.card_insert_le key m.entries.keys).trans hroom

/-- Store a value; a new key that there is no room for changes nothing. -/
def set (m : BoundedMap Key Value capacity) (key : Key) (value : Value) :
    BoundedMap Key Value capacity :=
  if haccepts : m.Accepts key then ⟨m.entries.insert key value, haccepts.card_insert_le value⟩
  else m

variable {m : BoundedMap Key Value capacity} {key other : Key} {value : Value}

@[simp]
theorem lookup_empty : (empty : BoundedMap Key Value capacity).lookup key = none :=
  Finmap.lookup_empty key

theorem lookup_set_self (haccepts : m.Accepts key) : (m.set key value).lookup key = some value := by
  rw [set, dif_pos haccepts]
  exact Finmap.lookup_insert m.entries

theorem lookup_set_of_ne (hne : other ≠ key) : (m.set key value).lookup other = m.lookup other := by
  unfold set
  split
  · exact Finmap.lookup_insert_of_ne m.entries hne
  · rfl

theorem set_of_not_accepts (hfull : ¬ m.Accepts key) : m.set key value = m :=
  dif_neg hfull

theorem accepts_of_lookup {stored : Value} (hlookup : m.lookup key = some stored) :
    m.Accepts key :=
  Or.inl (Finmap.mem_of_lookup_eq_some hlookup)

end BoundedMap

end MdsFormal.Library
