import MdsFormal.Library.Buffer

/-!
# Stores through a pointer

The memory from a pointer on together with the indices that were stored to, so that a
store past a limit is seen even where it leaves the byte as it was.
-/

namespace MdsFormal.Library.StoreTrace

open MdsFormal.Library.Buffer

structure Stores where
  memory : Memory
  stored : List Nat

/-- Nothing is stored yet. -/
def Stores.start (memory : Memory) : Stores := ⟨memory, []⟩

def Stores.store (out : Stores) (index : Nat) (byte : UInt8) : Stores :=
  ⟨Function.update out.memory index byte, index :: out.stored⟩

/-- Bytes stored one behind the other. -/
def Stores.storeAll (out : Stores) : Nat → List UInt8 → Stores
  | _, [] => out
  | index, byte :: rest => (out.store index byte).storeAll (index + 1) rest

/-- No index from `limit` on was stored to. -/
def Stores.Within (limit : Int) (out : Stores) : Prop := ∀ index ∈ out.stored, (index : Int) < limit

/-- The bytes from `index` on. -/
def Holds (memory : Memory) (index : Nat) (bytes : List UInt8) : Prop :=
  ∀ a byte, bytes[a]? = some byte → memory (index + a) = byte

variable {out : Stores} {index a : Nat} {bytes xs ys : List UInt8} {limit : Int}

@[simp] theorem storeAll_nil (out : Stores) (index : Nat) : out.storeAll index [] = out := rfl

theorem storeAll_append :
    out.storeAll index (xs ++ ys) = (out.storeAll index xs).storeAll (index + xs.length) ys := by
  induction xs generalizing out index with
  | nil => rfl
  | cons x rest ih =>
      rw [List.cons_append, Stores.storeAll, Stores.storeAll, ih, List.length_cons,
        Nat.add_right_comm, Nat.add_assoc]

theorem storeAll_memory :
    (out.storeAll index bytes).memory = writeAt out.memory index bytes := by
  induction bytes generalizing out index with
  | nil => rfl
  | cons byte rest ih => exact ih

theorem mem_stored_storeAll :
    a ∈ (out.storeAll index bytes).stored ↔
      a ∈ out.stored ∨ (index ≤ a ∧ a < index + bytes.length) := by
  induction bytes generalizing out index with
  | nil =>
      refine (or_iff_left ?_).symm
      rw [List.length_nil]
      omega
  | cons byte rest ih =>
      have hstored : a ∈ (out.store index byte).stored ↔ a = index ∨ a ∈ out.stored :=
        List.mem_cons
      rw [Stores.storeAll, ih, hstored, @or_comm (a = index), or_assoc, List.length_cons]
      exact or_congr_right (by omega)

/-- Storing from the front stays within a limit exactly when the bytes fit it. -/
theorem storeAll_start_within_iff (memory : Memory) :
    ((Stores.start memory).storeAll 0 bytes).Within limit ↔ bytes = [] ∨ bytes.length ≤ limit := by
  constructor
  · intro hwithin
    cases bytes with
    | nil => exact Or.inl rfl
    | cons byte rest =>
        have hlast := hwithin rest.length (mem_stored_storeAll.mpr (Or.inr (by simp)))
        rw [List.length_cons]
        omega
  · rintro hfits index hindex
    rcases mem_stored_storeAll.mp hindex with hnone | ⟨-, hindex⟩
    · cases hnone
    · rcases hfits with rfl | hfits
      · rw [List.length_nil] at hindex
        omega
      · omega

theorem storeAll_holds : Holds (out.storeAll index bytes).memory index bytes := by
  intro a byte hbyte
  rw [storeAll_memory]
  exact writeAt_get hbyte

/-- Bytes that were stored are followed by what was there before. -/
theorem storeAll_holds_concat_iff (byte : UInt8) :
    Holds (out.storeAll index bytes).memory index (bytes ++ [byte]) ↔
      out.memory (index + bytes.length) = byte := by
  have hbehind : (out.storeAll index bytes).memory (index + bytes.length) =
      out.memory (index + bytes.length) := by
    rw [storeAll_memory]
    exact writeAt_outside (Or.inr (Nat.le_refl _))
  constructor
  · intro hholds
    rw [← hbehind]
    exact hholds bytes.length byte (by simp)
  · rintro hbyte a other hother
    rcases Nat.lt_trichotomy a bytes.length with hlt | rfl | hgt
    · rw [List.getElem?_append_left hlt] at hother
      exact storeAll_holds a other hother
    · rw [List.getElem?_concat_length] at hother
      cases hother
      rw [hbehind, hbyte]
    · have hlength : (bytes ++ [byte]).length ≤ a := by
        rw [List.length_append, List.length_singleton]
        exact hgt
      rw [List.getElem?_eq_none hlength] at hother
      cases hother

end MdsFormal.Library.StoreTrace
