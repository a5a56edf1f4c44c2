import Mathlib.Data.Finset.Basic
import Mathlib.Data.List.Nodup
import Mathlib.Logic.Function.Basic
import Mathlib.Tactic.Tauto

/-!
# Linked segments of a heap

A heap has contents at every address and a finite set of live addresses.  A segment is
the list of the live nodes passed on the way from one link to another.  A segment that
ends at the null link is determined by where it starts, and so meets no node twice.
-/

namespace MdsFormal.Library

universe u v

structure Heap (Addr : Type u) (Node : Type v) where
  live : Finset Addr
  cell : Addr → Node

namespace Heap

variable {Addr : Type u} {Node : Type v}

section

variable [DecidableEq Addr]

def alloc (heap : Heap Addr Node) (a : Addr) : Heap Addr Node :=
  { heap with live := insert a heap.live }

def free (heap : Heap Addr Node) (a : Addr) : Heap Addr Node :=
  { heap with live := heap.live.erase a }

def write (heap : Heap Addr Node) (a : Addr) (node : Node) : Heap Addr Node :=
  { heap with cell := Function.update heap.cell a node }

variable {heap : Heap Addr Node} {a b : Addr} {node : Node}

@[simp]
theorem live_alloc : (heap.alloc a).live = insert a heap.live := rfl

@[simp]
theorem cell_alloc : (heap.alloc a).cell = heap.cell := rfl

@[simp]
theorem live_free : (heap.free a).live = heap.live.erase a := rfl

@[simp]
theorem cell_free : (heap.free a).cell = heap.cell := rfl

@[simp]
theorem live_write : (heap.write a node).live = heap.live := rfl

@[simp]
theorem cell_write_self : (heap.write a node).cell a = node := by
  simp only [write, Function.update_self]

theorem cell_write_of_ne (hne : b ≠ a) : (heap.write a node).cell b = heap.cell b := by
  simp only [write, Function.update_of_ne hne]

@[simp]
theorem write_write {node' : Node} :
    (heap.write a node).write a node' = heap.write a node' := by
  simp only [write, Function.update_idem]

/-- Free nodes one after the other. -/
def freeAll (heap : Heap Addr Node) : List Addr → Heap Addr Node
  | [] => heap
  | a :: rest => (heap.free a).freeAll rest

theorem mem_live_freeAll {xs : List Addr} :
    b ∈ (heap.freeAll xs).live ↔ b ∈ heap.live ∧ b ∉ xs := by
  induction xs generalizing heap with
  | nil => simp [freeAll]
  | cons a xs ih =>
      rw [freeAll, ih, live_free, Finset.mem_erase, List.mem_cons]
      tauto

end

/-- The live nodes passed from the link `p` on, up to the link `q`. -/
inductive Segment (next : Node → Option Addr) (heap : Heap Addr Node) :
    Option Addr → List Addr → Option Addr → Prop where
  | nil {p : Option Addr} : Segment next heap p [] p
  | cons {a : Addr} {rest : List Addr} {q : Option Addr} (live : a ∈ heap.live)
      (tail : Segment next heap (next (heap.cell a)) rest q) :
      Segment next heap (some a) (a :: rest) q

namespace Segment

variable {next : Node → Option Addr} {heap after : Heap Addr Node}
  {p q r : Option Addr} {xs ys : List Addr} {a b : Addr}

/-- A segment outlives every change that keeps its nodes live and their links. -/
theorem frame (hseg : Segment next heap p xs q) (hlive : ∀ a ∈ xs, a ∈ after.live)
    (hlink : ∀ a ∈ xs, next (after.cell a) = next (heap.cell a)) :
    Segment next after p xs q := by
  induction hseg with
  | nil => exact .nil
  | @cons a rest q _ _ ih =>
      refine .cons (hlive a List.mem_cons_self) ?_
      rw [hlink a List.mem_cons_self]
      apply ih
      · exact fun b hb => hlive b (List.mem_cons_of_mem a hb)
      · exact fun b hb => hlink b (List.mem_cons_of_mem a hb)

theorem mem_live (hseg : Segment next heap p xs q) (ha : a ∈ xs) : a ∈ heap.live := by
  induction hseg with
  | nil => cases ha
  | cons live _ ih =>
      rcases List.mem_cons.mp ha with rfl | hrest
      · exact live
      · exact ih hrest

theorem append (hfront : Segment next heap p xs q) (hback : Segment next heap q ys r) :
    Segment next heap p (xs ++ ys) r := by
  induction hfront with
  | nil => exact hback
  | cons live _ ih => exact .cons live (ih hback)

theorem split (hseg : Segment next heap p (xs ++ ys) r) :
    ∃ q, Segment next heap p xs q ∧ Segment next heap q ys r := by
  induction xs generalizing p with
  | nil => exact ⟨p, .nil, hseg⟩
  | cons a xs ih =>
      cases hseg with
      | cons live tail =>
          obtain ⟨q, hfront, hback⟩ := ih tail
          exact ⟨q, .cons live hfront, hback⟩

/-- Following the links is deterministic. -/
theorem unique (hxs : Segment next heap p xs none) (hys : Segment next heap p ys none) :
    xs = ys := by
  induction xs generalizing p ys with
  | nil =>
      cases hxs
      cases hys
      rfl
  | cons a xs ih =>
      cases hxs with
      | cons _ htail =>
          cases hys with
          | cons _ htail' => rw [ih htail htail']

/-- A node met twice would be followed by itself for ever. -/
theorem nodup (hseg : Segment next heap p xs none) : xs.Nodup := by
  induction xs generalizing p with
  | nil => exact List.nodup_nil
  | cons a xs ih =>
      cases hseg with
      | cons live tail =>
          refine List.nodup_cons.mpr ⟨fun ha => ?_, ih tail⟩
          obtain ⟨front, back, rfl⟩ := List.append_of_mem ha
          obtain ⟨q, _, hback⟩ := split tail
          cases hback with
          | cons live' tail' =>
              have hsame := unique (.cons live tail) (.cons live' tail')
              have hlength := congrArg List.length hsame
              simp only [List.length_cons, List.length_append] at hlength
              omega

theorem nodup_last (hseg : Segment next heap p (xs ++ [a]) none) : ∀ b ∈ xs, b ≠ a := by
  rintro b hb rfl
  exact List.disjoint_of_nodup_append hseg.nodup hb List.mem_cons_self

theorem head?_eq (hseg : Segment next heap p xs none) : xs.head? = p := by
  cases hseg with
  | nil => rfl
  | cons _ _ => rfl

/-- The last node's link is all that has to change to put one more node behind it. -/
theorem link (hseg : Segment next heap p (xs ++ [a]) none)
    (hlive : ∀ c ∈ xs ++ [a], c ∈ after.live)
    (hsame : ∀ c ∈ xs, next (after.cell c) = next (heap.cell c))
    (hlink : next (after.cell a) = some b) (hb : b ∈ after.live)
    (hend : next (after.cell b) = none) :
    Segment next after p (xs ++ [a] ++ [b]) none := by
  obtain ⟨q, hfront, hback⟩ := split hseg
  cases hback with
  | cons _ _ =>
      have hfront' : Segment next after p xs (some a) :=
        hfront.frame (fun c hc => hlive c (List.mem_append_left [a] hc)) hsame
      have hlast : Segment next after (some b) [b] none := by
        refine .cons hb ?_
        rw [hend]
        exact .nil
      have hmiddle : Segment next after (some a) [a] (some b) := by
        refine .cons (hlive a (List.mem_append_right xs List.mem_cons_self)) ?_
        rw [hlink]
        exact .nil
      exact (hfront'.append hmiddle).append hlast

end Segment

end Heap

end MdsFormal.Library
