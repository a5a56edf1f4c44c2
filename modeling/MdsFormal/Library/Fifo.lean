import Mathlib.Data.List.Basic

/-!
# A queue with its books

A first-in first-out queue that remembers every value that came in and every value that
left, with the way it left.  The books always balance: what came in is what left followed
by what still waits, in one order.
-/

namespace MdsFormal.Library

universe u

/-- How a value left a queue. -/
inductive Removal (α : Type u) where
  | popped (value : α)
  | dropped (value : α)
  deriving DecidableEq

def Removal.value {α : Type u} : Removal α → α
  | .popped value => value
  | .dropped value => value

structure Fifo (α : Type u) where
  queue : List α
  added : List α
  removed : List (Removal α)
  balanced : added = removed.map Removal.value ++ queue

namespace Fifo

variable {α : Type u}

def empty : Fifo α := ⟨[], [], [], rfl⟩

def add (fifo : Fifo α) (value : α) : Fifo α where
  queue := fifo.queue ++ [value]
  added := fifo.added ++ [value]
  removed := fifo.removed
  balanced := by rw [fifo.balanced, List.append_assoc]

/-- Take the oldest value; an empty queue stays as it is. -/
def pop (fifo : Fifo α) : Fifo α where
  queue := fifo.queue.tail
  added := fifo.added
  removed := fifo.removed ++ fifo.queue.head?.toList.map .popped
  balanced := by
    rw [fifo.balanced]
    cases fifo.queue with
    | nil => simp
    | cons value rest => simp [Removal.value]

/-- Drop all values, the oldest first. -/
def clear (fifo : Fifo α) : Fifo α where
  queue := []
  added := fifo.added
  removed := fifo.removed ++ fifo.queue.map .dropped
  balanced := by
    have hvalues : (fifo.queue.map Removal.dropped).map Removal.value = fifo.queue := by
      rw [List.map_map]
      exact List.map_id fifo.queue
    rw [List.map_append, hvalues, List.append_nil, fifo.balanced]

end Fifo

end MdsFormal.Library
