/-!
# Linear folds

A checksum is a fold over the symbols of a message.  Its step is linear when it
takes a sum of states and a sum of symbols to the sum of the two results; then
the fold of a sum of messages is the sum of their folds, and what an error does
to a checksum depends on the error alone.
-/

namespace MdsFormal.Library.LinearFold

universe u v

variable {State : Type u} {Symbol : Type v} {step : State → Symbol → State}

/-- The fold of a sum of two messages of one length. -/
theorem foldl_zipWith {addState : State → State → State} {addSymbol : Symbol → Symbol → Symbol}
    (hstep : ∀ first second left right,
      step (addState first second) (addSymbol left right) =
        addState (step first left) (step second right))
    {xs ys : List Symbol} (hlength : xs.length = ys.length) (first second : State) :
    (List.zipWith addSymbol xs ys).foldl step (addState first second) =
      addState (xs.foldl step first) (ys.foldl step second) := by
  induction xs generalizing ys first second with
  | nil =>
      cases ys with
      | nil => rfl
      | cons y ys => cases hlength
  | cons x xs ih =>
      cases ys with
      | nil => cases hlength
      | cons y ys =>
          rw [List.zipWith_cons_cons, List.foldl_cons, hstep]
          exact ih (Nat.succ.inj hlength) (step first x) (step second y)

/-- Leading zeros leave the zero state. -/
theorem foldl_replicate_zero {zero : State} {symbol : Symbol} (hzero : step zero symbol = zero)
    (count : Nat) : (List.replicate count symbol).foldl step zero = zero := by
  induction count with
  | zero => rfl
  | succ count ih => rw [List.replicate_succ, List.foldl_cons, hzero, ih]

/-- Trailing zeros lead to the zero state from no other state. -/
theorem foldl_replicate_ne_zero {zero : State} {symbol : Symbol}
    (honly : ∀ state, step state symbol = zero → state = zero) {state : State}
    (hne : state ≠ zero) (count : Nat) :
    (List.replicate count symbol).foldl step state ≠ zero := by
  induction count generalizing state with
  | zero => exact hne
  | succ count ih =>
      rw [List.replicate_succ, List.foldl_cons]
      apply ih
      intro heq
      exact hne (honly state heq)

end MdsFormal.Library.LinearFold
