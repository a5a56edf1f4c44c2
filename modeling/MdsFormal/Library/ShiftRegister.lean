import Mathlib.Algebra.BigOperators.Ring.Finset
import Mathlib.Algebra.Polynomial.Div
import Mathlib.Tactic.Ring

/-!
# Division by a shift register

A message is read as a polynomial, its first symbol as the highest coefficient.  A
register holds a polynomial of lower degree than the divisor; each symbol multiplies it
by `X` and takes a multiple of the divisor away.  What it then holds is the remainder.
-/

namespace MdsFormal.Library.ShiftRegister

open Polynomial

universe u v w

variable {R : Type u} [CommRing R] {State : Type v} {Symbol : Type w}

/-- The symbols as coefficients, those read first at the highest powers. -/
noncomputable def horner (coefficient : Symbol → R) (symbols : List Symbol) : R[X] :=
  symbols.foldl (fun p symbol => p * X + C (coefficient symbol)) 0

/-- The register is taken along as the remainder of what was read so far. -/
theorem foldl_remainder {step : State → Symbol → State} {poly : State → R[X]}
    {coefficient : Symbol → R} {divisor : R[X]} {d : Nat}
    (hstep : ∀ state symbol, ∃ q, poly (step state symbol) + q * divisor =
      poly state * X + C (coefficient symbol) * X ^ d)
    (symbols : List Symbol) (p : R[X]) (state : State)
    (hread : ∃ q, poly state + q * divisor = p * X ^ d) :
    ∃ q, poly (symbols.foldl step state) + q * divisor =
      symbols.foldl (fun p symbol => p * X + C (coefficient symbol)) p * X ^ d := by
  induction symbols generalizing p state with
  | nil => exact hread
  | cons symbol rest ih =>
      apply ih
      obtain ⟨q, hq⟩ := hread
      obtain ⟨q', hq'⟩ := hstep state symbol
      refine ⟨q' + q * X, ?_⟩
      calc poly (step state symbol) + (q' + q * X) * divisor
          = (poly (step state symbol) + q' * divisor) + q * X * divisor := by ring
        _ = poly state * X + C (coefficient symbol) * X ^ d + q * X * divisor := by rw [hq']
        _ = (poly state + q * divisor) * X + C (coefficient symbol) * X ^ d := by ring
        _ = (p * X + C (coefficient symbol)) * X ^ d := by rw [hq]; ring

/-- From the zero register on, the register ends with the remainder of the message. -/
theorem foldl_eq_modByMonic {step : State → Symbol → State} {poly : State → R[X]}
    {coefficient : Symbol → R} {divisor : R[X]} {d : Nat} (hmonic : divisor.Monic)
    (hstep : ∀ state symbol, ∃ q, poly (step state symbol) + q * divisor =
      poly state * X + C (coefficient symbol) * X ^ d)
    (hdegree : ∀ state, (poly state).degree < divisor.degree) {start : State}
    (hstart : poly start = 0) (symbols : List Symbol) :
    poly (symbols.foldl step start) = (horner coefficient symbols * X ^ d) %ₘ divisor := by
  obtain ⟨q, hq⟩ := foldl_remainder hstep symbols 0 start ⟨0, by rw [hstart]; ring⟩
  have hunique := div_modByMonic_unique q (poly (symbols.foldl step start)) hmonic
    ⟨(congrArg _ (mul_comm divisor q)).trans hq, hdegree _⟩
  exact hunique.2.symm

/-- A register that takes bits: each one set adds its power of `root` times `weight`. -/
theorem foldl_eq_sum {step : State → Bool → State} {value : State → R} {root weight : R}
    (hstep : ∀ state bit, value (step state bit) =
      value state * root + if bit then weight else 0) (bits : List Bool) (state : State) :
    value (bits.foldl step state) = value state * root ^ bits.length +
      weight * ∑ p ∈ Finset.range bits.length,
        if bits.getD p false then root ^ (bits.length - 1 - p) else 0 := by
  induction bits generalizing state with
  | nil => simp
  | cons bit rest ih =>
      have htail : (∑ p ∈ Finset.range rest.length,
          if (bit :: rest).getD (p + 1) false then root ^ (rest.length + 1 - 1 - (p + 1)) else 0) =
          ∑ p ∈ Finset.range rest.length,
            if rest.getD p false then root ^ (rest.length - 1 - p) else 0 := by
        refine Finset.sum_congr rfl fun p _ => ?_
        rw [List.getD_cons_succ, show rest.length + 1 - 1 - (p + 1) = rest.length - 1 - p by omega]
      rw [List.foldl_cons, ih, hstep, List.length_cons, Finset.sum_range_succ', htail,
        List.getD_cons_zero, Nat.add_sub_cancel, Nat.sub_zero]
      generalize (∑ p ∈ Finset.range rest.length,
        if rest.getD p false then root ^ (rest.length - 1 - p) else 0) = tail
      cases bit
      · simp only [Bool.false_eq_true, if_false]
        ring
      · simp only [if_true]
        ring

end MdsFormal.Library.ShiftRegister
