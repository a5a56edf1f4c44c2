import Mathlib.Algebra.BigOperators.Ring.Finset
import Mathlib.Algebra.CharP.Two

/-!
# Numbers as sums of powers

The bits of a number select powers of one element of a ring of characteristic two.
Exclusive or becomes addition, and a shift becomes multiplication by the element.
-/

namespace MdsFormal.Library.BitPowers

universe u

variable {K : Type u} [CommRing K] (root : K)

/-- The powers of `root` below `width` that the bits of `n` select. -/
def powers (width n : Nat) : K :=
  ∑ i ∈ Finset.range width, if n.testBit i then root ^ i else 0

@[simp]
theorem powers_zero (width : Nat) : powers root width 0 = 0 := by
  simp [powers]

theorem powers_succ (width n : Nat) :
    powers root (width + 1) n =
      powers root width n + if n.testBit width then root ^ width else 0 :=
  Finset.sum_range_succ _ _

theorem powers_xor [CharP K 2] (width m n : Nat) :
    powers root width (m ^^^ n) = powers root width m + powers root width n := by
  unfold powers
  rw [← Finset.sum_add_distrib]
  refine Finset.sum_congr rfl fun i _ => ?_
  rw [Nat.testBit_xor]
  cases m.testBit i <;> cases n.testBit i <;> simp [CharTwo.add_self_eq_zero]

/-- A number that is shifted up is multiplied by the root. -/
theorem powers_shiftLeft_one (width n : Nat) :
    powers root (width + 1) (n <<< 1) = root * powers root width n := by
  unfold powers
  rw [Finset.sum_range_succ', Finset.mul_sum]
  simp only [Nat.testBit_shiftLeft, Nat.add_sub_cancel]
  simp [pow_succ']

/-- Bits behind the width do not count. -/
theorem powers_mod (width n : Nat) : powers root width (n % 2 ^ width) = powers root width n := by
  unfold powers
  refine Finset.sum_congr rfl fun i hi => ?_
  rw [Nat.testBit_mod_two_pow, decide_eq_true (Finset.mem_range.mp hi), Bool.true_and]

/-- Multiplied by a number, an element is the sum of the multiples that its bits select. -/
theorem powers_mul (width n : Nat) (x : K) :
    powers root width n * x =
      ∑ i ∈ Finset.range width, if n.testBit i then root ^ i * x else 0 := by
  unfold powers
  rw [Finset.sum_mul]
  refine Finset.sum_congr rfl fun i _ => ?_
  rw [ite_mul, zero_mul]

end MdsFormal.Library.BitPowers
