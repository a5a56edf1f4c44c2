import Mathlib.Algebra.CharP.Algebra
import Mathlib.Algebra.Field.ZMod
import Mathlib.RingTheory.AdjoinRoot
import Mathlib.Tactic.ComputeDegree
import Mathlib.Tactic.LinearCombination
import MdsFormal.Crypto.AesInverse
import MdsFormal.Library.BitPowers

/-!
# Bytes as elements of a field

AES reads a byte as a polynomial over two elements, modulo `x^8 + x^4 + x^3 + x + 1`.
`xtime` and `Multiply` are the multiplication of these residues, and the table of
`SubBytes` takes a byte to an affine image of its inverse.
-/

namespace MdsFormal.Crypto.FieldArithmetic

open Polynomial
open MdsFormal.Crypto.Aes
open MdsFormal.Library.BitPowers
open MdsFormal.Library.Buffer (forall_byte)

/-! ## The residues -/

noncomputable def modulus : (ZMod 2)[X] := X ^ 8 + X ^ 4 + X ^ 3 + X + 1

theorem degree_modulus : modulus.degree = 8 := by
  unfold modulus
  compute_degree!

abbrev ByteField : Type := AdjoinRoot modulus

instance : Nontrivial ByteField := by
  apply AdjoinRoot.nontrivial
  rw [degree_modulus]
  decide

instance : CharP ByteField 2 :=
  charP_of_injective_algebraMap (algebraMap (ZMod 2) ByteField).injective 2

noncomputable def root : ByteField := AdjoinRoot.root modulus

/-- The highest power is the sum of the lower ones. -/
theorem root_pow_eight : root ^ 8 = root ^ 4 + root ^ 3 + root + 1 := by
  have hself : AdjoinRoot.mk modulus (X ^ 8 + X ^ 4 + X ^ 3 + X + 1) = 0 := AdjoinRoot.mk_self
  simp only [map_add, map_pow, map_one, AdjoinRoot.mk_X] at hself
  have hroot : root ^ 8 + root ^ 4 + root ^ 3 + root + 1 = 0 := hself
  linear_combination hroot - CharTwo.add_self_eq_zero (root ^ 4 + root ^ 3 + root + 1)

/-- The residue that a byte stands for. -/
noncomputable def residue (x : UInt8) : ByteField := powers root 8 x.toNat

/-! ## Addition and multiplication -/

@[simp]
theorem residue_zero : residue 0 = 0 := powers_zero root 8

theorem residue_one : residue 1 = 1 := by
  unfold residue powers
  simp [Finset.sum_range_succ, Nat.testBit]

theorem residue_xor (x y : UInt8) : residue (x ^^^ y) = residue x + residue y := by
  unfold residue
  rw [UInt8.toNat_xor]
  exact powers_xor root 8 _ _

/-- What `xtime` feeds back is the residue of the power that it shifts out. -/
theorem residue_feedback (x : UInt8) :
    residue (((x >>> 7) &&& 1) * 0x1b) = if x.toNat.testBit 7 then root ^ 8 else 0 := by
  have hbit : ((x >>> 7) &&& 1) * 0x1b = if x.toNat.testBit 7 then 0x1b else 0 := by
    revert x
    apply forall_byte
    decide +kernel
  rw [hbit]
  split
  · rw [root_pow_eight]
    unfold residue powers
    simp [Finset.sum_range_succ, Nat.testBit]
    ring
  · exact residue_zero

theorem residue_xtime (x : UInt8) : residue (xtime x) = root * residue x := by
  have hshift : residue (x <<< 1) + (if x.toNat.testBit 7 then root ^ 8 else 0) =
      root * residue x := by
    have hlow : residue (x <<< 1) = powers root 8 (x.toNat <<< 1) := by
      unfold residue
      rw [UInt8.toNat_shiftLeft]
      exact powers_mod root 8 _
    have hhigh : (x.toNat <<< 1).testBit 8 = x.toNat.testBit 7 := by
      simp [Nat.testBit_shiftLeft]
    rw [hlow, residue, ← powers_shiftLeft_one root 8 x.toNat, powers_succ root 8, hhigh]
  rw [xtime, residue_xor, residue_feedback, hshift]

/-- A bit of one factor selects a multiple of the other. -/
theorem residue_bitTimes (y k x : UInt8) (hk : k < 8) :
    residue (bitTimes y k x) = if y.toNat.testBit k.toNat then residue x else 0 := by
  have hbit : (y >>> k) &&& 1 = if y.toNat.testBit k.toNat then 1 else 0 := by
    have hall : ∀ k < 8, ∀ y : UInt8,
        (y >>> UInt8.ofNat k) &&& 1 = if y.toNat.testBit k then 1 else 0 := by
      intro k hk
      interval_cases k <;> (apply forall_byte; decide +kernel)
    have hkey := hall k.toNat hk y
    rwa [UInt8.ofNat_toNat] at hkey
  rw [bitTimes, hbit]
  split
  · rw [UInt8.one_mul]
  · rw [UInt8.zero_mul, residue_zero]

/-- `Multiply` multiplies residues, of the second of which it takes the low five bits. -/
theorem residue_multiply (x y : UInt8) :
    residue (multiply x y) = residue x * powers root 5 y.toNat := by
  have hsum := powers_mul root 5 y.toNat (residue x)
  rw [mul_comm, hsum]
  simp only [multiply, residue_xor, residue_bitTimes _ _ _ (by decide : (0 : UInt8) < 8),
    residue_bitTimes _ _ _ (by decide : (1 : UInt8) < 8),
    residue_bitTimes _ _ _ (by decide : (2 : UInt8) < 8),
    residue_bitTimes _ _ _ (by decide : (3 : UInt8) < 8),
    residue_bitTimes _ _ _ (by decide : (4 : UInt8) < 8), residue_xtime]
  rw [Finset.sum_range_succ, Finset.sum_range_succ, Finset.sum_range_succ, Finset.sum_range_succ,
    Finset.sum_range_one]
  simp only [pow_succ', pow_zero, one_mul, mul_one, mul_assoc]
  rfl

/-- The product of two bytes as elements of the field. -/
def product (x y : UInt8) : UInt8 :=
  multiply x (y &&& 0x1f) ^^^ bitTimes y 5 (xtime (xtime (xtime (xtime (xtime x))))) ^^^
    bitTimes y 6 (xtime (xtime (xtime (xtime (xtime (xtime x)))))) ^^^
    bitTimes y 7 (xtime (xtime (xtime (xtime (xtime (xtime (xtime x)))))))

theorem residue_product (x y : UInt8) : residue (product x y) = residue x * residue y := by
  have hlow : powers root 5 (y &&& 0x1f).toNat = powers root 5 y.toNat := by
    rw [UInt8.toNat_and, ← powers_mod root 5 y.toNat]
    exact congrArg _ (Nat.and_two_pow_sub_one_eq_mod y.toNat 5)
  have hhigh : residue y = powers root 5 y.toNat + (if y.toNat.testBit 5 then root ^ 5 else 0) +
      (if y.toNat.testBit 6 then root ^ 6 else 0) +
      (if y.toNat.testBit 7 then root ^ 7 else 0) := by
    rw [residue, powers_succ, powers_succ, powers_succ]
  rw [product, residue_xor, residue_xor, residue_xor, residue_multiply, hlow, hhigh]
  simp only [residue_bitTimes _ _ _ (by decide : (5 : UInt8) < 8),
    residue_bitTimes _ _ _ (by decide : (6 : UInt8) < 8),
    residue_bitTimes _ _ _ (by decide : (7 : UInt8) < 8), residue_xtime]
  have hfive : (5 : UInt8).toNat = 5 := rfl
  have hsix : (6 : UInt8).toNat = 6 := rfl
  have hseven : (7 : UInt8).toNat = 7 := rfl
  rw [hfive, hsix, hseven]
  split <;> split <;> split <;> ring

/-! ## Inverses and the S-box -/

/-- Bit `i` of the affine image of a byte. -/
def affineBit (x : UInt8) (i : Nat) : Bool :=
  x.toNat.testBit i ^^ x.toNat.testBit ((i + 4) % 8) ^^ x.toNat.testBit ((i + 5) % 8) ^^
    x.toNat.testBit ((i + 6) % 8) ^^ x.toNat.testBit ((i + 7) % 8) ^^ (0x63).testBit i

/-- The affine map of the S-box. -/
def affine (x : UInt8) : UInt8 := UInt8.ofNat (Nat.ofBits fun i : Fin 8 => affineBit x i)

/-- Bit `i` of the byte that the affine map takes to `x`. -/
def affineInverseBit (x : UInt8) (i : Nat) : Bool :=
  x.toNat.testBit ((i + 2) % 8) ^^ x.toNat.testBit ((i + 5) % 8) ^^
    x.toNat.testBit ((i + 7) % 8) ^^ (0x05).testBit i

def affineInverse (x : UInt8) : UInt8 :=
  UInt8.ofNat (Nat.ofBits fun i : Fin 8 => affineInverseBit x i)

/-- The byte that the S-box takes the affine image of; `product_inverse` says which it is. -/
def inverse (x : UInt8) : UInt8 := affineInverse (getSBoxValue x)

theorem product_inverse (x : UInt8) (hx : x ≠ 0) : product x (inverse x) = 1 := by
  revert hx
  revert x
  apply forall_byte
  decide +kernel

theorem inverse_zero : inverse 0 = 0 := by
  decide +kernel

/-- Bytes stand for different residues. -/
theorem residue_injective : Function.Injective residue := by
  intro x y hxy
  have hzero : residue (x ^^^ y) = 0 := by
    rw [residue_xor, hxy, CharTwo.add_self_eq_zero]
  by_contra hne
  have hdifference : x ^^^ y ≠ 0 := fun heq => hne (UInt8.xor_eq_zero_iff.mp heq)
  have hone := congrArg residue (product_inverse (x ^^^ y) hdifference)
  rw [residue_product, hzero, zero_mul, residue_one] at hone
  exact zero_ne_one hone

/-- The residues of bytes are closed under sums of products with powers of the root. -/
theorem residue_surjective : Function.Surjective residue := by
  have hpower : ∀ n : Nat, ∃ x, residue x = root ^ n := by
    intro n
    induction n with
    | zero => exact ⟨1, residue_one⟩
    | succ n ih =>
        obtain ⟨x, hx⟩ := ih
        exact ⟨xtime x, by rw [residue_xtime, hx, pow_succ']⟩
  intro element
  obtain ⟨p, rfl⟩ := AdjoinRoot.mk_surjective element
  induction p using Polynomial.induction_on' with
  | add p q hp hq =>
      obtain ⟨x, hx⟩ := hp
      obtain ⟨y, hy⟩ := hq
      exact ⟨x ^^^ y, by rw [residue_xor, hx, hy, map_add]⟩
  | monomial n a =>
      obtain ⟨x, hx⟩ := hpower n
      rcases (by decide : ∀ a : ZMod 2, a = 0 ∨ a = 1) a with rfl | rfl
      · exact ⟨0, by rw [residue_zero, monomial_zero_right, map_zero]⟩
      · refine ⟨x, ?_⟩
        rw [hx, ← X_pow_eq_monomial, map_pow, AdjoinRoot.mk_X, root]

/-- Bytes and residues are the same thing. -/
noncomputable def residueEquiv : UInt8 ≃ ByteField :=
  Equiv.ofBijective residue ⟨residue_injective, residue_surjective⟩

/-- The inverse of an element; 0 where there is none. -/
theorem ringInverse_residue (x : UInt8) : Ring.inverse (residue x) = residue (inverse x) := by
  by_cases hx : x = 0
  · rw [hx, inverse_zero, residue_zero, Ring.inverse_zero]
  · have hone : residue x * residue (inverse x) = 1 := by
      rw [← residue_product, product_inverse x hx, residue_one]
    have hunit : IsUnit (residue x) := IsUnit.of_mul_eq_one _ hone
    have hkey := (Ring.inverse_mul_eq_iff_eq_mul _ 1 (residue (inverse x)) hunit).mpr hone.symm
    rwa [mul_one] at hkey

/-- The map that the S-box is made for: the affine image of the inverse. -/
noncomputable def sBox (element : ByteField) : ByteField :=
  residue (affine (residueEquiv.symm (Ring.inverse element)))

theorem affine_affineInverse (x : UInt8) : affine (affineInverse x) = x := by
  revert x
  apply forall_byte
  decide +kernel

/-- The table of `SubBytes` is the affine image of the inverse, for every byte. -/
theorem residue_getSBoxValue (x : UInt8) : residue (getSBoxValue x) = sBox (residue x) := by
  have hinverse : residueEquiv.symm (Ring.inverse (residue x)) = inverse x := by
    rw [ringInverse_residue]
    exact residueEquiv.symm_apply_apply (inverse x)
  rw [sBox, hinverse, inverse, affine_affineInverse]

end MdsFormal.Crypto.FieldArithmetic
