import Mathlib.Algebra.CharP.Two
import Mathlib.Algebra.Field.ZMod
import Mathlib.Algebra.Polynomial.Degree.Monomial
import Mathlib.Tactic.ComputeDegree
import Mathlib.Tactic.LinearCombination
import MdsFormal.Library.ShiftRegister
import MdsFormal.Storage.CrcBursts

/-!
# The CRC as a division of polynomials

The table of the source holds eight turns of a shift register for each byte.  The register
divides by `x^16 + x^12 + x^5 + 1` over the field of two elements, so the CRC of a buffer
is the remainder of its polynomial times `x^16`.
-/

namespace MdsFormal.Storage.CrcPolynomial

open Polynomial
open MdsFormal.Library.Buffer (forall_byte)
open MdsFormal.Library.LinearFold
open MdsFormal.Library.ShiftRegister
open MdsFormal.Storage.Crc16
open MdsFormal.Storage.CrcBursts

/-! ## Bit by bit -/

/-- The bits of a byte, the most significant one first. -/
def byteBits (byte : UInt8) : List Bool :=
  (List.range 8).map fun i => byte.toNat.testBit (7 - i)

def messageBits (buf : List UInt8) : List Bool := buf.flatMap byteBits

def topBit (crc : UInt16) : Bool := crc.toNat.testBit 15

/-- What is fed back when a 1 leaves the register: `x^12 + x^5 + 1`. -/
def feedback (carry : Bool) : UInt16 := if carry then 0x1021 else 0

/-- One turn of the shift register. -/
def crcBit (crc : UInt16) (bit : Bool) : UInt16 :=
  (crc <<< 1) ^^^ feedback (xor (topBit crc) bit)

/-- The CRC that takes the message bit by bit. -/
def bitwiseCrc (buf : List UInt8) : UInt16 := (messageBits buf).foldl crcBit 0

theorem feedback_xor (first second : Bool) :
    feedback (xor first second) = feedback first ^^^ feedback second := by
  cases first <;> cases second <;> rfl

theorem crcBit_xor (first second : UInt16) (left right : Bool) :
    crcBit (first ^^^ second) (xor left right) = crcBit first left ^^^ crcBit second right := by
  have hcarry : xor (topBit (first ^^^ second)) (xor left right) =
      xor (xor (topBit first) left) (xor (topBit second) right) := by
    unfold topBit
    rw [UInt16.toNat_xor, Nat.testBit_xor, Bool.xor_assoc, Bool.xor_assoc,
      Bool.xor_left_comm left]
  unfold crcBit
  rw [hcarry, feedback_xor, UInt16.shiftLeft_xor]
  ac_rfl

/-! ## Eight turns -/

def noBits : List Bool := List.replicate 8 false

/-- A byte that is still far from the top moves up. -/
theorem foldl_crcBit_low (byte : UInt8) :
    noBits.foldl crcBit byte.toUInt16 = byte.toUInt16 <<< 8 := by
  revert byte
  apply forall_byte
  decide +kernel

/-- A byte at the top is turned into its table word. -/
theorem foldl_crcBit_high (byte : UInt8) :
    noBits.foldl crcBit (byte.toUInt16 <<< 8) = feed byte.toUInt16 := by
  revert byte
  apply forall_byte
  decide +kernel

/-- And so is a byte of the message. -/
theorem foldl_crcBit_bits (byte : UInt8) :
    (byteBits byte).foldl crcBit 0 = feed byte.toUInt16 := by
  revert byte
  apply forall_byte
  decide +kernel

theorem foldl_noBits_xor (first second : UInt16) :
    noBits.foldl crcBit (first ^^^ second) =
      noBits.foldl crcBit first ^^^ noBits.foldl crcBit second :=
  @foldl_zipWith _ _ crcBit (· ^^^ ·) xor crcBit_xor noBits noBits rfl first second

/-- The bits of a byte, and the register before them, can be taken one after the other. -/
theorem foldl_byteBits (crc : UInt16) (byte : UInt8) :
    (byteBits byte).foldl crcBit crc =
      noBits.foldl crcBit crc ^^^ (byteBits byte).foldl crcBit 0 := by
  have hzip : List.zipWith xor noBits (byteBits byte) = byteBits byte := by
    simp [noBits, byteBits, List.range_succ]
  have hsplit := @foldl_zipWith _ _ crcBit (· ^^^ ·) xor crcBit_xor noBits (byteBits byte) rfl crc 0
  rwa [hzip, UInt16.xor_zero] at hsplit

theorem low_toUInt16 (byte : UInt8) : low byte.toUInt16 = byte := by
  revert byte
  apply forall_byte
  decide +kernel

theorem high_toUInt16 (byte : UInt8) : high byte.toUInt16 = 0 := by
  revert byte
  apply forall_byte
  decide +kernel

theorem eq_low_xor_high (crc : UInt16) :
    crc = (low crc).toUInt16 ^^^ (high crc).toUInt16 <<< 8 := by
  apply eq_of_high_low
  · rw [high_xor, high_shiftLeft, high_toUInt16, low_toUInt16, UInt8.zero_xor]
  · rw [low_xor, low_shiftLeft, low_toUInt16, UInt8.xor_zero]

theorem shiftLeft_low (crc : UInt16) : (low crc).toUInt16 <<< 8 = crc <<< 8 := by
  apply eq_of_high_low
  · rw [high_shiftLeft, high_shiftLeft, low_toUInt16]
  · rw [low_shiftLeft, low_shiftLeft]

/-- One turn of the loop over the table is eight turns of the register. -/
theorem crc16Step_eq_foldl (crc : UInt16) (byte : UInt8) :
    crc16Step crc byte = (byteBits byte).foldl crcBit crc := by
  have hregister : noBits.foldl crcBit crc = crc <<< 8 ^^^ feed (high crc).toUInt16 := by
    calc noBits.foldl crcBit crc
        = noBits.foldl crcBit ((low crc).toUInt16 ^^^ (high crc).toUInt16 <<< 8) :=
          congrArg (noBits.foldl crcBit) (eq_low_xor_high crc)
      _ = crc <<< 8 ^^^ feed (high crc).toUInt16 := by
          rw [foldl_noBits_xor, foldl_crcBit_low, foldl_crcBit_high, shiftLeft_low]
  rw [crc16Step_eq, UInt8.toUInt16_xor, feed_xor, foldl_byteBits, hregister, foldl_crcBit_bits,
    UInt16.xor_assoc]

theorem mdsApiCrc16Get_eq_bitwiseCrc (buf : List UInt8) : mdsApiCrc16Get buf = bitwiseCrc buf := by
  have hfold : ∀ crc, buf.foldl crc16Step crc = (messageBits buf).foldl crcBit crc := by
    induction buf with
    | nil => exact fun _ => rfl
    | cons byte rest ih =>
        intro crc
        rw [messageBits, List.flatMap_cons, List.foldl_append, List.foldl_cons, ih,
          crc16Step_eq_foldl]
        rfl
  exact hfold 0

/-! ## Polynomials -/

def coefficient (bit : Bool) : ZMod 2 := if bit then 1 else 0

/-- Bit `i` of a word is the coefficient at `x^i`. -/
noncomputable def wordPoly (word : UInt16) : (ZMod 2)[X] :=
  ∑ i ∈ Finset.range 16, C (coefficient (word.toNat.testBit i)) * X ^ i

/-- The bits of the message as coefficients, the first one at the highest power. -/
noncomputable def messagePoly (buf : List UInt8) : (ZMod 2)[X] :=
  horner coefficient (messageBits buf)

/-- `x^16 + x^12 + x^5 + 1` -/
noncomputable def generator : (ZMod 2)[X] := X ^ 16 + (X ^ 12 + X ^ 5 + 1)

theorem testBit_above (word : UInt16) {n : Nat} (hn : 16 ≤ n) : word.toNat.testBit n = false := by
  apply Nat.testBit_lt_two_pow
  exact Nat.lt_of_lt_of_le word.toNat_lt (Nat.pow_le_pow_right (by decide) hn)

theorem coeff_wordPoly (word : UInt16) (n : Nat) :
    (wordPoly word).coeff n = coefficient (word.toNat.testBit n) := by
  simp only [wordPoly, finsetSum_coeff, coeff_C_mul_X_pow, Finset.sum_ite_eq, Finset.mem_range]
  split
  · rfl
  next hn =>
      rw [testBit_above word (Nat.le_of_not_lt hn)]
      rfl

theorem coefficient_xor (first second : Bool) :
    coefficient (xor first second) = coefficient first + coefficient second := by
  cases first <;> cases second <;> rfl

theorem wordPoly_xor (first second : UInt16) :
    wordPoly (first ^^^ second) = wordPoly first + wordPoly second := by
  ext n
  rw [coeff_add, coeff_wordPoly, coeff_wordPoly, coeff_wordPoly, UInt16.toNat_xor,
    Nat.testBit_xor, coefficient_xor]

theorem wordPoly_zero : wordPoly 0 = 0 := by
  ext n
  rw [coeff_wordPoly, coeff_zero, UInt16.toNat_zero, Nat.zero_testBit]
  rfl

theorem wordPoly_feedback (carry : Bool) :
    wordPoly (feedback carry) = C (coefficient carry) * (X ^ 12 + X ^ 5 + 1) := by
  cases carry with
  | false =>
      change wordPoly 0 = C 0 * _
      rw [wordPoly_zero, C_0, zero_mul]
  | true =>
      have hword : wordPoly 0x1021 = X ^ 12 + X ^ 5 + 1 := by
        simp [wordPoly, Finset.sum_range_succ, coefficient, Nat.testBit]
        ring
      change wordPoly 0x1021 = C 1 * _
      rw [hword, C_1, one_mul]

theorem toNat_shiftLeft_one (word : UInt16) :
    (word <<< 1).toNat = (2 * word.toNat) % 2 ^ 16 := by
  rw [UInt16.toNat_shiftLeft, Nat.shiftLeft_eq, Nat.mul_comm]
  rfl

theorem testBit_shiftLeft_one (word : UInt16) (n : Nat) :
    (word <<< 1).toNat.testBit (n + 1) = (decide (n + 1 < 16) && word.toNat.testBit n) := by
  rw [toNat_shiftLeft_one, Nat.testBit_mod_two_pow, Nat.testBit_add_one,
    Nat.mul_div_cancel_left _ (by decide)]

theorem testBit_zero_shiftLeft (word : UInt16) : (word <<< 1).toNat.testBit 0 = false := by
  rw [toNat_shiftLeft_one, Nat.testBit_mod_two_pow, Nat.testBit_zero, Nat.mul_mod_right]
  rfl

/-- Moving up multiplies by `x`; the top bit is lost. -/
theorem wordPoly_shiftLeft (word : UInt16) :
    wordPoly (word <<< 1) = wordPoly word * X + C (coefficient (topBit word)) * X ^ 16 := by
  ext n
  rw [coeff_add, coeff_C_mul_X_pow, coeff_wordPoly]
  cases n with
  | zero =>
      rw [coeff_mul_X_zero, if_neg (by decide), add_zero, testBit_zero_shiftLeft]
      rfl
  | succ n =>
      rw [coeff_mul_X, coeff_wordPoly, testBit_shiftLeft_one]
      rcases Nat.lt_trichotomy n 15 with hlt | rfl | hgt
      · rw [decide_eq_true (Nat.succ_lt_succ hlt), Bool.true_and, if_neg (by omega), add_zero]
      · rw [if_pos rfl]
        exact (CharTwo.add_self_eq_zero _).symm
      · rw [testBit_above word hgt, Bool.and_false, if_neg (by omega), add_zero]

theorem degree_wordPoly_lt (word : UInt16) : (wordPoly word).degree < 16 := by
  refine (degree_lt_iff_coeff_zero _ 16).mpr fun n hn => ?_
  rw [coeff_wordPoly, testBit_above word hn]
  rfl

theorem degree_low_terms : (X ^ 12 + X ^ 5 + 1 : (ZMod 2)[X]).degree < ((16 : ℕ) : WithBot ℕ) := by
  refine lt_of_le_of_lt (b := 12) ?_ (by decide)
  compute_degree

theorem monic_generator : generator.Monic := monic_X_pow_add degree_low_terms

theorem degree_generator : generator.degree = ((16 : ℕ) : WithBot ℕ) := by
  rw [generator, degree_add_eq_left_of_degree_lt, degree_X_pow]
  rw [degree_X_pow]
  exact degree_low_terms

/-- One turn multiplies by `x`, adds the bit and takes the generator away once or not at all. -/
theorem wordPoly_crcBit (crc : UInt16) (bit : Bool) :
    ∃ q, wordPoly (crcBit crc bit) + q * generator =
      wordPoly crc * X + C (coefficient bit) * X ^ 16 := by
  have htwice (p : (ZMod 2)[X]) : p + p = 0 := CharTwo.add_self_eq_zero p
  have hbit : C (coefficient bit) = C (coefficient (topBit crc)) +
      C (coefficient (xor (topBit crc) bit)) := by
    rw [← C_add, ← coefficient_xor, ← Bool.xor_assoc, Bool.xor_self, Bool.false_xor]
  refine ⟨C (coefficient (xor (topBit crc) bit)), ?_⟩
  rw [crcBit, wordPoly_xor, wordPoly_shiftLeft, wordPoly_feedback, generator, hbit]
  linear_combination htwice (C (coefficient (xor (topBit crc) bit)) * (X ^ 12 + X ^ 5 + 1))

/--
The CRC by the table is the remainder of the message times `x^16`, and what the register
computes bit by bit.
-/
theorem mdsApiCrc16Get_eq_remainder (buf : List UInt8) :
    wordPoly (mdsApiCrc16Get buf) = (messagePoly buf * X ^ 16) %ₘ generator ∧
      mdsApiCrc16Get buf = bitwiseCrc buf := by
  have hbitwise := mdsApiCrc16Get_eq_bitwiseCrc buf
  refine ⟨?_, hbitwise⟩
  rw [hbitwise]
  refine foldl_eq_modByMonic monic_generator wordPoly_crcBit ?_ wordPoly_zero (messageBits buf)
  intro crc
  rw [degree_generator]
  exact degree_wordPoly_lt crc

end MdsFormal.Storage.CrcPolynomial
