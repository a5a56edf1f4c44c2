import Mathlib.Data.Nat.Bitwise

/-!
# Bits of a byte string

The bits of a byte string are numbered from its first byte on, the most
significant bit of each byte first.  A burst is a string whose bits are 1 within
a window of consecutive positions only; sixteen positions touch three bytes at
most, the outer two of them in part.
-/

namespace MdsFormal.Library.BitWindow

def bitAt (bytes : List UInt8) (position : Nat) : Bool :=
  (bytes.getD (position / 8) 0).toNat.testBit (7 - position % 8)

/-- The 1 bits lie in a window of `width` positions. -/
def Within (width : Nat) (bytes : List UInt8) : Prop :=
  ∃ start, ∀ position, bitAt bytes position = true →
    start ≤ position ∧ position < start + width

/-- Bit `i` of byte `k`, counted from the least significant one. -/
theorem bitAt_byte (bytes : List UInt8) (k : Nat) {i : Nat} (hi : i < 8) :
    bitAt bytes (8 * k + (7 - i)) = (bytes.getD k 0).toNat.testBit i := by
  have hbyte : (8 * k + (7 - i)) / 8 = k := by omega
  have hbit : 7 - (8 * k + (7 - i)) % 8 = i := by omega
  rw [bitAt, hbyte, hbit]

theorem testBit_high (byte : UInt8) {i : Nat} (hi : 8 ≤ i) : byte.toNat.testBit i = false := by
  apply Nat.testBit_lt_two_pow
  exact Nat.lt_of_lt_of_le byte.toNat_lt (Nat.pow_le_pow_right (by decide) hi)

theorem eq_zero_of_testBit {byte : UInt8} (hbits : ∀ i < 8, byte.toNat.testBit i = false) :
    byte = 0 := by
  apply UInt8.toNat_inj.mp
  apply Nat.eq_of_testBit_eq
  intro i
  rw [UInt8.toNat_zero, Nat.zero_testBit]
  rcases Nat.lt_or_ge i 8 with hlt | hge
  · exact hbits i hlt
  · exact testBit_high byte hge

theorem lt_two_pow_of_testBit {byte : UInt8} {count : Nat}
    (hbits : ∀ i < 8, count ≤ i → byte.toNat.testBit i = false) : byte.toNat < 2 ^ count := by
  apply Nat.lt_pow_two_of_testBit
  intro i hi
  rcases Nat.lt_or_ge i 8 with hlt | hge
  · exact hbits i hlt hi
  · exact testBit_high byte hge

theorem mod_two_pow_of_testBit {byte : UInt8} {count : Nat}
    (hbits : ∀ i < 8, i < count → byte.toNat.testBit i = false) :
    byte.toNat % 2 ^ count = 0 := by
  apply Nat.eq_of_testBit_eq
  intro i
  rw [Nat.testBit_mod_two_pow, Nat.zero_testBit]
  rcases Nat.lt_or_ge i count with hlt | hge
  · rcases Nat.lt_or_ge i 8 with hlow | hhigh
    · rw [hbits i hlow hlt, Bool.and_false]
    · rw [testBit_high byte hhigh, Bool.and_false]
  · rw [decide_eq_false (Nat.not_lt.mpr hge), Bool.false_and]

/-- Three bytes hold a burst of sixteen bits: the first has no bit above the `low` lowest,
the last none among them. -/
theorem Within.three_bytes {bytes : List UInt8} (hburst : Within 16 bytes) :
    ∃ first low, low ≤ 8 ∧
      (∀ k, k < first ∨ first + 2 < k → bytes.getD k 0 = 0) ∧
      (bytes.getD first 0).toNat < 2 ^ low ∧ (bytes.getD (first + 2) 0).toNat % 2 ^ low = 0 := by
  obtain ⟨start, hwindow⟩ := hburst
  have hbit : ∀ k, ∀ i < 8, (bytes.getD k 0).toNat.testBit i = true →
      start ≤ 8 * k + (7 - i) ∧ 8 * k + (7 - i) < start + 16 := by
    intro k i hi hset
    rw [← bitAt_byte bytes k hi] at hset
    exact hwindow _ hset
  refine ⟨start / 8, 8 - start % 8, Nat.sub_le _ _, ?_, ?_, ?_⟩
  · intro k hk
    apply eq_zero_of_testBit
    intro i hi
    apply Bool.eq_false_iff.mpr
    intro hset
    have hpos := hbit k i hi hset
    omega
  · apply lt_two_pow_of_testBit
    intro i hi hlow
    apply Bool.eq_false_iff.mpr
    intro hset
    have hpos := hbit _ i hi hset
    omega
  · apply mod_two_pow_of_testBit
    intro i hi hlow
    apply Bool.eq_false_iff.mpr
    intro hset
    have hpos := hbit _ i hi hset
    omega

end MdsFormal.Library.BitWindow
