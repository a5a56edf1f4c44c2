import Mathlib.Algebra.Group.Nat.Defs

/-!
# Integers in memory

An unsigned integer as a fixed number of bytes, the least significant one first,
and back.
-/

namespace MdsFormal.Library.IntMemory

def leBytes : Nat → Nat → List UInt8
  | 0, _ => []
  | count + 1, value => UInt8.ofNat value :: leBytes count (value / 256)

def leValue : List UInt8 → Nat
  | [] => 0
  | byte :: rest => byte.toNat + 256 * leValue rest

@[simp]
theorem length_leBytes (count value : Nat) : (leBytes count value).length = count := by
  induction count generalizing value with
  | zero => rfl
  | succ count ih => exact congrArg Nat.succ (ih (value / 256))

/-- What is read back is the value up to the width it was stored in. -/
theorem leValue_leBytes (count value : Nat) :
    leValue (leBytes count value) = value % 256 ^ count := by
  induction count generalizing value with
  | zero => exact (Nat.mod_one value).symm
  | succ count ih =>
      have hbyte : (UInt8.ofNat value).toNat = value % 256 := UInt8.toNat_ofNat'
      have hpow : 256 ^ (count + 1) = 256 * 256 ^ count := by
        rw [Nat.pow_succ, Nat.mul_comm]
      rw [leBytes, leValue, ih, hbyte, hpow, Nat.mod_mul]

end MdsFormal.Library.IntMemory
