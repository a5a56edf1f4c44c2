import Mathlib.Logic.Function.Basic
import MdsFormal.Library.Faults

/-!
# Memory in separate regions

A memory is a family of regions, each with a size and its bytes.  The regions never
overlap, and an access outside of one is a fault that names it.
-/

namespace MdsFormal.Library.Regions

open Faults

structure Memory (Region : Type) where
  size : Region → Nat
  bytes : Region → Nat → UInt8

namespace Memory

section

variable {Region : Type}

/-- The `n` bytes from `off` on are in the region. -/
def within (mem : Memory Region) (region : Region) (off n : Nat) : Except Region Unit :=
  require (off + n ≤ mem.size region) region

variable [DecidableEq Region]

/-- Other bytes for a region. -/
def put (mem : Memory Region) (region : Region) (bytes : Nat → UInt8) : Memory Region :=
  { mem with bytes := Function.update mem.bytes region bytes }

/-- A region of `n` bytes that was not there before. -/
def alloc (mem : Memory Region) (region : Region) (n : Nat) (bytes : Nat → UInt8) :
    Memory Region where
  size := Function.update mem.size region n
  bytes := Function.update mem.bytes region bytes

/-- The region is gone, and an access to it is outside. -/
def free (mem : Memory Region) (region : Region) : Memory Region :=
  { mem with size := Function.update mem.size region 0 }

end

section

variable {Region : Type} {mem : Memory Region} {region other : Region}
  {bytes bytes' : Nat → UInt8} {off n : Nat}

theorem guarded_within :
    Guarded (off + n ≤ mem.size region) (mem.within region off n) fun _ => True :=
  guarded_require

variable [DecidableEq Region]

@[simp]
theorem put_size : (mem.put region bytes).size = mem.size := rfl

@[simp]
theorem put_bytes_self : (mem.put region bytes).bytes region = bytes :=
  Function.update_self _ _ _

theorem put_bytes_ne (hne : other ≠ region) :
    (mem.put region bytes).bytes other = mem.bytes other :=
  Function.update_of_ne hne _ _

@[simp]
theorem put_put : (mem.put region bytes).put region bytes' = mem.put region bytes' := by
  unfold put
  rw [Function.update_idem]

theorem put_comm (hne : region ≠ other) :
    (mem.put region bytes).put other bytes' = (mem.put other bytes').put region bytes := by
  unfold put
  rw [Function.update_comm hne]

@[simp]
theorem put_self : mem.put region (mem.bytes region) = mem := by
  unfold put
  rw [Function.update_eq_self]

end

end Memory

end MdsFormal.Library.Regions
