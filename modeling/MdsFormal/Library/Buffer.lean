import Mathlib.Data.List.Basic
import Mathlib.Logic.Function.Basic

/-!
# Output into a bounded buffer

A buffer is the memory from a pointer on.  A writer puts bytes one behind the other and
gives up when the next ones would not fit its limit; `Emits` says that a run of a writer
puts out given bytes and a closing NUL, or gives up within the limit.  Writers are put
together by `Emits.prepend`.
-/

namespace MdsFormal.Library.Buffer

/-- A fact about every byte, from the 256 numbers. -/
theorem forall_byte (p : UInt8 → Prop) (hall : ∀ n < 256, p (UInt8.ofNat n)) (x : UInt8) : p x := by
  have hx := hall x.toNat x.toNat_lt
  rwa [UInt8.ofNat_toNat] at hx

/-- The memory from a pointer on. -/
abbrev Memory := Nat → UInt8

/-- Write bytes one behind the other. -/
def writeAt (out : Memory) : Nat → List UInt8 → Memory
  | _, [] => out
  | pos, b :: rest => writeAt (Function.update out pos b) (pos + 1) rest

section

variable {out : Memory} {pos a : Nat} {bytes xs ys : List UInt8}

theorem writeAt_append :
    writeAt out pos (xs ++ ys) = writeAt (writeAt out pos xs) (pos + xs.length) ys := by
  induction xs generalizing out pos with
  | nil => rfl
  | cons x rest ih =>
      rw [List.cons_append, writeAt, writeAt, ih, List.length_cons, Nat.add_right_comm,
        Nat.add_assoc]

theorem writeAt_outside (hout : a < pos ∨ pos + bytes.length ≤ a) :
    writeAt out pos bytes a = out a := by
  induction bytes generalizing out pos with
  | nil => rfl
  | cons b rest ih =>
      rw [List.length_cons] at hout
      rw [writeAt, ih (by omega), Function.update_of_ne (by omega)]

theorem writeAt_get {b : UInt8} (hget : bytes[a]? = some b) :
    writeAt out pos bytes (pos + a) = b := by
  induction bytes generalizing out pos a with
  | nil => cases hget
  | cons first rest ih =>
      cases a with
      | zero =>
          cases hget
          rw [Nat.add_zero, writeAt, writeAt_outside (Or.inl (Nat.lt_succ_self pos)),
            Function.update_self]
      | succ a =>
          rw [writeAt, ← Nat.add_assoc, Nat.add_right_comm]
          exact ih hget

end

/-! ## Writers -/

/-- A writer at `pos` either puts out the bytes and a NUL, and returns the position of the NUL,
or returns -1 because these do not fit, with a part of the bytes written within the limit. -/
def Emits (limit : Int) (pos : Nat) (out : Memory) (bytes : List UInt8)
    (result : Int × Memory) : Prop :=
  if (pos + bytes.length + 1 : Int) ≤ limit then
    result = (((pos + bytes.length : Nat) : Int), writeAt out pos (bytes ++ [0]))
  else
    ∃ written, written <+: bytes ∧ (written = [] ∨ (pos + written.length : Int) ≤ limit) ∧
      result = (-1, writeAt out pos written)

section

variable {limit : Int} {pos : Nat} {out : Memory} {bytes xs ys : List UInt8}
  {result : Int × Memory}

/-- A writer that has put out some bytes and goes on with others. -/
theorem Emits.prepend (hrest : Emits limit (pos + xs.length) (writeAt out pos xs) ys result)
    (hfits : (pos + xs.length : Int) ≤ limit) : Emits limit pos out (xs ++ ys) result := by
  unfold Emits at hrest ⊢
  have hlen : ((pos + (xs ++ ys).length + 1 : Int)) = (pos + xs.length : Nat) + ys.length + 1 := by
    rw [List.length_append]
    omega
  rw [hlen]
  split at hrest
  · rename_i hroom
    have hwritten : writeAt out pos (xs ++ ys ++ [0]) =
        writeAt (writeAt out pos xs) (pos + xs.length) (ys ++ [0]) := by
      rw [List.append_assoc, writeAt_append]
    rw [if_pos hroom, hrest, hwritten, List.length_append, Nat.add_assoc]
  · rename_i hroom
    rw [if_neg hroom]
    obtain ⟨written, hprefix, hwithin, rfl⟩ := hrest
    refine ⟨xs ++ written, (List.prefix_append_right_inj xs).mpr hprefix, Or.inr ?_, ?_⟩
    · rw [List.length_append]
      rcases hwithin with rfl | hwithin
      · rw [List.length_nil]
        omega
      · omega
    · rw [writeAt_append]

/-- A writer that gives up at once. -/
theorem Emits.giveUp (hfull : limit < (pos + bytes.length + 1 : Int)) :
    Emits limit pos out bytes (-1, out) := by
  unfold Emits
  rw [if_neg (Int.not_le.mpr hfull)]
  exact ⟨[], List.nil_prefix, Or.inl rfl, rfl⟩

/-- A writer that tests the room for some bytes, puts them out and goes on with others. -/
theorem Emits.tested {n : Nat} (hlen : xs.length = n)
    (hrest : Emits limit (pos + n) (writeAt out pos xs) ys result) :
    Emits limit pos out (xs ++ ys) (if limit < pos + n then (-1, out) else result) := by
  subst hlen
  rcases Int.lt_or_le limit (pos + xs.length) with hfull | hroom
  · rw [if_pos hfull]
    refine Emits.giveUp ?_
    rw [List.length_append]
    omega
  · rw [if_neg (Int.not_lt.mpr hroom)]
    exact hrest.prepend hroom

/-- Close the output with a NUL. -/
def terminate (limit : Int) (pos : Nat) (out : Memory) : Int × Memory :=
  if limit < pos + 1 then (-1, out) else (pos, Function.update out pos 0)

theorem terminate_emits : Emits limit pos out [] (terminate limit pos out) := by
  unfold terminate
  rcases Int.lt_or_le limit (pos + 1) with hfull | hroom
  · rw [if_pos hfull]
    exact Emits.giveUp (by simpa using hfull)
  · rw [if_neg (Int.not_lt.mpr hroom)]
    unfold Emits
    rw [if_pos (by simpa using hroom)]
    rfl

/-- Put bytes one by one, each after a test that it fits, and go on. -/
def putThen (limit : Int) (next : Nat → Memory → Int × Memory) :
    List UInt8 → Nat → Memory → Int × Memory
  | [], pos, out => next pos out
  | b :: rest, pos, out =>
      if limit < pos + 1 then (-1, out)
      else putThen limit next rest (pos + 1) (Function.update out pos b)

theorem putThen_emits {next : Nat → Memory → Int × Memory}
    (hnext : ∀ pos out, Emits limit pos out ys (next pos out)) :
    Emits limit pos out (xs ++ ys) (putThen limit next xs pos out) := by
  induction xs generalizing pos out with
  | nil => exact hnext pos out
  | cons x rest ih =>
      have hone : Emits limit (pos + 1) (writeAt out pos [x]) (rest ++ ys)
          (putThen limit next rest (pos + 1) (Function.update out pos x)) := ih
      have hall : Emits limit pos out ([x] ++ (rest ++ ys))
          (putThen limit next (x :: rest) pos out) := hone.tested rfl
      exact hall

theorem putThen_terminate_emits :
    Emits limit pos out xs (putThen limit (terminate limit) xs pos out) := by
  have hput : Emits limit pos out (xs ++ []) (putThen limit (terminate limit) xs pos out) :=
    putThen_emits fun _ _ => terminate_emits
  rwa [List.append_nil] at hput

end

/-! ## What a caller sees -/

/-- A call that is to deliver bytes: it succeeds exactly when they and a NUL fit, returns
their number, and writes nothing behind its limit. -/
structure Delivers (limit : Int) (out : Memory) (bytes : List UInt8) (ret : Int)
    (left : Memory) : Prop where
  succeeds : ret ≠ -1 ↔ (bytes.length + 1 : Int) ≤ limit
  value : ret ≠ -1 → ret = bytes.length ∧ ∀ i b, (bytes ++ [0])[i]? = some b → left i = b
  frame : ∀ i : Nat, limit ≤ i → left i = out i

theorem Emits.delivers {limit : Int} {out : Memory} {bytes : List UInt8} {result : Int × Memory}
    (hemits : Emits limit 0 out bytes result) :
    Delivers limit out bytes result.1 result.2 := by
  unfold Emits at hemits
  rw [Int.natCast_zero, Int.zero_add, Nat.zero_add] at hemits
  split at hemits
  · rename_i hroom
    rw [hemits]
    refine ⟨iff_of_true (by omega) hroom, fun _ => ⟨rfl, fun i b hget => ?_⟩, fun i hi => ?_⟩
    · have hbyte : writeAt out 0 (bytes ++ [0]) (0 + i) = b := writeAt_get hget
      rwa [Nat.zero_add] at hbyte
    · refine writeAt_outside (Or.inr ?_)
      rw [List.length_append, List.length_singleton]
      omega
  · rename_i hroom
    obtain ⟨written, -, hwithin, rfl⟩ := hemits
    refine ⟨iff_of_false (fun h => h rfl) hroom, fun h => absurd rfl h, fun i hi => ?_⟩
    rcases hwithin with rfl | hwithin
    · rfl
    · exact writeAt_outside (Or.inr (by omega))

end MdsFormal.Library.Buffer
