import Mathlib.Data.List.GetD
import MdsFormal.Library.BitWindow
import MdsFormal.Library.Buffer
import MdsFormal.Library.LinearFold
import MdsFormal.Storage.Crc16

/-!
# What the CRC says about short bursts

The CRC of a sum of two messages is the sum of their CRCs, so what a change does
to it depends on the change alone.  A change of at most sixteen consecutive bits
touches three bytes.  Inside the payload it always changes the CRC; a change that
reaches the stored CRC may change both alike, because the two stored bytes stand
in the order of the target and not in that of the polynomial.
-/

namespace MdsFormal.Storage.CrcBursts

open MdsFormal.Library.BitWindow
open MdsFormal.Library.Buffer (forall_byte)
open MdsFormal.Library.LinearFold
open MdsFormal.Storage.Crc16

/-! ## The table as shifts -/

def feed (index : UInt16) : UInt16 :=
  let folded := index ^^^ (index >>> 4)
  (folded <<< 12) ^^^ (folded <<< 5) ^^^ folded

theorem crc16tab_eq_feed : ∀ n < 256, crc16tab.getD n 0 = feed (UInt16.ofNat n) := by
  decide +kernel

theorem feed_xor (first second : UInt16) :
    feed (first ^^^ second) = feed first ^^^ feed second := by
  simp only [feed, UInt16.shiftLeft_xor, UInt16.shiftRight_xor]
  ac_rfl

def high (word : UInt16) : UInt8 := (word >>> 8).toUInt8

def low (word : UInt16) : UInt8 := word.toUInt8

theorem high_xor (first second : UInt16) :
    high (first ^^^ second) = high first ^^^ high second := by
  rw [high, UInt16.shiftRight_xor, UInt16.toUInt8_xor]
  rfl

theorem low_xor (first second : UInt16) : low (first ^^^ second) = low first ^^^ low second :=
  UInt16.toUInt8_xor first second

theorem high_shiftLeft (word : UInt16) : high (word <<< 8) = low word := by
  apply UInt8.toNat_inj.mp
  simp [high, low, Nat.shiftRight_eq_div_pow, Nat.shiftLeft_eq]
  omega

theorem low_shiftLeft (word : UInt16) : low (word <<< 8) = 0 := by
  apply UInt8.toNat_inj.mp
  simp [low, Nat.shiftLeft_eq]

/-- A word is its two bytes. -/
theorem eq_of_high_low {first second : UInt16} (hhigh : high first = high second)
    (hlow : low first = low second) : first = second := by
  have hhigh' := congrArg UInt8.toNat hhigh
  have hlow' := congrArg UInt8.toNat hlow
  have hfirst := first.toNat_lt
  have hsecond := second.toNat_lt
  apply UInt16.toNat_inj.mp
  simp [high, low, Nat.shiftRight_eq_div_pow] at hhigh' hlow'
  omega

theorem toUInt16_high (word : UInt16) : (high word).toUInt16 = word >>> 8 := by
  have hword := word.toNat_lt
  apply UInt16.toNat_inj.mp
  simp [high, Nat.shiftRight_eq_div_pow]
  omega

theorem toUInt16_and_mask (byte : UInt8) : byte.toUInt16 &&& 0x00FF = byte.toUInt16 := by
  have hmask : byte.toNat &&& 255 = byte.toNat % 2 ^ 8 :=
    Nat.and_two_pow_sub_one_eq_mod byte.toNat 8
  have hbyte := byte.toNat_lt
  apply UInt16.toNat_inj.mp
  simp [hmask]

theorem crc16Step_eq (crc : UInt16) (byte : UInt8) :
    crc16Step crc byte = (crc <<< 8) ^^^ feed (high crc ^^^ byte).toUInt16 := by
  have hindex : ((crc >>> 8) ^^^ byte.toUInt16) &&& 0x00FF = (high crc ^^^ byte).toUInt16 := by
    rw [← toUInt16_high, ← UInt8.toUInt16_xor, toUInt16_and_mask]
  have hbyte := (high crc ^^^ byte).toNat_lt
  rw [crc16Step, hindex, crc16tab_eq_feed _ (by simpa using hbyte), UInt16.ofNat_toNat]

/-- The two bytes that one byte feeds into the running value. -/
def highOf (byte : UInt8) : UInt8 := high (feed byte.toUInt16)

def lowOf (byte : UInt8) : UInt8 := low (feed byte.toUInt16)

theorem low_crc16Step (crc : UInt16) (byte : UInt8) :
    low (crc16Step crc byte) = lowOf (high crc ^^^ byte) := by
  rw [crc16Step_eq, low_xor, low_shiftLeft, UInt8.zero_xor]
  rfl

theorem high_crc16Step (crc : UInt16) (byte : UInt8) :
    high (crc16Step crc byte) = low crc ^^^ highOf (high crc ^^^ byte) := by
  rw [crc16Step_eq, high_xor, high_shiftLeft]
  rfl

/-! ## Linearity -/

theorem crc16Step_xor (first second : UInt16) (left right : UInt8) :
    crc16Step (first ^^^ second) (left ^^^ right) =
      crc16Step first left ^^^ crc16Step second right := by
  have hindex : high first ^^^ high second ^^^ (left ^^^ right) =
      high first ^^^ left ^^^ (high second ^^^ right) := by
    ac_rfl
  rw [crc16Step_eq, crc16Step_eq, crc16Step_eq, high_xor, hindex, UInt8.toUInt16_xor, feed_xor,
    UInt16.shiftLeft_xor]
  ac_rfl

/-- The CRC of a changed message, by the change. -/
theorem mdsApiCrc16Get_xor {buf change : List UInt8} (hlength : buf.length = change.length) :
    mdsApiCrc16Get (List.zipWith (· ^^^ ·) buf change) =
      mdsApiCrc16Get buf ^^^ mdsApiCrc16Get change := by
  have hfold : (List.zipWith (· ^^^ ·) buf change).foldl crc16Step (0 ^^^ 0) =
      buf.foldl crc16Step 0 ^^^ change.foldl crc16Step 0 :=
    foldl_zipWith crc16Step_xor hlength 0 0
  rwa [UInt16.xor_zero] at hfold

theorem crc16Step_zero_zero : crc16Step 0 0 = 0 := by decide

/-- Leading zeros do not count. -/
theorem mdsApiCrc16Get_replicate_append (count : Nat) (buf : List UInt8) :
    mdsApiCrc16Get (List.replicate count 0 ++ buf) = mdsApiCrc16Get buf := by
  rw [mdsApiCrc16Get, List.foldl_append, foldl_replicate_zero crc16Step_zero_zero]
  rfl

/-! ## When the running value comes back to zero -/

/-- The byte that feeds this low byte. -/
def feeder (value : UInt8) : UInt8 :=
  let folded := value ^^^ (value <<< 5)
  folded ^^^ (folded >>> 4)

theorem feeder_lowOf (byte : UInt8) : feeder (lowOf byte) = byte := by
  revert byte
  apply forall_byte
  decide +kernel

theorem eq_zero_of_lowOf {byte : UInt8} (hlow : lowOf byte = 0) : byte = 0 := by
  rw [← feeder_lowOf byte, hlow]
  rfl

/-- Only the byte that equals the high byte takes a running value without low byte to zero. -/
theorem crc16Step_eq_zero {crc : UInt16} {byte : UInt8} (hzero : crc16Step crc byte = 0) :
    byte = high crc ∧ low crc = 0 := by
  have hlow := low_crc16Step crc byte
  have hhigh := high_crc16Step crc byte
  rw [hzero] at hlow hhigh
  have hindex : high crc ^^^ byte = 0 := eq_zero_of_lowOf hlow.symm
  rw [hindex] at hhigh
  have hbyte : high crc = byte := UInt8.xor_eq_zero_iff.mp hindex
  refine ⟨hbyte.symm, ?_⟩
  have hfeed : highOf 0 = 0 := by decide
  rw [hfeed, UInt8.xor_zero] at hhigh
  exact hhigh.symm

theorem crc16Step_zero_only (crc : UInt16) (hzero : crc16Step crc 0 = 0) : crc = 0 := by
  obtain ⟨hhigh, hlow⟩ := crc16Step_eq_zero hzero
  exact eq_of_high_low hhigh.symm hlow

/-- Trailing zeros do not hide a change. -/
theorem mdsApiCrc16Get_append_replicate_ne {buf : List UInt8} (hne : mdsApiCrc16Get buf ≠ 0)
    (count : Nat) : mdsApiCrc16Get (buf ++ List.replicate count 0) ≠ 0 := by
  rw [mdsApiCrc16Get, List.foldl_append]
  exact foldl_replicate_ne_zero crc16Step_zero_only hne count

/-! ## The last bytes of a payload -/

theorem mdsApiCrc16Get_one (byte : UInt8) :
    low (mdsApiCrc16Get [byte]) = lowOf byte ∧ high (mdsApiCrc16Get [byte]) = highOf byte := by
  have hstart : high 0 ^^^ byte = byte := UInt8.zero_xor
  refine ⟨?_, ?_⟩
  · change low (crc16Step 0 byte) = _
    rw [low_crc16Step, hstart]
  · change high (crc16Step 0 byte) = _
    rw [high_crc16Step, hstart]
    exact UInt8.zero_xor

theorem mdsApiCrc16Get_two (first second : UInt8) :
    low (mdsApiCrc16Get [first, second]) = lowOf (highOf first ^^^ second) ∧
      high (mdsApiCrc16Get [first, second]) =
        lowOf first ^^^ highOf (highOf first ^^^ second) := by
  obtain ⟨hlow, hhigh⟩ := mdsApiCrc16Get_one first
  refine ⟨?_, ?_⟩
  · change low (crc16Step (mdsApiCrc16Get [first]) second) = _
    rw [low_crc16Step, hhigh]
  · change high (crc16Step (mdsApiCrc16Get [first]) second) = _
    rw [high_crc16Step, hhigh, hlow]

/-- No byte together with the two that would take it back to zero is a burst. -/
theorem three_bytes_burst {first second third : UInt8} {count : Nat} (hcount : count ≤ 8)
    (hfirst : first.toNat < 2 ^ count) (hthird : third.toNat % 2 ^ count = 0)
    (hzero : mdsApiCrc16Get [first, second, third] = 0) :
    first = 0 ∧ second = 0 ∧ third = 0 := by
  obtain ⟨hlow, hhigh⟩ := mdsApiCrc16Get_two first second
  obtain ⟨hthird', hlow'⟩ :=
    crc16Step_eq_zero (show crc16Step (mdsApiCrc16Get [first, second]) third = 0 from hzero)
  rw [hlow] at hlow'
  have hindex := eq_zero_of_lowOf hlow'
  have hsecond : highOf first = second := UInt8.xor_eq_zero_iff.mp hindex
  have hfeed : highOf 0 = 0 := by decide
  rw [hhigh, hindex, hfeed, UInt8.xor_zero] at hthird'
  have hnone : ∀ byte : UInt8, (∃ count ≤ 8, byte.toNat < 2 ^ count ∧
      (lowOf byte).toNat % 2 ^ count = 0) → byte = 0 := by
    apply forall_byte
    decide +kernel
  have hbyte := hnone first ⟨count, hcount, hfirst, hthird' ▸ hthird⟩
  subst hbyte
  refine ⟨rfl, ?_, ?_⟩
  · rw [← hsecond, hfeed]
  · rw [hthird']
    decide

/-- The changes of the last two bytes of a payload and of its CRC, low byte first, that keep
the two consistent within sixteen bits. -/
def missed : List (UInt8 × UInt8 × UInt8 × UInt8) :=
  [(0x00, 0x01, 0x21, 0x10), (0x00, 0x02, 0x42, 0x20), (0x00, 0x03, 0x63, 0x30),
    (0x00, 0x04, 0x84, 0x40), (0x00, 0x05, 0xa5, 0x50), (0x00, 0x06, 0xc6, 0x60),
    (0x00, 0x07, 0xe7, 0x70), (0x00, 0x89, 0xa1, 0x00), (0x02, 0x35, 0x94, 0x00),
    (0x08, 0xc5, 0x40, 0x00), (0x11, 0x8a, 0x80, 0x00), (0x19, 0x4f, 0xc0, 0x00)]

def IsMissed (tail : UInt8 × UInt8 × UInt8 × UInt8) : Prop := tail ∈ missed

instance (tail : UInt8 × UInt8 × UInt8 × UInt8) : Decidable (IsMissed tail) :=
  inferInstanceAs (Decidable (tail ∈ missed))

/-- A burst in the last two bytes of the payload and the low byte of the CRC. -/
theorem missed_of_two {first second third : UInt8} {count : Nat} (hcount : count ≤ 8)
    (hfirst : first.toNat < 2 ^ count) (hthird : third.toNat % 2 ^ count = 0)
    (hlow : low (mdsApiCrc16Get [first, second]) = third)
    (hhigh : high (mdsApiCrc16Get [first, second]) = 0) :
    (first = 0 ∧ second = 0 ∧ third = 0) ∨ IsMissed (first, second, third, 0) := by
  obtain ⟨hlow', hhigh'⟩ := mdsApiCrc16Get_two first second
  -- the fed byte determines the other three
  obtain ⟨fed, hfed⟩ : ∃ fed, highOf first ^^^ second = fed := ⟨_, rfl⟩
  rw [hlow', hfed] at hlow
  rw [hhigh', hfed] at hhigh
  have hfirst' : first = feeder (highOf fed) := by
    rw [← UInt8.xor_eq_zero_iff.mp hhigh, feeder_lowOf]
  have hsecond : second = highOf first ^^^ fed := by
    rw [← hfed, ← UInt8.xor_assoc, UInt8.xor_self, UInt8.zero_xor]
  have hall : ∀ fed : UInt8, (∃ count ≤ 8, (feeder (highOf fed)).toNat < 2 ^ count ∧
      (lowOf fed).toNat % 2 ^ count = 0) →
        fed = 0 ∨
          IsMissed (feeder (highOf fed), highOf (feeder (highOf fed)) ^^^ fed, lowOf fed, 0) := by
    apply forall_byte
    decide +kernel
  rcases hall fed ⟨count, hcount, hfirst' ▸ hfirst, hlow ▸ hthird⟩ with rfl | hmem
  · left
    have hzero : first = 0 := by
      rw [hfirst']
      decide
    subst hzero
    refine ⟨rfl, ?_, ?_⟩
    · rw [hsecond]
      decide
    · rw [← hlow]
      decide
  · right
    rwa [hsecond, ← hlow, hfirst']

/-- A burst in the last byte of the payload and the CRC. -/
theorem missed_of_one {first second third : UInt8} {count : Nat} (hcount : count ≤ 8)
    (hfirst : first.toNat < 2 ^ count) (hthird : third.toNat % 2 ^ count = 0)
    (hlow : low (mdsApiCrc16Get [first]) = second)
    (hhigh : high (mdsApiCrc16Get [first]) = third) :
    (first = 0 ∧ second = 0 ∧ third = 0) ∨ IsMissed (0, first, second, third) := by
  obtain ⟨hlow', hhigh'⟩ := mdsApiCrc16Get_one first
  have hall : ∀ byte : UInt8, (∃ count ≤ 8, byte.toNat < 2 ^ count ∧
      (highOf byte).toNat % 2 ^ count = 0) →
        byte = 0 ∨ IsMissed (0, byte, lowOf byte, highOf byte) := by
    apply forall_byte
    decide +kernel
  rw [hlow'] at hlow
  rw [hhigh'] at hhigh
  subst hlow hhigh
  rcases hall first ⟨count, hcount, hfirst, hthird⟩ with rfl | hmem
  · exact Or.inl ⟨rfl, by decide, by decide⟩
  · exact Or.inr hmem

/-! ## Changes of payload and CRC -/

/-- The change is one of the missed ones at the very end of the stored bytes. -/
def MissedChange (change : List UInt8) : Prop :=
  ∃ tail ∈ missed, 0 :: change = List.replicate (change.length - 3) 0 ++
    [tail.1, tail.2.1, tail.2.2.1, tail.2.2.2]

/-- The CRC that a change of the payload needs is the change of the stored CRC. -/
def Consistent (payload : List UInt8) (first second : UInt8) : Prop :=
  low (mdsApiCrc16Get payload) = first ∧ high (mdsApiCrc16Get payload) = second

instance (payload : List UInt8) (first second : UInt8) :
    Decidable (Consistent payload first second) :=
  inferInstanceAs (Decidable (_ ∧ _))

theorem missed_consistent {tail : UInt8 × UInt8 × UInt8 × UInt8} (hmem : tail ∈ missed) :
    Consistent [tail.1, tail.2.1] tail.2.2.1 tail.2.2.2 := by
  have hall : (missed.all fun tail =>
      decide (Consistent [tail.1, tail.2.1] tail.2.2.1 tail.2.2.2)) = true := by
    decide +kernel
  exact of_decide_eq_true (List.all_eq_true.mp hall tail hmem)

theorem consistent_of_missedChange {payload : List UInt8} (hne : payload ≠ [])
    {first second : UInt8} (hmissed : MissedChange (payload ++ [first, second])) :
    Consistent payload first second := by
  obtain ⟨tail, hmem, heq⟩ := hmissed
  have hpos := List.length_pos_iff.mpr hne
  have hcut : 0 :: payload ++ [first, second] =
      (List.replicate (payload.length - 1) 0 ++ [tail.1, tail.2.1]) ++
        [tail.2.2.1, tail.2.2.2] := by
    rw [List.cons_append, heq, List.length_append, List.append_assoc]
    rfl
  obtain ⟨hpayload, hcrc⟩ := List.append_inj hcut (by simp; omega)
  obtain ⟨hlow, hhigh⟩ := missed_consistent hmem
  have hsame : mdsApiCrc16Get payload = mdsApiCrc16Get [tail.1, tail.2.1] := by
    calc mdsApiCrc16Get payload
        = mdsApiCrc16Get (List.replicate 1 0 ++ payload) :=
          (mdsApiCrc16Get_replicate_append 1 payload).symm
      _ = mdsApiCrc16Get (List.replicate (payload.length - 1) 0 ++ [tail.1, tail.2.1]) :=
          congrArg mdsApiCrc16Get hpayload
      _ = mdsApiCrc16Get [tail.1, tail.2.1] := mdsApiCrc16Get_replicate_append _ _
  rw [List.cons.injEq, List.cons.injEq] at hcrc
  rw [Consistent, hsame, hlow, hhigh]
  exact ⟨hcrc.1.symm, hcrc.2.1.symm⟩

theorem eq_replicate_of_getD {bytes : List UInt8} (hzero : ∀ k, bytes.getD k 0 = 0) :
    bytes = List.replicate bytes.length 0 := by
  apply List.eq_replicate_iff.mpr
  refine ⟨rfl, fun byte hmem => ?_⟩
  obtain ⟨k, hk, rfl⟩ := List.getElem_of_mem hmem
  have hbyte := hzero k
  rwa [List.getD_eq_getElem _ _ hk] at hbyte

/-- List UInt8 that are 0 up to number `count`. -/
theorem eq_replicate_append {bytes : List UInt8} {count : Nat} (hcount : count ≤ bytes.length)
    (hzero : ∀ k < count, bytes.getD k 0 = 0) :
    bytes = List.replicate count 0 ++ bytes.drop count := by
  have hfront : bytes.take count = List.replicate count 0 := by
    apply List.eq_replicate_iff.mpr
    refine ⟨List.length_take_of_le hcount, fun byte hmem => ?_⟩
    obtain ⟨k, hk, rfl⟩ := List.getElem_of_mem hmem
    rw [List.length_take] at hk
    have hbyte := hzero k (by omega)
    rw [List.getD_eq_getElem _ _ (by omega)] at hbyte
    rw [List.getElem_take, hbyte]
  rw [← hfront, List.take_append_drop]

theorem getD_append_two (payload : List UInt8) (first second : UInt8) :
    (∀ k < payload.length, (payload ++ [first, second]).getD k 0 = payload.getD k 0) ∧
      (payload ++ [first, second]).getD payload.length 0 = first ∧
      (payload ++ [first, second]).getD (payload.length + 1) 0 = second := by
  refine ⟨?_, ?_, ?_⟩
  · intro k hk
    rw [List.getD_append _ _ _ _ hk]
  · simp
  · simp

theorem drop_eq_getD_cons {bytes : List UInt8} {k : Nat} (hk : k < bytes.length) :
    bytes.drop k = bytes.getD k 0 :: bytes.drop (k + 1) := by
  rw [List.drop_eq_getElem_cons hk, List.getD_eq_getElem _ _ hk]

/-- A change inside the payload shows in its CRC. -/
theorem inner_burst_ne {payload : List UInt8} {start count : Nat} (hcount : count ≤ 8)
    (hinside : start + 2 < payload.length)
    (houtside : ∀ k, k < start ∨ start + 2 < k → payload.getD k 0 = 0)
    (hfirst : (payload.getD start 0).toNat < 2 ^ count)
    (hthird : (payload.getD (start + 2) 0).toNat % 2 ^ count = 0)
    (hzero : mdsApiCrc16Get payload = 0) : ∀ k, payload.getD k 0 = 0 := by
  have hfront := eq_replicate_append (show start ≤ payload.length by omega)
    (fun k hk => houtside k (Or.inl hk))
  have hback : payload.drop (start + 3) = List.replicate (payload.drop (start + 3)).length 0 := by
    apply eq_replicate_of_getD
    intro k
    have hpast := houtside (start + 3 + k) (Or.inr (by omega))
    rwa [List.getD_eq_getElem?_getD, ← List.getElem?_drop, ← List.getD_eq_getElem?_getD] at hpast
  rw [drop_eq_getD_cons (by omega), drop_eq_getD_cons (by omega),
    drop_eq_getD_cons (by omega), hback] at hfront
  have hthree : mdsApiCrc16Get [payload.getD start 0, payload.getD (start + 1) 0,
      payload.getD (start + 2) 0] = 0 := by
    apply Classical.byContradiction
    intro hne
    refine mdsApiCrc16Get_append_replicate_ne hne (payload.drop (start + 3)).length ?_
    rw [hfront, mdsApiCrc16Get_replicate_append] at hzero
    exact hzero
  obtain ⟨h₀, h₁, h₂⟩ := three_bytes_burst hcount hfirst hthird hthree
  intro k
  by_cases hk : k < start ∨ start + 2 < k
  · exact houtside k hk
  · obtain rfl | rfl | rfl : k = start ∨ k = start + 1 ∨ k = start + 2 := by omega
    · exact h₀
    · exact h₁
    · exact h₂

theorem getD_replicate_zero (count k : Nat) : (List.replicate count (0 : UInt8)).getD k 0 = 0 := by
  rw [List.getD_eq_getElem?_getD, List.getElem?_replicate]
  split <;> rfl

theorem getD_append_two_zero {payload : List UInt8} (hzero : ∀ k, payload.getD k 0 = 0) (k : Nat) :
    (payload ++ [0, 0]).getD k 0 = 0 := by
  rw [eq_replicate_of_getD hzero, show ([0, 0] : List UInt8) = List.replicate 2 0 by rfl,
    List.replicate_append_replicate]
  exact getD_replicate_zero _ k

/-- The burst ends in the low byte of the CRC. -/
theorem missed_of_ends_in_low {start count : Nat} {first second third : UInt8}
    (hcount : count ≤ 8) (hfirst : first.toNat < 2 ^ count)
    (hthird : third.toNat % 2 ^ count = 0)
    (hconsistent : Consistent (List.replicate start 0 ++ [first, second]) third 0)
    (hchange : ¬ (first = 0 ∧ second = 0 ∧ third = 0)) :
    MissedChange (List.replicate start 0 ++ [first, second] ++ [third, 0]) := by
  obtain ⟨hlow, hhigh⟩ := hconsistent
  rw [mdsApiCrc16Get_replicate_append] at hlow hhigh
  rcases missed_of_two hcount hfirst hthird hlow hhigh with hzero | hmem
  · exact absurd hzero hchange
  · refine ⟨_, hmem, ?_⟩
    simp [List.replicate_succ]

/-- The burst ends in the high byte of the CRC. -/
theorem missed_of_ends_in_high {start count : Nat} {first second third : UInt8}
    (hcount : count ≤ 8) (hfirst : first.toNat < 2 ^ count)
    (hthird : third.toNat % 2 ^ count = 0)
    (hconsistent : Consistent (List.replicate start 0 ++ [first]) second third)
    (hchange : ¬ (first = 0 ∧ second = 0 ∧ third = 0)) :
    MissedChange (List.replicate start 0 ++ [first] ++ [second, third]) := by
  obtain ⟨hlow, hhigh⟩ := hconsistent
  rw [mdsApiCrc16Get_replicate_append] at hlow hhigh
  rcases missed_of_one hcount hfirst hthird hlow hhigh with hzero | hmem
  · exact absurd hzero hchange
  · refine ⟨_, hmem, ?_⟩
    have hshift : (0 : UInt8) :: List.replicate start 0 = List.replicate start 0 ++ [0] := by
      rw [← List.replicate_succ, List.replicate_succ']
    simp [← List.cons_append, hshift]

section

variable {payload : List UInt8} {first second : UInt8} {start count : Nat}

/-- A burst inside of the payload is found. -/
theorem unchanged_of_inside (hcount : count ≤ 8) (hinside : start + 2 < payload.length)
    (houtside : ∀ k, k < start ∨ start + 2 < k → (payload ++ [first, second]).getD k 0 = 0)
    (hfirst : ((payload ++ [first, second]).getD start 0).toNat < 2 ^ count)
    (hthird : ((payload ++ [first, second]).getD (start + 2) 0).toNat % 2 ^ count = 0)
    (hconsistent : Consistent payload first second) :
    (∀ k, payload.getD k 0 = 0) ∧ first = 0 ∧ second = 0 := by
  obtain ⟨hpayload, hcrc₀, hcrc₁⟩ := getD_append_two payload first second
  have hzero₀ : first = 0 := hcrc₀ ▸ houtside _ (Or.inr hinside)
  have hzero₁ : second = 0 := hcrc₁ ▸ houtside _ (Or.inr (by omega))
  have hcrc : mdsApiCrc16Get payload = 0 :=
    eq_of_high_low (hconsistent.2.trans hzero₁) (hconsistent.1.trans hzero₀)
  rw [hpayload start (by omega)] at hfirst
  rw [hpayload (start + 2) hinside] at hthird
  refine ⟨inner_burst_ne hcount hinside ?_ hfirst hthird hcrc, hzero₀, hzero₁⟩
  intro k hk
  rcases Nat.lt_or_ge k payload.length with hlt | hge
  · rw [← hpayload k hlt]
    exact houtside k hk
  · exact List.getD_eq_default _ _ hge

/-- With an unchanged payload, a changed CRC is found. -/
theorem unchanged_of_payload (hzero : ∀ k, payload.getD k 0 = 0)
    (hconsistent : Consistent payload first second) : first = 0 ∧ second = 0 := by
  have hcrc : mdsApiCrc16Get payload = 0 := by
    rw [eq_replicate_of_getD hzero, mdsApiCrc16Get, foldl_replicate_zero crc16Step_zero_zero]
  obtain ⟨hlow, hhigh⟩ := hconsistent
  rw [hcrc] at hlow hhigh
  exact ⟨hlow.symm, hhigh.symm⟩

/-- A burst that begins in the payload and reaches its CRC is one of the missed ones. -/
theorem missedChange_of_reaching (hcount : count ≤ 8) (hstart : start < payload.length)
    (hreaches : payload.length ≤ start + 2)
    (houtside : ∀ k, k < start ∨ start + 2 < k → (payload ++ [first, second]).getD k 0 = 0)
    (hfirst : ((payload ++ [first, second]).getD start 0).toNat < 2 ^ count)
    (hthird : ((payload ++ [first, second]).getD (start + 2) 0).toNat % 2 ^ count = 0)
    (hconsistent : Consistent payload first second)
    (hchange : ¬ ((∀ k, payload.getD k 0 = 0) ∧ first = 0 ∧ second = 0)) :
    MissedChange (payload ++ [first, second]) := by
  obtain ⟨hpayload, hcrc₀, hcrc₁⟩ := getD_append_two payload first second
  have hfront : ∀ k < start, payload.getD k 0 = 0 := by
    intro k hk
    rw [← hpayload k (by omega)]
    exact houtside k (Or.inl hk)
  have hsplit := eq_replicate_append hstart.le hfront
  rw [drop_eq_getD_cons hstart] at hsplit
  rcases Nat.lt_or_ge (start + 1) payload.length with htwo | hone
  · -- two bytes of the payload and the low byte of the CRC
    obtain rfl : second = 0 := hcrc₁ ▸ houtside _ (Or.inr (by omega))
    obtain ⟨before, last, rfl⟩ : ∃ before last,
        payload = List.replicate start 0 ++ [before, last] := by
      rw [drop_eq_getD_cons htwo, List.drop_of_length_le (by omega)] at hsplit
      exact ⟨_, _, hsplit⟩
    refine missed_of_ends_in_low hcount (by simpa using hfirst) (by simpa using hthird)
      hconsistent ?_
    rintro ⟨rfl, rfl, rfl⟩
    exact hchange ⟨getD_append_two_zero (getD_replicate_zero start), rfl, rfl⟩
  · -- one byte of the payload and the whole CRC
    obtain ⟨last, rfl⟩ : ∃ last, payload = List.replicate start 0 ++ [last] := by
      rw [List.drop_of_length_le hone] at hsplit
      exact ⟨_, hsplit⟩
    refine missed_of_ends_in_high hcount (by simpa using hfirst) (by simpa using hthird)
      hconsistent ?_
    rintro ⟨rfl, rfl, rfl⟩
    refine hchange ⟨?_, rfl, rfl⟩
    rw [← List.replicate_succ']
    exact getD_replicate_zero (start + 1)

end

/-- Among the changes within sixteen bits, the missed ones are all that keep payload and CRC
consistent. -/
theorem consistent_iff_missedChange {payload : List UInt8} (hne : payload ≠ [])
    {first second : UInt8} (hburst : Within 16 (payload ++ [first, second]))
    (hchange : ∃ k, (payload ++ [first, second]).getD k 0 ≠ 0) :
    Consistent payload first second ↔ MissedChange (payload ++ [first, second]) := by
  refine ⟨?_, consistent_of_missedChange hne⟩
  intro hconsistent
  obtain ⟨start, count, hcount, houtside, hfirst, hthird⟩ := hburst.three_bytes
  have hnonzero : ¬ ((∀ k, payload.getD k 0 = 0) ∧ first = 0 ∧ second = 0) := by
    rintro ⟨hzero, rfl, rfl⟩
    obtain ⟨k, hk⟩ := hchange
    exact hk (getD_append_two_zero hzero k)
  rcases Nat.lt_or_ge (start + 2) payload.length with hinside | hreaches
  · exact absurd (unchanged_of_inside hcount hinside houtside hfirst hthird hconsistent) hnonzero
  rcases Nat.lt_or_ge start payload.length with hstart | hpast
  · exact missedChange_of_reaching hcount hstart hreaches houtside hfirst hthird hconsistent
      hnonzero
  · have hzero : ∀ k, payload.getD k 0 = 0 := by
      intro k
      rcases Nat.lt_or_ge k payload.length with hlt | hge
      · rw [← (getD_append_two payload first second).1 k hlt]
        exact houtside k (Or.inl (by omega))
      · exact List.getD_eq_default _ _ hge
    exact absurd ⟨hzero, unchanged_of_payload hzero hconsistent⟩ hnonzero

end MdsFormal.Storage.CrcBursts
