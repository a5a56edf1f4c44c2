import Mathlib.Algebra.CharP.Algebra
import Mathlib.GroupTheory.OrderOfElement
import Mathlib.RingTheory.AdjoinRoot
import Mathlib.Tactic.NormNum.Prime
import MdsFormal.Library.BitPowers
import MdsFormal.Storage.BurstLoads
import MdsFormal.Storage.CrcPolynomial

/-!
# Single bits that change in a stored record

Modulo the generator each bit of a record stands for a power of `x`, and a changed record
is one again exactly when the powers of its changed bits add up to zero.  The powers of `x`
come back after 32767 steps, and all of them are 1 where `x` is.
-/

namespace MdsFormal.Storage.BitErrors

open Polynomial
open MdsFormal.Library.BitPowers
open MdsFormal.Library.BitWindow
open MdsFormal.Library.CrashDisk
open MdsFormal.Library.ShiftRegister
open MdsFormal.Storage.BurstLoads
open MdsFormal.Storage.Crc16
open MdsFormal.Storage.CrcPolynomial
open MdsFormal.Storage.File
open MdsFormal.Storage.FaultFree

/-! ## Words as residues -/

abbrev Residues : Type := AdjoinRoot generator

noncomputable def root : Residues := AdjoinRoot.root generator

/-- What a word of the register stands for modulo the generator. -/
noncomputable def residue (word : UInt16) : Residues := AdjoinRoot.mk generator (wordPoly word)

instance : CharP Residues 2 := by
  have hdegree : generator.degree ≠ 0 := by
    rw [degree_generator]
    decide
  have : Nontrivial Residues := AdjoinRoot.nontrivial generator hdegree
  exact charP_of_injective_algebraMap (algebraMap (ZMod 2) Residues).injective 2

theorem residue_xor (first second : UInt16) :
    residue (first ^^^ second) = residue first + residue second := by
  rw [residue, wordPoly_xor, map_add]
  rfl

@[simp]
theorem residue_zero : residue 0 = 0 := by
  rw [residue, wordPoly_zero, map_zero]

theorem residue_eq_powers (word : UInt16) : residue word = powers root 16 word.toNat := by
  unfold residue wordPoly powers
  rw [map_sum]
  refine Finset.sum_congr rfl fun i _ => ?_
  rw [map_mul, map_pow, AdjoinRoot.mk_X]
  cases word.toNat.testBit i <;> simp [coefficient, root]

theorem residue_one : residue 1 = 1 := by
  rw [residue_eq_powers]
  unfold powers
  simp [Finset.sum_range_succ, Nat.testBit]

/-- Two words of one residue differ by a multiple of the generator of a lower degree. -/
theorem residue_injective : Function.Injective residue := by
  intro first second heq
  have hdvd : generator ∣ wordPoly (first ^^^ second) := by
    rw [wordPoly_xor]
    have hsum : AdjoinRoot.mk generator (wordPoly first + wordPoly second) = 0 := by
      rw [map_add]
      change residue first + residue second = 0
      rw [heq, CharTwo.add_self_eq_zero]
    exact AdjoinRoot.mk_eq_zero.mp hsum
  have hzero : wordPoly (first ^^^ second) = 0 := by
    refine eq_zero_of_dvd_of_degree_lt hdvd ?_
    rw [degree_generator]
    exact degree_wordPoly_lt _
  have hword : first ^^^ second = 0 := by
    apply UInt16.toNat_inj.mp
    apply Nat.eq_of_testBit_eq
    intro i
    have hcoeff := congrArg (fun p => coeff p i) hzero
    simp only [coeff_wordPoly, coeff_zero] at hcoeff
    rw [UInt16.toNat_zero, Nat.zero_testBit]
    cases hbit : (first ^^^ second).toNat.testBit i with
    | false => rfl
    | true =>
        rw [hbit] at hcoeff
        exact absurd hcoeff (by decide)
  exact UInt16.xor_eq_zero_iff.mp hword

/-- One turn of the register multiplies by `x` and adds the bit at the top. -/
theorem residue_crcBit (crc : UInt16) (bit : Bool) :
    residue (crcBit crc bit) = residue crc * root + if bit then root ^ 16 else 0 := by
  obtain ⟨q, hq⟩ := wordPoly_crcBit crc bit
  have hmk := congrArg (AdjoinRoot.mk generator) hq
  simp only [map_add, map_mul, map_pow, AdjoinRoot.mk_self, mul_zero, add_zero,
    AdjoinRoot.mk_X] at hmk
  rw [residue, hmk]
  cases bit <;> simp [coefficient, residue, root]

/-! ## The powers of `x` -/

/-- The product of two words modulo the generator, bit by bit of the second. -/
def mulStep (first : UInt16) (acc : UInt16) (bit : Bool) : UInt16 :=
  crcBit acc false ^^^ if bit then first else 0

def wordBits (word : UInt16) : List Bool :=
  (List.range 16).map fun i => word.toNat.testBit (15 - i)

def mulWord (first second : UInt16) : UInt16 := (wordBits second).foldl (mulStep first) 0

theorem residue_mulWord (first second : UInt16) :
    residue (mulWord first second) = residue first * residue second := by
  have hstep : ∀ acc bit, residue (mulStep first acc bit) =
      residue acc * root + if bit then residue first else 0 := by
    intro acc bit
    rw [mulStep, residue_xor, residue_crcBit]
    cases bit <;> simp
  rw [mulWord, foldl_eq_sum hstep, residue_zero, zero_mul, zero_add, residue_eq_powers second]
  congr 1
  unfold powers
  simp [wordBits, Finset.sum_range_succ, List.range_succ]
  ring

def powStep (acc : UInt16) (bit : Bool) : UInt16 :=
  if bit then crcBit (mulWord acc acc) false else mulWord acc acc

/-- A power of `x` by squaring, for the bits of the exponent from the highest down. -/
def powRoot (bits : List Bool) : UInt16 := bits.foldl powStep 1

def exponentOf (bits : List Bool) : Nat := bits.foldl (fun n bit => 2 * n + bit.toNat) 0

theorem residue_powStep {acc : UInt16} {n : Nat} (hacc : residue acc = root ^ n) (bit : Bool) :
    residue (powStep acc bit) = root ^ (2 * n + bit.toNat) := by
  have hsquare : residue (mulWord acc acc) = root ^ (2 * n) := by
    rw [residue_mulWord, hacc, ← pow_add, two_mul]
  cases bit with
  | false => exact hsquare
  | true =>
      rw [powStep, if_pos rfl, residue_crcBit, hsquare, if_neg Bool.false_ne_true, add_zero]
      exact (pow_succ root (2 * n)).symm

theorem residue_powRoot (bits : List Bool) : residue (powRoot bits) = root ^ exponentOf bits := by
  have hfold : ∀ acc n, residue acc = root ^ n → residue (bits.foldl powStep acc) =
      root ^ bits.foldl (fun n bit => 2 * n + bit.toNat) n := by
    induction bits with
    | nil => exact fun _ _ hacc => hacc
    | cons bit rest ih => exact fun acc n hacc => ih _ _ (residue_powStep hacc bit)
  refine hfold 1 0 ?_
  rw [residue_one, pow_zero]

/-- The power is 1 exactly when the word that it is computed as is. -/
theorem root_pow_eq_one_iff (bits : List Bool) {n : Nat} (hbits : exponentOf bits = n) :
    root ^ n = 1 ↔ powRoot bits = 1 := by
  rw [← hbits, ← residue_powRoot, ← residue_one]
  exact residue_injective.eq_iff

/-- The powers of `x` come back after `32767 = 7 * 31 * 151` steps and not before. -/
theorem orderOf_root : orderOf root = 32767 := by
  refine orderOf_eq_of_pow_and_pow_div_prime (by decide) ?_ ?_
  · exact (root_pow_eq_one_iff (List.replicate 15 true) rfl).mpr (by decide +kernel)
  · intro p hp hdvd
    have hfactors : 32767 = 7 * (31 * 151) := rfl
    rw [hfactors, hp.dvd_mul, hp.dvd_mul, Nat.prime_dvd_prime_iff_eq hp (by norm_num),
      Nat.prime_dvd_prime_iff_eq hp (by norm_num),
      Nat.prime_dvd_prime_iff_eq hp (by norm_num)] at hdvd
    rcases hdvd with rfl | rfl | rfl
    · refine mt (root_pow_eq_one_iff [true, false, false, true, false, false, true, false, false,
        true, false, false, true] rfl).mp ?_
      decide +kernel
    · refine mt (root_pow_eq_one_iff [true, false, false, false, false, true, false, false, false,
        false, true] rfl).mp ?_
      decide +kernel
    · refine mt (root_pow_eq_one_iff [true, true, false, true, true, false, false, true] rfl).mp ?_
      decide +kernel

theorem root_pow_eq_iff (m n : Nat) : root ^ m = root ^ n ↔ m ≡ n [MOD 32767] := by
  have hunit : root ^ 32766 * root = 1 := by
    have hone := pow_orderOf_eq_one root
    rw [orderOf_root] at hone
    exact (pow_succ root 32766).symm.trans hone
  obtain ⟨unit, hunit'⟩ : ∃ unit : Residuesˣ, unit.val = root :=
    ⟨⟨root, root ^ 32766, (mul_comm _ _).trans hunit, hunit⟩, rfl⟩
  have horder : orderOf unit = 32767 := by
    rw [← orderOf_units, hunit', orderOf_root]
  rw [← horder, ← pow_eq_pow_iff_modEq, ← hunit', ← Units.val_pow_eq_pow_val,
    ← Units.val_pow_eq_pow_val, Units.val_inj]

/-! ## What a record stands for -/

/-- The power that bit `position` of a record stands for.  The bits of the stored CRC have
those of the word, whichever byte of it comes first. -/
def exponent (endian : Endian) (length position : Nat) : Nat :=
  match endian with
  | .big => 8 * length + 15 - position
  | .little =>
      if position < 8 * length then 8 * length + 15 - position
      else if position < 8 * length + 8 then 8 * length + 7 - position
      else 8 * length + 23 - position

theorem getD_byteBits (byte : UInt8) {p : Nat} (hp : p < 8) :
    (byteBits byte).getD p false = byte.toNat.testBit (7 - p) := by
  rw [byteBits, List.getD_eq_getElem _ _ (by simpa using hp), List.getElem_map,
    List.getElem_range]

theorem length_messageBits (buf : List UInt8) : (messageBits buf).length = 8 * buf.length := by
  induction buf with
  | nil => rfl
  | cons byte rest ih =>
      rw [messageBits, List.flatMap_cons, List.length_append, ← messageBits, ih, byteBits,
        List.length_map, List.length_range, List.length_cons]
      omega

/-- The message is taken in the order in which the bits of its bytes are numbered. -/
theorem getD_messageBits (buf : List UInt8) (p : Nat) :
    (messageBits buf).getD p false = bitAt buf p := by
  induction buf generalizing p with
  | nil => simp [messageBits, bitAt]
  | cons byte rest ih =>
      have hlength : (byteBits byte).length = 8 := by
        rw [byteBits, List.length_map, List.length_range]
      rw [messageBits, List.flatMap_cons, ← messageBits]
      rcases Nat.lt_or_ge p 8 with hlt | hge
      · rw [List.getD_append _ _ _ _ (by omega), getD_byteBits byte hlt, bitAt,
          Nat.div_eq_of_lt hlt, Nat.mod_eq_of_lt hlt, List.getD_cons_zero]
      · obtain ⟨p, rfl⟩ : ∃ p', p = p' + 8 := ⟨p - 8, by omega⟩
        rw [List.getD_append_right _ _ _ _ (by omega), hlength, Nat.add_sub_cancel, ih, bitAt,
          bitAt, Nat.add_div_right p (by decide), Nat.add_mod_right, List.getD_cons_succ]

theorem residue_crc (buf : List UInt8) :
    residue (mdsApiCrc16Get buf) = ∑ p ∈ Finset.range (8 * buf.length),
      if bitAt buf p then root ^ (8 * buf.length + 15 - p) else 0 := by
  rw [mdsApiCrc16Get_eq_bitwiseCrc, bitwiseCrc, foldl_eq_sum residue_crcBit, residue_zero,
    zero_mul, zero_add, length_messageBits, Finset.mul_sum]
  refine Finset.sum_congr rfl fun p hp => ?_
  have hexponent : 8 * buf.length + 15 - p = 16 + (8 * buf.length - 1 - p) := by
    have hlt := Finset.mem_range.mp hp
    omega
  rw [getD_messageBits, hexponent, mul_ite, mul_zero, ← pow_add]

theorem testBit_two_bytes (first second : UInt8) (i : Nat) :
    (first.toNat + 256 * second.toNat).testBit i =
      if i < 8 then first.toNat.testBit i else second.toNat.testBit (i - 8) := by
  have hsum := Nat.testBit_two_pow_mul_add second.toNat (i := 8) first.toNat_lt i
  rwa [Nat.add_comm] at hsum

theorem toNat_loadU16_little (first second : UInt8) :
    (loadU16 .little [first, second]).toNat = first.toNat + 256 * second.toNat := by
  have hfirst := first.toNat_lt
  have hsecond := second.toNat_lt
  rw [loadU16, UInt16.toNat_ofNat']
  omega

theorem toNat_loadU16_big (first second : UInt8) :
    (loadU16 .big [first, second]).toNat = second.toNat + 256 * first.toNat := by
  have hfirst := first.toNat_lt
  have hsecond := second.toNat_lt
  rw [loadU16, UInt16.toNat_ofNat']
  omega

theorem residue_loadU16 (endian : Endian) (length : Nat) (first second : UInt8) :
    residue (loadU16 endian [first, second]) = ∑ q ∈ Finset.range 16,
      if bitAt [first, second] q then root ^ exponent endian length (8 * length + q) else 0 := by
  rw [residue_eq_powers]
  unfold powers
  cases endian with
  | little =>
      simp only [toNat_loadU16_little, testBit_two_bytes, exponent]
      simp [Finset.sum_range_succ, bitAt]
      ring
  | big =>
      simp only [toNat_loadU16_big, testBit_two_bytes, exponent]
      simp [Finset.sum_range_succ, bitAt]
      ring

section

variable {endian : Endian} {pdata image : Bytes}

/-- The sum of the powers that the bits of the content stand for. -/
noncomputable def syndrome (endian : Endian) (length : Nat) (content : Bytes) : Residues :=
  ∑ p ∈ Finset.range (8 * (length + 2)),
    if bitAt content p then root ^ exponent endian length p else 0

theorem bitAt_append_left (payload rest : Bytes) {p : Nat} (hp : p < 8 * payload.length) :
    bitAt (payload ++ rest) p = bitAt payload p := by
  rw [bitAt, bitAt, List.getD_append _ _ _ _ (by omega)]

theorem bitAt_append_right (payload rest : Bytes) (q : Nat) :
    bitAt (payload ++ rest) (8 * payload.length + q) = bitAt rest q := by
  have hbyte : (8 * payload.length + q) / 8 = payload.length + q / 8 := by omega
  have hbit : (8 * payload.length + q) % 8 = q % 8 := by omega
  rw [bitAt, bitAt, hbyte, hbit, List.getD_append_right _ _ _ _ (by omega),
    Nat.add_sub_cancel_left]

/-- Payload and CRC add up to nothing in a record. -/
theorem syndrome_eq (endian : Endian) (payload : Bytes) (first second : UInt8) :
    syndrome endian payload.length (payload ++ [first, second]) =
      residue (mdsApiCrc16Get payload) + residue (loadU16 endian [first, second]) := by
  rw [syndrome, Nat.mul_add, Finset.sum_range_add, residue_crc,
    residue_loadU16 endian payload.length]
  congr 1
  · refine Finset.sum_congr rfl fun p hp => ?_
    have hlt := Finset.mem_range.mp hp
    have hexponent : exponent endian payload.length p = 8 * payload.length + 15 - p := by
      cases endian with
      | big => rfl
      | little => exact if_pos hlt
    rw [bitAt_append_left _ _ hlt, hexponent]
  · refine Finset.sum_congr rfl fun q _ => ?_
    rw [bitAt_append_right]

theorem isRecord_iff_syndrome {content : Bytes} {length : Nat}
    (hlength : content.length = length + 2) :
    IsRecord endian length content ↔ syndrome endian length content = 0 := by
  obtain ⟨payload, first, second, rfl, rfl⟩ := exists_payload_crc hlength
  rw [syndrome_eq, IsRecord, List.drop_left, List.take_left, CharTwo.add_eq_zero,
    residue_injective.eq_iff, eq_comm (a := mdsApiCrc16Get payload)]
  exact and_iff_right hlength

/-! ## Changed bits -/

/-- The positions of the bits in which the two differ. -/
def changedBits (stored image : Bytes) : Finset Nat :=
  (Finset.range (8 * stored.length)).filter fun p => bitAt stored p ≠ bitAt image p

/-- A changed record is a record exactly when its changed bits add up to nothing. -/
theorem isRecord_iff_sum (hlength : image.length = (record endian pdata).length) :
    IsRecord endian pdata.length image ↔
      ∑ p ∈ changedBits (record endian pdata) image,
        root ^ exponent endian pdata.length p = 0 := by
  have hstored := (isRecord_iff_syndrome (length_record endian pdata)).mp
    (isRecord_record endian pdata)
  rw [length_record] at hlength
  have hsum : syndrome endian pdata.length (record endian pdata) +
      syndrome endian pdata.length image =
        ∑ p ∈ changedBits (record endian pdata) image, root ^ exponent endian pdata.length p := by
    rw [syndrome, syndrome, ← Finset.sum_add_distrib, changedBits, Finset.sum_filter,
      length_record]
    refine Finset.sum_congr rfl fun p _ => ?_
    cases bitAt (record endian pdata) p <;> cases bitAt image p <;>
      simp [CharTwo.add_self_eq_zero]
  rw [isRecord_iff_syndrome hlength, ← hsum, hstored, zero_add]

/-- Where `x` is 1, the generator is 0. -/
theorem eval_generator : eval₂ (RingHom.id (ZMod 2)) 1 generator = 0 := by
  simp [generator]
  decide

noncomputable def parity : Residues →+* ZMod 2 :=
  AdjoinRoot.lift (RingHom.id (ZMod 2)) 1 eval_generator

/-- An odd number of changed bits is always seen. -/
theorem not_isRecord_of_odd (hlength : image.length = (record endian pdata).length)
    (hodd : Odd (changedBits (record endian pdata) image).card) :
    ¬IsRecord endian pdata.length image := by
  intro hrecord
  have hsum := congrArg parity ((isRecord_iff_sum hlength).mp hrecord)
  have hroot : parity root = 1 := AdjoinRoot.lift_root eval_generator
  simp only [map_sum, map_pow, hroot, one_pow, map_zero, Finset.sum_const, nsmul_eq_mul,
    mul_one] at hsum
  rw [(ZMod.natCast_eq_one_iff_odd).mpr hodd] at hsum
  exact absurd hsum (by decide)

/-- Two changed bits are seen unless their powers are the same. -/
theorem isRecord_iff_of_two (hlength : image.length = (record endian pdata).length) {p q : Nat}
    (hne : p ≠ q) (hchanged : changedBits (record endian pdata) image = {p, q}) :
    IsRecord endian pdata.length image ↔
      exponent endian pdata.length p ≡ exponent endian pdata.length q [MOD 32767] := by
  rw [isRecord_iff_sum hlength, hchanged, Finset.sum_pair hne, CharTwo.add_eq_zero,
    root_pow_eq_iff]

theorem exponent_le (endian : Endian) (length p : Nat) :
    exponent endian length p ≤ 8 * length + 15 := by
  cases endian <;> simp only [exponent] <;> try split_ifs
  all_goals omega

theorem exponent_injective {length p q : Nat} (hp : p < 8 * (length + 2))
    (hq : q < 8 * (length + 2)) (heq : exponent endian length p = exponent endian length q) :
    p = q := by
  cases endian <;> simp only [exponent] at heq <;> try split_ifs at heq
  all_goals omega

theorem mem_changedBits {stored : Bytes} {p : Nat} :
    p ∈ changedBits stored image ↔ p < 8 * stored.length ∧ bitAt stored p ≠ bitAt image p := by
  rw [changedBits, Finset.mem_filter, Finset.mem_range]

/-- Up to 4093 bytes no two bits of a record stand for one power. -/
theorem not_isRecord_of_two (hlength : image.length = (record endian pdata).length)
    (hshort : pdata.length ≤ 4093) (htwo : (changedBits (record endian pdata) image).card = 2) :
    ¬IsRecord endian pdata.length image := by
  obtain ⟨p, q, hne, hchanged⟩ := Finset.card_eq_two.mp htwo
  rw [isRecord_iff_of_two hlength hne hchanged]
  intro hsame
  have hbound : ∀ r ∈ changedBits (record endian pdata) image, r < 8 * (pdata.length + 2) := by
    intro r hr
    have hlt := (mem_changedBits.mp hr).1
    rwa [length_record] at hlt
  have hp := exponent_le endian pdata.length p
  have hq := exponent_le endian pdata.length q
  have heq := Nat.ModEq.eq_of_lt_of_lt hsame (by omega) (by omega)
  refine hne (exponent_injective (hbound p ?_) (hbound q ?_) heq)
  · rw [hchanged]
    exact Finset.mem_insert_self p {q}
  · rw [hchanged]
    exact Finset.mem_insert_of_mem (Finset.mem_singleton_self q)

/-! ## Two bits that are not seen -/

def flipBit (bytes : Bytes) (position : Nat) : Bytes :=
  bytes.set (position / 8)
    (bytes.getD (position / 8) 0 ^^^ UInt8.ofNat (2 ^ (7 - position % 8)))

theorem length_flipBit (bytes : Bytes) (position : Nat) :
    (flipBit bytes position).length = bytes.length :=
  List.length_set

theorem bitAt_flipBit {bytes : Bytes} {position : Nat} (hposition : position < 8 * bytes.length)
    (p : Nat) : bitAt (flipBit bytes position) p = (bitAt bytes p ^^ decide (p = position)) := by
  have hbyte : position / 8 < bytes.length := by omega
  have hmask : (UInt8.ofNat (2 ^ (7 - position % 8))).toNat = 2 ^ (7 - position % 8) := by
    rw [UInt8.toNat_ofNat']
    apply Nat.mod_eq_of_lt
    exact Nat.pow_lt_pow_right (by decide) (by omega)
  unfold bitAt flipBit
  rw [List.getD_eq_getElem?_getD, List.getElem?_set]
  by_cases hsame : position / 8 = p / 8
  · rw [if_pos hsame, if_pos (hsame ▸ hbyte), Option.getD_some, UInt8.toNat_xor, Nat.testBit_xor,
      hmask, Nat.testBit_two_pow, hsame]
    congr 1
    exact decide_eq_decide.mpr (by omega)
  · have hother : p ≠ position := by
      rintro rfl
      exact hsame rfl
    rw [if_neg hsame, decide_eq_false hother, Bool.xor_false, List.getD_eq_getElem?_getD]

theorem changedBits_flipBit (stored : Bytes) {p q : Nat} (hp : p < 8 * stored.length)
    (hq : q < 8 * stored.length) (hne : p ≠ q) :
    changedBits stored (flipBit (flipBit stored p) q) = {p, q} := by
  have hq' : q < 8 * (flipBit stored p).length := by rwa [length_flipBit]
  ext r
  rw [mem_changedBits, bitAt_flipBit hq', bitAt_flipBit hp, Finset.mem_insert,
    Finset.mem_singleton]
  by_cases hrp : r = p
  · have hrq : r ≠ q := fun heq => hne (hrp.symm.trans heq)
    rw [decide_eq_true hrp, decide_eq_false hrq]
    cases bitAt stored r <;> simp [hrp, hp]
  · by_cases hrq : r = q
    · rw [decide_eq_false hrp, decide_eq_true hrq]
      cases bitAt stored r <;> simp [hrq, hq]
    · rw [decide_eq_false hrp, decide_eq_false hrq]
      simp [hrp, hrq]

/-- From 4094 bytes on there are two bits that stand for one power: the lowest one of the CRC
and one of the payload. -/
theorem exists_two_missed (endian : Endian) (hlong : 4094 ≤ pdata.length) :
    ∃ image, image.length = (record endian pdata).length ∧
      (changedBits (record endian pdata) image).card = 2 ∧ IsRecord endian pdata.length image := by
  obtain ⟨low, hlow, hzero⟩ : ∃ low, 8 * pdata.length ≤ low ∧ low < 8 * (pdata.length + 2) ∧
      exponent endian pdata.length low = 0 := by
    cases endian with
    | little =>
        refine ⟨8 * pdata.length + 7, by omega, by omega, ?_⟩
        rw [exponent, if_neg (by omega), if_pos (by omega)]
        omega
    | big => exact ⟨8 * pdata.length + 15, by omega, by omega, Nat.sub_self _⟩
  obtain ⟨hlow', hzero⟩ := hzero
  have hhigh : exponent endian pdata.length (8 * pdata.length - 32752) = 32767 := by
    cases endian with
    | little =>
        rw [exponent, if_pos (by omega)]
        omega
    | big =>
        rw [exponent]
        omega
  have hne : 8 * pdata.length - 32752 ≠ low := by omega
  have hlength := length_record endian pdata
  have hchanged : changedBits (record endian pdata) _ = {8 * pdata.length - 32752, low} :=
    changedBits_flipBit (record endian pdata) (by omega) (by omega) hne
  refine ⟨_, ?_, ?_, (isRecord_iff_of_two ?_ hne hchanged).mpr ?_⟩
  · rw [length_flipBit, length_flipBit]
  · rw [hchanged, Finset.card_pair hne]
  · rw [length_flipBit, length_flipBit]
  · rw [hhigh, hzero]
    decide

/-! ## Loading -/

/-- With the image in the place of `file`, `_load_file` sees the change, and a load delivers
nothing but a record that `file.bak` holds. -/
def Rejected (endian : Endian) (pdata image : Bytes) : Prop :=
  ∀ disk : Disk FileName UInt8, disk .file = some image →
    (loadFile endian .file pdata.length (.boot disk)).1 = -errDataCrc ∧
      ∀ buffer, (mdsApiStorageLoadFile endian buffer pdata.length (.boot disk)).1 = errNone →
        ∃ backup, disk .bak = some backup ∧
          IsRecord endian pdata.length (backup.take (pdata.length + 2)) ∧
          (mdsApiStorageLoadFile endian buffer pdata.length (.boot disk)).2.1 =
            backup.take pdata.length

theorem rejected_iff (hlength : image.length = (record endian pdata).length) :
    Rejected endian pdata image ↔ ¬IsRecord endian pdata.length image := by
  rw [length_record] at hlength
  constructor
  · intro hrejected hrecord
    have hcode := (hrejected (fun _ => some image) rfl).1
    rw [Kernel.boot, loadFile_record [] rfl hrecord] at hcode
    exact absurd (show errNone = -errDataCrc from hcode) (by decide)
  · intro hnot disk hdisk
    refine ⟨by rw [loadFile_not_record hdisk hlength hnot], fun buffer hnone => ?_⟩
    exact mdsApiStorageLoadFile_delivers_backup buffer hdisk hlength hnot hnone

end

/-- A load rejects every record in which an odd number of bits has changed. -/
theorem oddBits_rejected (endian : Endian) (pdata image : Bytes)
    (hlength : image.length = (record endian pdata).length)
    (hodd : Odd (changedBits (record endian pdata) image).card) : Rejected endian pdata image :=
  (rejected_iff hlength).mpr (not_isRecord_of_odd hlength hodd)

/-- Three bits of one byte and of its CRC. -/
theorem oddBits_rejected_three : Rejected .little [0] [0x81, 0, 0x80] :=
  oddBits_rejected .little [0] [0x81, 0, 0x80] rfl (by decide)

/-- A load rejects every record in which one, two or three bits have changed exactly when the
payload has no more than 4093 bytes. -/
theorem threeBits_rejected_iff (endian : Endian) (pdata : Bytes) :
    (∀ image, image.length = (record endian pdata).length →
        1 ≤ (changedBits (record endian pdata) image).card →
          (changedBits (record endian pdata) image).card ≤ 3 → Rejected endian pdata image) ↔
      pdata.length ≤ 4093 := by
  constructor
  · intro hall
    apply Nat.le_of_not_lt
    intro hlong
    obtain ⟨image, hlength, htwo, hrecord⟩ := exists_two_missed endian hlong
    have hrejected := hall image hlength (by omega) (by omega)
    exact (rejected_iff hlength).mp hrejected hrecord
  · intro hshort image hlength hsome hfew
    rw [rejected_iff hlength]
    by_cases htwo : (changedBits (record endian pdata) image).card = 2
    · exact not_isRecord_of_two hlength hshort htwo
    · apply not_isRecord_of_odd hlength
      rw [Nat.odd_iff]
      omega

end MdsFormal.Storage.BitErrors
