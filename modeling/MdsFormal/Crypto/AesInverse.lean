import MdsFormal.Crypto.Aes
import MdsFormal.Library.Buffer

/-!
# The inverse cipher

`InvCipher` undoes `Cipher` under one schedule, step by step: the S-boxes are inverse
tables, the row shifts undo each other, and the column maps are linear, so that they are
compared on columns with one byte.  The last section says which part of the schedule the
two functions read, and that `KeyExpansion` writes all of it.
-/

namespace MdsFormal.Crypto.Aes

open Library.Buffer (forall_byte)

/-! ## Exclusive or -/

@[simp]
theorem Word.xor_mk (a b c d a' b' c' d' : UInt8) :
    (⟨a, b, c, d⟩ : Word) ^^^ ⟨a', b', c', d'⟩ = ⟨a ^^^ a', b ^^^ b', c ^^^ c', d ^^^ d'⟩ := rfl

theorem Word.xor_xor_cancel (v w : Word) : v ^^^ w ^^^ w = v := by
  obtain ⟨a, b, c, d⟩ := v
  obtain ⟨a', b', c', d'⟩ := w
  simp only [Word.xor_mk, UInt8.xor_assoc, UInt8.xor_self, UInt8.xor_zero]

@[simp]
theorem Block.xor_mk (a b c d a' b' c' d' : Word) :
    (⟨a, b, c, d⟩ : Block) ^^^ ⟨a', b', c', d'⟩ = ⟨a ^^^ a', b ^^^ b', c ^^^ c', d ^^^ d'⟩ := rfl

theorem Block.xor_xor_cancel (a b : Block) : a ^^^ b ^^^ b = a := by
  obtain ⟨c0, c1, c2, c3⟩ := a
  obtain ⟨d0, d1, d2, d3⟩ := b
  simp only [Block.xor_mk, Word.xor_xor_cancel]

theorem Word.xor_comm (v w : Word) : v ^^^ w = w ^^^ v := by
  obtain ⟨a, b, c, d⟩ := v
  obtain ⟨a', b', c', d'⟩ := w
  rw [Word.xor_mk, Word.xor_mk, UInt8.xor_comm a, UInt8.xor_comm b, UInt8.xor_comm c,
    UInt8.xor_comm d]

theorem Word.xor_assoc (u v w : Word) : u ^^^ v ^^^ w = u ^^^ (v ^^^ w) := by
  obtain ⟨a, b, c, d⟩ := u
  obtain ⟨a', b', c', d'⟩ := v
  obtain ⟨a'', b'', c'', d''⟩ := w
  simp only [Word.xor_mk, UInt8.xor_assoc]

theorem Block.xor_comm (a b : Block) : a ^^^ b = b ^^^ a := by
  obtain ⟨c0, c1, c2, c3⟩ := a
  obtain ⟨c0', c1', c2', c3'⟩ := b
  rw [Block.xor_mk, Block.xor_mk, Word.xor_comm c0, Word.xor_comm c1, Word.xor_comm c2,
    Word.xor_comm c3]

theorem Block.xor_assoc (a b c : Block) : a ^^^ b ^^^ c = a ^^^ (b ^^^ c) := by
  obtain ⟨a0, a1, a2, a3⟩ := a
  obtain ⟨b0, b1, b2, b3⟩ := b
  obtain ⟨c0, c1, c2, c3⟩ := c
  simp only [Block.xor_mk, Word.xor_assoc]

theorem Block.xor_right_cancel {a a' b : Block} (heq : a ^^^ b = a' ^^^ b) : a = a' := by
  have hboth : a ^^^ b ^^^ b = a' ^^^ b ^^^ b := congrArg (· ^^^ b) heq
  rwa [Block.xor_xor_cancel, Block.xor_xor_cancel] at hboth

theorem Block.xor_left_cancel {a b b' : Block} (heq : a ^^^ b = a ^^^ b') : b = b' := by
  rw [Block.xor_comm a, Block.xor_comm a] at heq
  exact Block.xor_right_cancel heq

theorem addRoundKey_addRoundKey (roundKey : RoundKey) (round : Nat) (b : Block) :
    addRoundKey roundKey round (addRoundKey roundKey round b) = b :=
  b.xor_xor_cancel (roundKey.block round)

/-! ## Maps of a word and of a block -/

theorem Word.map_map_eq_self {f g : UInt8 → UInt8} (hinv : ∀ x, g (f x) = x) (w : Word) :
    (w.map f).map g = w := by
  simp only [Word.map, hinv]

theorem Block.map_map_eq_self {f g : Word → Word} (hinv : ∀ w, g (f w) = w) (b : Block) :
    (b.map f).map g = b := by
  simp only [Block.map, hinv]

/-! ## The S-boxes -/

theorem getSBoxInvert_getSBoxValue : ∀ x, getSBoxInvert (getSBoxValue x) = x :=
  forall_byte _ (by decide +kernel)

theorem invSubBytes_subBytes (b : Block) : invSubBytes (subBytes b) = b :=
  b.map_map_eq_self fun w => w.map_map_eq_self getSBoxInvert_getSBoxValue

theorem invShiftRows_shiftRows (b : Block) : invShiftRows (shiftRows b) = b := rfl

/-! ## The columns -/

theorem bit_cases : ∀ x : UInt8, x &&& 1 = 0 ∨ x &&& 1 = 1 :=
  forall_byte _ (by decide +kernel)

theorem xor_and (x y z : UInt8) : (x ^^^ y) &&& z = (x &&& z) ^^^ (y &&& z) := by
  refine UInt8.toBitVec_inj.mp (BitVec.eq_of_getElem_eq fun i hi => ?_)
  simp [Bool.and_xor_distrib_right]

/-- Each bit of a byte selects on its own. -/
theorem xor_bitTimes (y y' k x : UInt8) :
    bitTimes (y ^^^ y') k x = bitTimes y k x ^^^ bitTimes y' k x := by
  unfold bitTimes
  rw [UInt8.shiftRight_xor, xor_and]
  rcases bit_cases (y >>> k) with hbit | hbit <;> rcases bit_cases (y' >>> k) with hbit' | hbit' <;>
    simp [hbit, hbit']

theorem bitTimes_xor (y k x x' : UInt8) :
    bitTimes y k (x ^^^ x') = bitTimes y k x ^^^ bitTimes y k x' := by
  unfold bitTimes
  rcases bit_cases (y >>> k) with hbit | hbit
  · simp [hbit]
  · simp [hbit]

theorem xtime_eq (x : UInt8) : xtime x = (x <<< 1) ^^^ bitTimes x 7 0x1b := rfl

theorem xtime_xor (x x' : UInt8) : xtime (x ^^^ x') = xtime x ^^^ xtime x' := by
  simp only [xtime_eq, UInt8.shiftLeft_xor, xor_bitTimes]
  ac_rfl

theorem multiply_xor (x x' y : UInt8) :
    multiply (x ^^^ x') y = multiply x y ^^^ multiply x' y := by
  unfold multiply
  simp only [xtime_xor, bitTimes_xor]
  ac_rfl

theorem mixColumn_xor (v w : Word) : mixColumn (v ^^^ w) = mixColumn v ^^^ mixColumn w := by
  obtain ⟨a, b, c, d⟩ := v
  obtain ⟨a', b', c', d'⟩ := w
  simp only [mixColumn, Word.xor_mk, Word.mk.injEq, xtime_xor]
  refine ⟨?_, ?_, ?_, ?_⟩ <;> ac_rfl

theorem invMixColumn_xor (v w : Word) :
    invMixColumn (v ^^^ w) = invMixColumn v ^^^ invMixColumn w := by
  obtain ⟨a, b, c, d⟩ := v
  obtain ⟨a', b', c', d'⟩ := w
  simp only [invMixColumn, Word.xor_mk, Word.mk.injEq, multiply_xor]
  refine ⟨?_, ?_, ?_, ?_⟩ <;> ac_rfl

/-- A product by the bits of its second factor. -/
def bitSum (b0 b1 b2 b3 b4 x : UInt8) : UInt8 :=
  b0 * x ^^^ b1 * xtime x ^^^ b2 * xtime (xtime x) ^^^ b3 * xtime (xtime (xtime x)) ^^^
    b4 * xtime (xtime (xtime (xtime x)))

theorem multiply_09 (x : UInt8) : multiply x 0x09 = x ^^^ xtime (xtime (xtime x)) := by
  have hbits : multiply x 0x09 = bitSum 1 0 0 1 0 x := rfl
  rw [hbits]
  simp [bitSum]

theorem multiply_0b (x : UInt8) :
    multiply x 0x0b = x ^^^ xtime x ^^^ xtime (xtime (xtime x)) := by
  have hbits : multiply x 0x0b = bitSum 1 1 0 1 0 x := rfl
  rw [hbits]
  simp [bitSum]

theorem multiply_0d (x : UInt8) :
    multiply x 0x0d = x ^^^ xtime (xtime x) ^^^ xtime (xtime (xtime x)) := by
  have hbits : multiply x 0x0d = bitSum 1 0 1 1 0 x := rfl
  rw [hbits]
  simp [bitSum]

theorem multiply_0e (x : UInt8) :
    multiply x 0x0e = xtime x ^^^ xtime (xtime x) ^^^ xtime (xtime (xtime x)) := by
  have hbits : multiply x 0x0e = bitSum 0 1 1 1 0 x := rfl
  rw [hbits]
  simp [bitSum]

theorem xtime_zero : xtime 0 = 0 := rfl

theorem xor_cancel_outer (x y : UInt8) : x ^^^ (y ^^^ x) = y := by
  rw [UInt8.xor_comm y, ← UInt8.xor_assoc, UInt8.xor_self, UInt8.zero_xor]

theorem xor_left_comm (x y z : UInt8) : x ^^^ (y ^^^ z) = y ^^^ (x ^^^ z) := by
  ac_rfl

/-- What becomes of a column with one byte, in each of its four places. -/
theorem mixColumn_single (x : UInt8) :
    mixColumn ⟨x, 0, 0, 0⟩ = ⟨xtime x, x, x, xtime x ^^^ x⟩ ∧
      mixColumn ⟨0, x, 0, 0⟩ = ⟨xtime x ^^^ x, xtime x, x, x⟩ ∧
      mixColumn ⟨0, 0, x, 0⟩ = ⟨x, xtime x ^^^ x, xtime x, x⟩ ∧
      mixColumn ⟨0, 0, 0, x⟩ = ⟨x, x, xtime x ^^^ x, xtime x⟩ := by
  simp only [mixColumn, xtime_zero, UInt8.xor_zero, UInt8.zero_xor, xor_cancel_outer, and_self]

/-- A column with one byte is restored, in each of its four places. -/
theorem invMixColumn_single (x : UInt8) :
    invMixColumn (mixColumn ⟨x, 0, 0, 0⟩) = ⟨x, 0, 0, 0⟩ ∧
      invMixColumn (mixColumn ⟨0, x, 0, 0⟩) = ⟨0, x, 0, 0⟩ ∧
      invMixColumn (mixColumn ⟨0, 0, x, 0⟩) = ⟨0, 0, x, 0⟩ ∧
      invMixColumn (mixColumn ⟨0, 0, 0, x⟩) = ⟨0, 0, 0, x⟩ := by
  obtain ⟨hfirst, hsecond, hthird, hfourth⟩ := mixColumn_single x
  rw [hfirst, hsecond, hthird, hfourth]
  simp only [invMixColumn, multiply_09, multiply_0b, multiply_0d, multiply_0e, xtime_xor,
    Word.mk.injEq]
  generalize xtime (xtime (xtime (xtime x))) = x4
  generalize xtime (xtime (xtime x)) = x3
  generalize xtime (xtime x) = x2
  generalize xtime x = x1
  simp [UInt8.xor_comm, xor_left_comm]

theorem Word.eq_xor_single (w : Word) :
    w = ⟨w.b0, 0, 0, 0⟩ ^^^ ⟨0, w.b1, 0, 0⟩ ^^^ ⟨0, 0, w.b2, 0⟩ ^^^ ⟨0, 0, 0, w.b3⟩ := by
  simp

theorem invMixColumn_mixColumn (w : Word) : invMixColumn (mixColumn w) = w := by
  rw [w.eq_xor_single]
  simp only [mixColumn_xor, invMixColumn_xor, (invMixColumn_single _).1,
    (invMixColumn_single _).2.1, (invMixColumn_single _).2.2.1, (invMixColumn_single _).2.2.2]

theorem invMixColumns_mixColumns (b : Block) : invMixColumns (mixColumns b) = b :=
  b.map_map_eq_self invMixColumn_mixColumn

/-! ## The rounds -/

/-- The last step of `InvCipher` before its loop undoes the last step of `Cipher`; its loop
then takes back one round after the other. -/
theorem invRounds_rounds (roundKey : RoundKey) (n : Nat) (b : Block) :
    invSubBytes (invShiftRows (invRounds roundKey n
      (shiftRows (subBytes (rounds roundKey n b))))) = b := by
  induction n with
  | zero =>
      simp only [rounds, invRounds, invShiftRows_shiftRows, invSubBytes_subBytes]
  | succ n ih =>
      simp only [rounds, invRounds, invShiftRows_shiftRows, invSubBytes_subBytes,
        addRoundKey_addRoundKey, invMixColumns_mixColumns]
      exact ih

theorem invCipher_cipher (nr : Nat) (roundKey : RoundKey) (b : Block) :
    invCipher nr roundKey (cipher nr roundKey b) = b := by
  unfold invCipher cipher
  rw [addRoundKey_addRoundKey, invRounds_rounds, addRoundKey_addRoundKey]

/-! ## The part of the schedule that is read -/

/-- The schedules have the same first `nr + 1` round keys. -/
def SameKeys (nr : Nat) (roundKey roundKey' : RoundKey) : Prop :=
  ∀ round ≤ nr, roundKey.block round = roundKey'.block round

section

variable {nr n : Nat} {roundKey roundKey' : RoundKey}

theorem SameKeys.addRoundKey (hsame : SameKeys nr roundKey roundKey') (hn : n ≤ nr) (b : Block) :
    Aes.addRoundKey roundKey n b = Aes.addRoundKey roundKey' n b :=
  congrArg (b ^^^ ·) (hsame n hn)

theorem SameKeys.rounds (hsame : SameKeys nr roundKey roundKey') (hn : n ≤ nr) (b : Block) :
    Aes.rounds roundKey n b = Aes.rounds roundKey' n b := by
  induction n with
  | zero => rfl
  | succ n ih =>
      simp only [Aes.rounds]
      rw [ih (Nat.le_of_succ_le hn), hsame.addRoundKey hn]

theorem SameKeys.invRounds (hsame : SameKeys nr roundKey roundKey') (hn : n ≤ nr) (b : Block) :
    Aes.invRounds roundKey n b = Aes.invRounds roundKey' n b := by
  induction n generalizing b with
  | zero => rfl
  | succ n ih =>
      simp only [Aes.invRounds]
      rw [hsame.addRoundKey hn, ih (Nat.le_of_succ_le hn)]

theorem SameKeys.cipher (hsame : SameKeys nr roundKey roundKey') (b : Block) :
    Aes.cipher nr roundKey b = Aes.cipher nr roundKey' b := by
  unfold Aes.cipher
  rw [hsame.addRoundKey (Nat.zero_le nr), hsame.rounds (Nat.sub_le nr 1),
    hsame.addRoundKey (Nat.le_refl nr)]

theorem SameKeys.invCipher (hsame : SameKeys nr roundKey roundKey') (b : Block) :
    Aes.invCipher nr roundKey b = Aes.invCipher nr roundKey' b := by
  unfold Aes.invCipher
  rw [hsame.addRoundKey (Nat.le_refl nr), hsame.invRounds (Nat.sub_le nr 1),
    hsame.addRoundKey (Nat.zero_le nr)]

end

/-! ## What the key expansion leaves -/

/-- The first `n` words of the schedules are the same. -/
def SameWords (n : Nat) (roundKey roundKey' : RoundKey) : Prop :=
  ∀ i < n, roundKey.word i = roundKey'.word i

section

variable {aesType : AesType} {nk n : Nat} {key : Bytes} {roundKey roundKey' : RoundKey}

theorem SameWords.setWord (hsame : SameWords n roundKey roundKey') (hn : n < 60) {w w' : Word}
    (hw : w = w') : SameWords (n + 1) (roundKey.setWord n w) (roundKey'.setWord n w') := by
  intro i hi
  rw [RoundKey.word_setWord, RoundKey.word_setWord, hw]
  rcases Nat.lt_or_eq_of_le (Nat.le_of_lt_succ hi) with hlt | rfl
  · simp only [Nat.ne_of_gt hlt, false_and, if_false]
    exact hsame i hlt
  · simp only [hn, and_self, if_true]

theorem sameWords_copyKey (hnk : n ≤ 60) :
    SameWords n (copyKey key n roundKey) (copyKey key n roundKey') := by
  induction n with
  | zero => exact fun i hi => absurd hi (Nat.not_lt_zero i)
  | succ n ih => exact (ih (Nat.le_of_succ_le hnk)).setWord hnk rfl

/-- A word is made from words before it. -/
theorem SameWords.expandedWord (hsame : SameWords n roundKey roundKey') (hnk : 0 < nk)
    (hle : nk ≤ n) :
    Aes.expandedWord aesType nk roundKey n = Aes.expandedWord aesType nk roundKey' n := by
  unfold Aes.expandedWord
  rw [hsame (n - 1) (by omega), hsame (n - nk) (by omega)]

theorem SameWords.expandLoop {count : Nat} (hsame : SameWords n roundKey roundKey')
    (hnk : 0 < nk) (hle : nk ≤ n) (hroom : n + count ≤ 60) :
    SameWords (n + count) (Aes.expandLoop aesType nk count n roundKey)
      (Aes.expandLoop aesType nk count n roundKey') := by
  induction count generalizing n roundKey roundKey' with
  | zero => exact hsame
  | succ count ih =>
      have hword : Aes.expandedWord aesType nk roundKey n =
          Aes.expandedWord aesType nk roundKey' n := hsame.expandedWord hnk hle
      have hnext := hsame.setWord (by omega) hword
      have hrest := ih hnext (Nat.le_succ_of_le hle) (by omega)
      rwa [Nat.add_right_comm, Nat.add_assoc] at hrest

/-- What `KeyExpansion` leaves in the schedule does not depend on what was there. -/
theorem sameKeys_keyExpansion {nr : Nat} (hnk : 0 < nk) (hle : nk ≤ 4 * (nr + 1))
    (hroom : 4 * (nr + 1) ≤ 60) :
    SameKeys nr (keyExpansion aesType nk nr key roundKey)
      (keyExpansion aesType nk nr key roundKey') := by
  have hcopied : SameWords nk (copyKey key nk roundKey) (copyKey key nk roundKey') :=
    sameWords_copyKey (Nat.le_trans hle hroom)
  have hwords : SameWords (nk + (4 * (nr + 1) - nk))
      (keyExpansion aesType nk nr key roundKey) (keyExpansion aesType nk nr key roundKey') :=
    hcopied.expandLoop hnk (Nat.le_refl nk) (by omega)
  rw [Nat.add_sub_cancel' hle] at hwords
  intro round hround
  unfold RoundKey.block
  rw [hwords (4 * round) (by omega), hwords (4 * round + 1) (by omega),
    hwords (4 * round + 2) (by omega), hwords (4 * round + 3) (by omega)]

end

end MdsFormal.Crypto.Aes
