import MdsFormal.Crypto.EcbBlocks
import MdsFormal.Crypto.Fips197

/-!
# The key schedule of the standard

`KeyExpansion` writes the words of the standard's schedule one after the other, each from
words it has written before.  With that, encryption under a selected type is the
standard's cipher, and the loop of the CBC function its chaining.
-/

namespace MdsFormal.Crypto.Fips197

open MdsFormal.Crypto.Aes
open MdsFormal.Crypto.FieldArithmetic
open MdsFormal.Library.BlockChain

/-! ## One word -/

theorem column_rotWord (w : Word) : column w.rotWord = Standard.rotWord (column w) := by
  funext r
  fin_cases r <;> rfl

theorem column_subWord (w : Word) : column w.subWord = Standard.subWord (column w) :=
  column_map w

/-- The constants are the powers of the root. -/
theorem residue_rcon {j : Nat} (hlow : 1 ≤ j) (hhigh : j ≤ 10) : residue (rcon j) = root ^ (j - 1) := by
  induction j, hlow using Nat.le_induction with
  | base => exact residue_one
  | succ j hlow ih =>
      have hnext : ∀ j < 10, 1 ≤ j → rcon (j + 1) = xtime (rcon j) := by decide
      obtain ⟨k, rfl⟩ : ∃ k, j = k + 1 := ⟨j - 1, by omega⟩
      rw [hnext (k + 1) (by omega) hlow, residue_xtime, ih (by omega), Nat.add_sub_cancel,
        Nat.add_sub_cancel, pow_succ']

theorem column_xor_rcon (w : Word) {j : Nat} (hlow : 1 ≤ j) (hhigh : j ≤ 10) :
    column { w with b0 := w.b0 ^^^ rcon j } = column w + Standard.rcon j := by
  funext r
  fin_cases r
  · change residue (w.b0 ^^^ rcon j) = residue w.b0 + root ^ (j - 1)
    rw [residue_xor, residue_rcon hlow hhigh]
  all_goals exact (add_zero _).symm

/-- The constants that a type's schedule asks for are in the table. -/
theorem rcon_in_table (aesType : AesType) {i : Nat} (hlow : aesType.nk ≤ i)
    (hhigh : i < 4 * (aesType.nr + 1)) : 1 ≤ i / aesType.nk ∧ i / aesType.nk ≤ 10 := by
  cases aesType <;> simp only [AesType.nk, AesType.nr] at hlow hhigh ⊢ <;> omega

theorem column_expandedWord (aesType : AesType) (roundKey : RoundKey) {i : Nat}
    (hlow : aesType.nk ≤ i) (hhigh : i < 4 * (aesType.nr + 1)) :
    column (expandedWord aesType aesType.nk roundKey i) =
      column (roundKey.word (i - aesType.nk)) +
        Standard.temp aesType.nk i (column (roundKey.word (i - 1))) := by
  obtain ⟨hfirst, hlast⟩ := rcon_in_table aesType hlow hhigh
  unfold expandedWord Standard.temp
  rw [column_xor]
  congr 1
  by_cases hstart : i % aesType.nk = 0
  · rw [if_pos hstart, if_pos hstart]
    -- a first word of a period is not also the fifth one
    have hfifth : ¬i % aesType.nk = 4 := by omega
    rw [if_neg hfifth, ite_self, column_xor_rcon _ hfirst hlast, column_subWord, column_rotWord]
  · rw [if_neg hstart, if_neg hstart]
    have hlong : aesType = .aes256 ↔ 6 < aesType.nk := by
      cases aesType <;> decide
    by_cases haes256 : aesType = .aes256
    · by_cases hfifth : i % aesType.nk = 4
      · rw [if_pos haes256, if_pos hfifth, if_pos ⟨hlong.mp haes256, hfifth⟩, column_subWord]
      · rw [if_pos haes256, if_neg hfifth, if_neg fun hboth => hfifth hboth.2]
    · rw [if_neg haes256, if_neg fun hboth => haes256 (hlong.mpr hboth.1)]

/-! ## The loops -/

/-- The words of a key. -/
noncomputable def keyColumns (key : Bytes) (i : Nat) : Column := column (key.word i)

/-- The first `n` words are those of the standard. -/
def Written (aesType : AesType) (key : Bytes) (n : Nat) (roundKey : RoundKey) : Prop :=
  ∀ i < n, column (roundKey.word i) = Standard.schedule aesType.nk (keyColumns key) i

section

variable {aesType : AesType} {key : Bytes} {n : Nat} {roundKey : RoundKey}

theorem Written.setWord (hwritten : Written aesType key n roundKey) (hroom : n < 60) {w : Word}
    (hw : column w = Standard.schedule aesType.nk (keyColumns key) n) :
    Written aesType key (n + 1) (roundKey.setWord n w) := by
  intro i hi
  rw [RoundKey.word_setWord]
  rcases Nat.lt_or_eq_of_le (Nat.le_of_lt_succ hi) with hlt | rfl
  · rw [if_neg fun hboth => Nat.ne_of_gt hlt hboth.1]
    exact hwritten i hlt
  · rw [if_pos ⟨rfl, hroom⟩, hw]

theorem written_copyKey (hn : n ≤ aesType.nk) : Written aesType key n (copyKey key n roundKey) := by
  have hsize : aesType.nk ≤ 8 := by cases aesType <;> decide
  induction n with
  | zero => exact fun i hi => absurd hi (Nat.not_lt_zero i)
  | succ n ih =>
      refine (ih (Nat.le_of_succ_le hn)).setWord (by omega) ?_
      rw [Standard.schedule, if_pos (.inl hn)]
      rfl

theorem Written.expandedWord (hwritten : Written aesType key n roundKey) (hlow : aesType.nk ≤ n)
    (hhigh : n < 4 * (aesType.nr + 1)) :
    column (Aes.expandedWord aesType aesType.nk roundKey n) =
      Standard.schedule aesType.nk (keyColumns key) n := by
  have hpos : 0 < aesType.nk := by cases aesType <;> decide
  rw [column_expandedWord aesType roundKey hlow hhigh, Standard.schedule,
    if_neg (by omega), hwritten (n - aesType.nk) (by omega), hwritten (n - 1) (by omega)]

theorem Written.expandLoop {count : Nat} (hwritten : Written aesType key n roundKey)
    (hlow : aesType.nk ≤ n) (hhigh : n + count ≤ 4 * (aesType.nr + 1)) :
    Written aesType key (n + count) (Aes.expandLoop aesType aesType.nk count n roundKey) := by
  have hroom : 4 * (aesType.nr + 1) ≤ 60 := by cases aesType <;> decide
  induction count generalizing n roundKey with
  | zero => exact hwritten
  | succ count ih =>
      have hnext := hwritten.setWord (by omega) (hwritten.expandedWord hlow (by omega))
      have hrest := ih hnext (Nat.le_succ_of_le hlow) (by omega)
      rwa [Nat.add_right_comm, Nat.add_assoc] at hrest

/-- `KeyExpansion` writes the schedule of the standard. -/
theorem written_schedule (aesType : AesType) (key : Bytes) :
    Written aesType key (4 * (aesType.nr + 1)) (aesType.schedule key) := by
  have hle : aesType.nk ≤ 4 * (aesType.nr + 1) := by cases aesType <;> decide
  have hcopied : Written aesType key aesType.nk (copyKey key aesType.nk RoundKey.zero) :=
    written_copyKey (Nat.le_refl _)
  have hexpanded : Written aesType key (aesType.nk + (4 * (aesType.nr + 1) - aesType.nk))
      (aesType.schedule key) := hcopied.expandLoop (Nat.le_refl _) (by omega)
  rwa [Nat.add_sub_cancel' hle] at hexpanded

theorem state_block (aesType : AesType) (key : Bytes) {round : Nat} (hround : round ≤ aesType.nr) :
    state ((aesType.schedule key).block round) =
      Standard.roundKeys aesType.nk (keyColumns key) round := by
  have hwritten := written_schedule aesType key
  ext r c
  have hword : col ((aesType.schedule key).block round) c =
      (aesType.schedule key).word (4 * round + c) := by
    fin_cases c <;> rfl
  change column (col _ c) r = Standard.schedule _ _ (4 * round + c) r
  rw [hword, hwritten _ (by omega)]

end

/-! ## The cipher -/

/-- The standard's encryption under a key. -/
noncomputable def standardEncrypt (aesType : AesType) (key : Bytes) : State → State :=
  Standard.cipher aesType.nr (Standard.roundKeys aesType.nk (keyColumns key))

theorem state_encrypt (aesType : AesType) (key : Bytes) (b : Block) :
    state (aesType.encrypt key b) = standardEncrypt aesType key (state b) :=
  state_cipher (fun _ hround => state_block aesType key hround) b

/--
For every type, key, iv and data of whole blocks, what CBC encryption leaves in its output
is the chained encryption of the data by the cipher of the standard.
-/
theorem cbcEncrypt_standard (aes : Globals) (type : Int) (key iv output input : Bytes) (n : Nat) :
    ((mdsApiAesCbcEncryptBuffer (mdsApiAesInit aes type) output input (16 * n) (some key)
        (some iv)).2.output.blocks n 0).map state =
      chainEncrypt (· + ·) (standardEncrypt (AesType.ofInt type) key) (state (iv.block 0))
        ((input.blocks n 0).map state) := by
  have hsel := selected_init aes type
  have hnr : ((mdsApiAesInit aes type).prepare (some key) (some iv)).nr =
      (AesType.ofInt type).nr := hsel.nr_eq
  have hcipher : ∀ b, cipher ((mdsApiAesInit aes type).prepare (some key) (some iv)).nr
      ((mdsApiAesInit aes type).prepare (some key) (some iv)).roundKey b =
        (AesType.ofInt type).encrypt key b := by
    intro b
    rw [hnr]
    exact (hsel.schedule key).cipher b
  rw [cbcEncrypt_blocks]
  exact map_chainEncrypt state_xor (fun b => (congrArg state (hcipher b)).trans
    (state_encrypt (AesType.ofInt type) key b)) _ _

end MdsFormal.Crypto.Fips197
