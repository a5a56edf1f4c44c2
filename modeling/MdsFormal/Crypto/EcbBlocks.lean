import MdsFormal.Crypto.CbcInverse

/-!
# ECB on more than one block

Both ECB functions copy the whole input and then transform the block at the front of the
output.  The blocks behind it are left as they were, and so is the round trip: what was
not encrypted is not decrypted either.
-/

namespace MdsFormal.Crypto.Aes

/-! ## What the cipher should be -/

/-- The schedule of a key under a type. -/
def AesType.schedule (aesType : AesType) (key : Bytes) : RoundKey :=
  keyExpansion aesType aesType.nk aesType.nr key RoundKey.zero

/-- The AES encryption of one block. -/
def AesType.encrypt (aesType : AesType) (key : Bytes) (b : Block) : Block :=
  cipher aesType.nr (aesType.schedule key) b

/-- Every block of the input is encrypted, and decryption restores the input.  The input has
`more + 1` blocks. -/
def EncryptsEveryBlock (aes : Globals) (type : Int) (key input cipherBuff plainBuff : Bytes)
    (more : Nat) : Prop :=
  let length := 16 * (more + 1)
  let enc := mdsApiAesEcbEncrypt (mdsApiAesInit aes type) input key cipherBuff length
  let dec := mdsApiAesEcbDecrypt enc.1 enc.2 key plainBuff length
  (∀ b < more + 1,
    enc.2.block (16 * b) = (AesType.ofInt type).encrypt key (input.block (16 * b))) ∧
    ∀ a < length, dec.2 a = input a

/-! ## The two functions -/

theorem Bytes.block_copy_front {dst src : Bytes} {off n : Nat} (hin : off + 16 ≤ n) :
    (dst.copy 0 src 0 n).block off = src.block off := by
  refine block_congr fun a _ hhigh => ?_
  rw [copy_inside (Nat.zero_le a) (by omega), Nat.sub_zero, Nat.zero_add]

section

variable {aes aes' : Globals} {aesType : AesType} {input key output : Bytes} {length b more : Nat}

/-- Under a selected type the schedule in use is the key's. -/
theorem Globals.Selected.schedule (hsel : aes.Selected aesType) (key : Bytes) :
    SameKeys aesType.nr (aes.setKey key).roundKey (aesType.schedule key) := by
  have hideal : Globals.Selected ⟨aesType, aesType.nk, aesType.nr, none, RoundKey.zero, default⟩
      aesType := ⟨rfl, rfl, rfl⟩
  exact hsel.sameKeys hideal key

theorem Globals.Selected.setKey (hsel : aes.Selected aesType) (key : Bytes) :
    (aes.setKey key).Selected aesType := ⟨hsel.type_eq, hsel.nk_eq, hsel.nr_eq⟩

theorem ecbEncrypt_first (hsel : aes.Selected aesType) (hlen : 16 ≤ length) :
    (mdsApiAesEcbEncrypt aes input key output length).2.block 0 =
      aesType.encrypt key (input.block 0) := by
  have hnr : (aes.setKey key).nr = aesType.nr := hsel.nr_eq
  simp only [mdsApiAesEcbEncrypt, Bytes.block_setBlock, hnr]
  rw [(hsel.schedule key).cipher, Bytes.block_copy_front hlen]
  rfl

theorem ecbEncrypt_later (hb : 0 < b) (hlen : 16 * b + 16 ≤ length) :
    (mdsApiAesEcbEncrypt aes input key output length).2.block (16 * b) = input.block (16 * b) := by
  simp only [mdsApiAesEcbEncrypt]
  rw [Bytes.block_setBlock_of_disjoint (by omega), Bytes.block_copy_front hlen]

theorem ecbDecrypt_first (hsel : aes.Selected aesType) (hlen : 16 ≤ length) :
    (mdsApiAesEcbDecrypt aes input key output length).2.block 0 =
      invCipher aesType.nr (aesType.schedule key) (input.block 0) := by
  have hnr : (aes.setKey key).nr = aesType.nr := hsel.nr_eq
  simp only [mdsApiAesEcbDecrypt, Bytes.block_setBlock, hnr]
  rw [(hsel.schedule key).invCipher, Bytes.block_copy_front hlen]

theorem ecbDecrypt_later (hb : 0 < b) (hlen : 16 * b + 16 ≤ length) :
    (mdsApiAesEcbDecrypt aes input key output length).2.block (16 * b) = input.block (16 * b) := by
  simp only [mdsApiAesEcbDecrypt]
  rw [Bytes.block_setBlock_of_disjoint (by omega), Bytes.block_copy_front hlen]

/-- Decryption restores the input: its first block was encrypted, the others were not. -/
theorem ecbDecrypt_ecbEncrypt (hsel : aes.Selected aesType) (hsel' : aes'.Selected aesType)
    {plainBuff : Bytes} {a : Nat} (ha : a < 16 * (more + 1)) :
    (mdsApiAesEcbDecrypt aes' (mdsApiAesEcbEncrypt aes input key output (16 * (more + 1))).2 key
      plainBuff (16 * (more + 1))).2 a = input a := by
  have hblock : ∀ b < more + 1,
      (mdsApiAesEcbDecrypt aes' (mdsApiAesEcbEncrypt aes input key output (16 * (more + 1))).2 key
        plainBuff (16 * (more + 1))).2.block (16 * b) = input.block (16 * b) := by
    intro b hb
    rcases Nat.eq_zero_or_pos b with rfl | hpos
    · rw [Nat.mul_zero, ecbDecrypt_first hsel' (by omega), ecbEncrypt_first hsel (by omega)]
      exact invCipher_cipher _ _ _
    · rw [ecbDecrypt_later hpos (by omega), ecbEncrypt_later hpos (by omega)]
  exact Bytes.eq_of_block_eq (hblock (a / 16) (by omega)) (by omega) (by omega)

end

/-! ## Every block -/

/-- Every block is encrypted exactly when each block after the first is its own encryption. -/
theorem encryptsEveryBlock_iff (aes : Globals) (type : Int)
    (key input cipherBuff plainBuff : Bytes) (more : Nat) :
    EncryptsEveryBlock aes type key input cipherBuff plainBuff more ↔
      ∀ b, 0 < b → b < more + 1 →
        (AesType.ofInt type).encrypt key (input.block (16 * b)) = input.block (16 * b) := by
  have hsel := selected_init aes type
  constructor
  · rintro ⟨hblocks, -⟩ b hpos hb
    rw [← hblocks b hb, ecbEncrypt_later hpos (by omega)]
  · intro hfixed
    refine ⟨fun b hb => ?_, fun a ha => ecbDecrypt_ecbEncrypt hsel (hsel.setKey key) ha⟩
    rcases Nat.eq_zero_or_pos b with rfl | hpos
    · exact ecbEncrypt_first hsel (by omega)
    · rw [ecbEncrypt_later hpos (by omega), hfixed b hpos hb]

/-- The key and the first two blocks of the test vectors in the source's header. -/
def headerKey : Bytes := fun i =>
  [0x2b, 0x7e, 0x15, 0x16, 0x28, 0xae, 0xd2, 0xa6, 0xab, 0xf7, 0x15, 0x88, 0x09, 0xcf, 0x4f,
    0x3c].getD i 0

def headerPlain : Bytes := fun i =>
  [0x6b, 0xc1, 0xbe, 0xe2, 0x2e, 0x40, 0x9f, 0x96, 0xe9, 0x3d, 0x7e, 0x11, 0x73, 0x93, 0x17, 0x2a,
    0xae, 0x2d, 0x8a, 0x57, 0x1e, 0x03, 0xac, 0x9c, 0x9e, 0xb7, 0x6f, 0xac, 0x45, 0xaf, 0x8e,
    0x51].getD i 0

/-- The second block of the test vectors is left in plain text. -/
theorem encryptsEveryBlock_header :
    ¬ EncryptsEveryBlock Globals.boot 0 headerKey headerPlain (fun _ => 0) (fun _ => 0) 1 := by
  rintro ⟨hblocks, -⟩
  have hplain := (hblocks 1 (by decide)).symm.trans (ecbEncrypt_later (by decide) (by decide))
  have hcipher : AesType.aes128.encrypt headerKey (headerPlain.block 16) =
      ⟨⟨0xf5, 0xd3, 0xd5, 0x85⟩, ⟨0x03, 0xb9, 0x69, 0x9d⟩, ⟨0xe7, 0x85, 0x89, 0x5a⟩,
        ⟨0x96, 0xfd, 0xba, 0xaf⟩⟩ := by
    decide +kernel
  exact absurd (hcipher.symm.trans hplain) (by decide)

end MdsFormal.Crypto.Aes
