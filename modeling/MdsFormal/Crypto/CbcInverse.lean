import MdsFormal.Crypto.AesInverse
import MdsFormal.Crypto.AesModes
import MdsFormal.Library.BlockChain

/-!
# CBC decryption inverts CBC encryption

The two loops work on one block of their buffers at a time, so that what they leave in
`output` is the chained encryption of the blocks that were in `input`, or the chained
decryption.  These undo each other because `InvCipher` undoes `Cipher`.
-/

namespace MdsFormal.Crypto.Aes

open Library.BlockChain

/-! ## Buffers by blocks -/

/-- The `count` blocks from `off` on. -/
def Bytes.blocks (bytes : Bytes) : Nat → Nat → List Block
  | 0, _ => []
  | count + 1, off => bytes.block off :: bytes.blocks count (off + 16)

namespace Bytes

section

variable {bytes bytes' : Bytes} {off count a : Nat}

theorem blocks_congr (hsame : ∀ a, off ≤ a → a < off + 16 * count → bytes a = bytes' a) :
    bytes.blocks count off = bytes'.blocks count off := by
  induction count generalizing off with
  | zero => rfl
  | succ count ih =>
      have hhead : bytes.block off = bytes'.block off :=
        block_congr fun a hlow hhigh => hsame a hlow (by omega)
      have htail : bytes.blocks count (off + 16) = bytes'.blocks count (off + 16) :=
        ih fun a hlow hhigh => hsame a (by omega) (by omega)
      rw [blocks, blocks, hhead, htail]

theorem eq_of_blocks_eq (hblocks : bytes.blocks count off = bytes'.blocks count off)
    (hlow : off ≤ a) (hhigh : a < off + 16 * count) : bytes a = bytes' a := by
  induction count generalizing off with
  | zero => omega
  | succ count ih =>
      obtain ⟨hhead, htail⟩ := List.cons.inj hblocks
      rcases Nat.lt_or_ge a (off + 16) with hfirst | hlater
      · exact eq_of_block_eq hhead hlow hfirst
      · exact ih htail hlater (by omega)

end

end Bytes

/-! ## The loop -/

/-- A pass changes nothing but the sixteen bytes at its offset, in either buffer. -/
structure Local (pass : Chain → Nat → Chain) : Prop where
  output : ∀ chain off a, a < off ∨ off + 16 ≤ a → (pass chain off).output a = chain.output a
  input : ∀ chain off a, a < off ∨ off + 16 ≤ a → (pass chain off).input a = chain.input a

section

variable {pass : Chain → Nat → Chain} {chain : Chain} {off count a n nr : Nat}
  {roundKey : RoundKey} {transform : Block → Block}

theorem passes_succ :
    passes pass (count + 1) off chain = passes pass count (off + 16) (pass chain off) := rfl

theorem Local.passes_output (hlocal : Local pass) (hout : a < off ∨ off + 16 * count ≤ a) :
    (passes pass count off chain).output a = chain.output a := by
  induction count generalizing off chain with
  | zero => rfl
  | succ count ih =>
      rw [passes_succ, ih (by omega)]
      exact hlocal.output chain off a (by omega)

/-- The blocks behind a pass are still what they were. -/
theorem Local.input_blocks (hlocal : Local pass) :
    (pass chain off).input.blocks count (off + 16) = chain.input.blocks count (off + 16) :=
  Bytes.blocks_congr fun a hlow _ => hlocal.input chain off a (Or.inr hlow)

/-- The block a pass has written is still there at the end. -/
theorem Local.output_block (hlocal : Local pass) :
    (passes pass count (off + 16) chain).output.block off = chain.output.block off :=
  Bytes.block_congr fun _ _ hhigh => hlocal.passes_output (Or.inl hhigh)

theorem copyThen_outside (hout : a < off ∨ off + 16 ≤ a) (hn : n ≤ 16) :
    copyThen transform chain off n a = chain.output a := by
  unfold copyThen
  rw [Bytes.setBlock_outside hout, Bytes.copy_outside (by omega)]

theorem block_copyThen :
    (copyThen transform chain off blocklen).block off = transform (chain.input.block off) := by
  simp [copyThen, blocklen]

theorem local_encryptPass : Local (encryptPass nr roundKey) where
  output _ _ _ hout := copyThen_outside hout (Nat.le_refl 16)
  input _ _ _ hout := Bytes.setBlock_outside hout

theorem local_decryptPass : Local (decryptPass nr roundKey) where
  output _ _ _ hout :=
    (Bytes.setBlock_outside hout).trans (copyThen_outside hout (Nat.le_refl 16))
  input _ _ _ _ := rfl

theorem encryptPass_iv :
    (encryptPass nr roundKey chain off).iv =
      cipher nr roundKey (chain.input.block off ^^^ chain.iv) := by
  simp [encryptPass, block_copyThen]

theorem decryptPass_block :
    (decryptPass nr roundKey chain off).output.block off =
      invCipher nr roundKey (chain.input.block off) ^^^ chain.iv := by
  simp [decryptPass, block_copyThen]

/-- The encryption loop leaves the chained encryption of its input. -/
theorem passes_encryptPass :
    (passes (encryptPass nr roundKey) count off chain).output.blocks count off =
      chainEncrypt (· ^^^ ·) (cipher nr roundKey) chain.iv (chain.input.blocks count off) := by
  induction count generalizing off chain with
  | zero => rfl
  | succ count ih =>
      have hblock : (encryptPass nr roundKey chain off).output.block off =
          cipher nr roundKey (chain.input.block off ^^^ chain.iv) := encryptPass_iv
      rw [passes_succ, Bytes.blocks, local_encryptPass.output_block, ih,
        local_encryptPass.input_blocks, encryptPass_iv, hblock]
      rfl

/-- The decryption loop leaves the chained decryption of its input. -/
theorem passes_decryptPass :
    (passes (decryptPass nr roundKey) count off chain).output.blocks count off =
      chainDecrypt (· ^^^ ·) (invCipher nr roundKey) chain.iv (chain.input.blocks count off) := by
  induction count generalizing off chain with
  | zero => rfl
  | succ count ih =>
      have hiv : (decryptPass nr roundKey chain off).iv = chain.input.block off := rfl
      rw [passes_succ, Bytes.blocks, local_decryptPass.output_block, ih,
        local_decryptPass.input_blocks, decryptPass_block, hiv]
      rfl

end

/-! ## Whole buffers -/

section

variable {aes : Globals} {output input : Bytes} {key iv : Option Bytes} {n : Nat}

theorem cbcBuffer_whole {pass : Globals → Chain → Nat → Chain}
    {transform : Globals → Block → Block} :
    (cbcBuffer pass transform aes output input (16 * n) key iv).2 =
      passes (pass (aes.prepare key iv)) n 0 ⟨output, input, (aes.prepare key iv).iv⟩ := by
  have hextra : 16 * n % blocklen = 0 := Nat.mul_mod_right 16 n
  have hcount : passCount (16 * n) = n := by
    unfold passCount blocklen
    omega
  simp only [cbcBuffer, hextra, hcount]
  rfl

theorem cbcEncrypt_blocks :
    (mdsApiAesCbcEncryptBuffer aes output input (16 * n) key iv).2.output.blocks n 0 =
      chainEncrypt (· ^^^ ·) (cipher (aes.prepare key iv).nr (aes.prepare key iv).roundKey)
        (aes.prepare key iv).iv (input.blocks n 0) := by
  unfold mdsApiAesCbcEncryptBuffer
  rw [cbcBuffer_whole]
  exact passes_encryptPass

theorem cbcDecrypt_blocks :
    (mdsApiAesCbcDecryptBuffer aes output input (16 * n) key iv).2.output.blocks n 0 =
      chainDecrypt (· ^^^ ·) (invCipher (aes.prepare key iv).nr (aes.prepare key iv).roundKey)
        (aes.prepare key iv).iv (input.blocks n 0) := by
  unfold mdsApiAesCbcDecryptBuffer
  rw [cbcBuffer_whole]
  exact passes_decryptPass

end

/-! ## The key sizes -/

/-- The globals are those of one AES type. -/
structure Globals.Selected (aes : Globals) (aesType : AesType) : Prop where
  type_eq : aes.aesType = aesType
  nk_eq : aes.nk = aesType.nk
  nr_eq : aes.nr = aesType.nr

section

variable {aes aes' : Globals} {aesType : AesType}

theorem selected_init (aes : Globals) (type : Int) :
    (mdsApiAesInit aes type).Selected (AesType.ofInt type) := ⟨rfl, rfl, rfl⟩

/-- A call leaves the type as it is. -/
theorem Globals.Selected.cbcBuffer {pass : Globals → Chain → Nat → Chain}
    {transform : Globals → Block → Block} {output input : Bytes} {length : Nat}
    {key iv : Option Bytes} (hsel : aes.Selected aesType) :
    (Aes.cbcBuffer pass transform aes output input length key iv).1.Selected aesType := by
  have hprepare : (aes.prepare key iv).Selected aesType := by
    cases key <;> cases iv <;> exact ⟨hsel.type_eq, hsel.nk_eq, hsel.nr_eq⟩
  exact ⟨hprepare.type_eq, hprepare.nk_eq, hprepare.nr_eq⟩

/-- Under one type and one key two schedules agree on the round keys that are used. -/
theorem Globals.Selected.sameKeys (hsel : aes.Selected aesType) (hsel' : aes'.Selected aesType)
    (key : Bytes) : SameKeys aesType.nr (aes.setKey key).roundKey (aes'.setKey key).roundKey := by
  have hsizes : 0 < aesType.nk ∧ aesType.nk ≤ 4 * (aesType.nr + 1) ∧ 4 * (aesType.nr + 1) ≤ 60 := by
    cases aesType <;> decide
  unfold Globals.setKey
  rw [hsel.type_eq, hsel.nk_eq, hsel.nr_eq, hsel'.type_eq, hsel'.nk_eq, hsel'.nr_eq]
  exact sameKeys_keyExpansion hsizes.1 hsizes.2.1 hsizes.2.2

theorem cbcDecrypt_cbcEncrypt_blocks (hsel : aes.Selected aesType)
    (hsel' : aes'.Selected aesType) (output output' input key iv : Bytes) (n : Nat) :
    (mdsApiAesCbcDecryptBuffer aes' output'
        (mdsApiAesCbcEncryptBuffer aes output input (16 * n) (some key) (some iv)).2.output
        (16 * n) (some key) (some iv)).2.output.blocks n 0 = input.blocks n 0 := by
  have hnr : (aes.prepare (some key) (some iv)).nr = aesType.nr := hsel.nr_eq
  have hnr' : (aes'.prepare (some key) (some iv)).nr = aesType.nr := hsel'.nr_eq
  rw [cbcDecrypt_blocks, cbcEncrypt_blocks, hnr, hnr']
  refine chainDecrypt_chainEncrypt (fun b => ?_) Block.xor_xor_cancel _ _
  exact (congrArg _ ((hsel.sameKeys hsel' key).cipher b)).trans (invCipher_cipher _ _ b)

end

/-- For every AES type, key, iv and data of whole blocks, what is encrypted in one call and
decrypted in the next with the same key and iv is the data. -/
theorem cbcDecrypt_cbcEncrypt (aes : Globals) (type : Int)
    (key iv data cipherBuff plainBuff : Bytes) (n : Nat) :
    let enc := mdsApiAesCbcEncryptBuffer (mdsApiAesInit aes type) cipherBuff data (16 * n)
      (some key) (some iv)
    let dec := mdsApiAesCbcDecryptBuffer enc.1 plainBuff enc.2.output (16 * n) (some key) (some iv)
    ∀ a < 16 * n, dec.2.output a = data a := by
  intro enc dec a ha
  have hsel := selected_init aes type
  have hsel' : enc.1.Selected (AesType.ofInt type) := hsel.cbcBuffer
  have hblocks := cbcDecrypt_cbcEncrypt_blocks hsel hsel' cipherBuff plainBuff data key iv n
  exact Bytes.eq_of_blocks_eq hblocks (Nat.zero_le a) (by omega)

end MdsFormal.Crypto.Aes
