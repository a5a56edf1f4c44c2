import Mathlib.Data.Finite.Prod
import Mathlib.Data.Fintype.EquivFin
import MdsFormal.Crypto.DecryptBounds

/-!
# What a changed block changes

`Cipher` permutes the blocks, so that encryption also undoes decryption.  A changed block
of ciphertext garbles its own block of the text and flips its bits in the next one; a
changed block of text changes the ciphertext from there to its end.
-/

namespace MdsFormal.Crypto.Aes

open Library.BlockChain

/-! ## A permutation -/

instance finite_uInt8 : Finite UInt8 :=
  Finite.of_injective UInt8.toFin fun _ _ => UInt8.toFin_inj.mp

instance finite_word : Finite Word := by
  refine Finite.of_injective (fun w : Word => (w.b0, w.b1, w.b2, w.b3)) ?_
  rintro ⟨a, b, c, d⟩ ⟨a', b', c', d'⟩ heq
  cases heq
  rfl

instance finite_block : Finite Block := by
  refine Finite.of_injective (fun b : Block => (b.c0, b.c1, b.c2, b.c3)) ?_
  rintro ⟨a, b, c, d⟩ ⟨a', b', c', d'⟩ heq
  cases heq
  rfl

section

variable {nr : Nat} {roundKey : RoundKey}

theorem cipher_invCipher (b : Block) : cipher nr roundKey (invCipher nr roundKey b) = b := by
  have hinverse : Function.LeftInverse (invCipher nr roundKey) (cipher nr roundKey) :=
    invCipher_cipher nr roundKey
  obtain ⟨plain, rfl⟩ := Finite.surjective_of_injective hinverse.injective b
  rw [invCipher_cipher]

theorem cipher_inj {b b' : Block} : cipher nr roundKey b = cipher nr roundKey b' ↔ b = b' := by
  constructor
  · intro heq
    rw [← invCipher_cipher nr roundKey b, heq, invCipher_cipher]
  · rintro rfl
    rfl

theorem invCipher_inj {b b' : Block} :
    invCipher nr roundKey b = invCipher nr roundKey b' ↔ b = b' := by
  constructor
  · intro heq
    rw [← @cipher_invCipher nr roundKey b, heq, cipher_invCipher]
  · rintro rfl
    rfl

end

/-! ## One block of a call -/

section

variable {aes : Globals} {output input bytes : Bytes} {key iv : Option Bytes} {n j off : Nat}

theorem blocks_getElem? (hj : j < n) :
    (bytes.blocks n off)[j]? = some (bytes.block (off + 16 * j)) := by
  induction n generalizing j off with
  | zero => exact absurd hj (Nat.not_lt_zero j)
  | succ n ih =>
      cases j with
      | zero => rfl
      | succ j =>
          have hoff : off + 16 + 16 * j = off + 16 * (j + 1) := by omega
          rw [Bytes.blocks, List.getElem?_cons_succ, ih (Nat.lt_of_succ_lt_succ hj), hoff]

theorem blockBefore_getElem? {b : Block} (hj : j < n) :
    (b :: bytes.blocks n 0)[j]? = some (blockBefore b bytes j) := by
  cases j with
  | zero => rfl
  | succ j =>
      rw [List.getElem?_cons_succ, blocks_getElem? (Nat.lt_of_succ_lt hj), Nat.zero_add]
      rfl

theorem cbcEncrypt_block (hj : j < n) :
    (mdsApiAesCbcEncryptBuffer aes output input (16 * n) key iv).2.output.block (16 * j) =
      cipher (aes.prepare key iv).nr (aes.prepare key iv).roundKey
        (input.block (16 * j) ^^^ blockBefore (aes.prepare key iv).iv
          (mdsApiAesCbcEncryptBuffer aes output input (16 * n) key iv).2.output j) := by
  have hget := congrArg (·[j]?) (@cbcEncrypt_blocks aes output input key iv n)
  rw [getElem?_chainEncrypt, ← cbcEncrypt_blocks, blocks_getElem? hj, blocks_getElem? hj,
    blockBefore_getElem? hj, Nat.zero_add] at hget
  exact Option.some_inj.mp hget

theorem cbcDecrypt_block (hj : j < n) :
    (mdsApiAesCbcDecryptBuffer aes output input (16 * n) key iv).2.output.block (16 * j) =
      invCipher (aes.prepare key iv).nr (aes.prepare key iv).roundKey (input.block (16 * j)) ^^^
        blockBefore (aes.prepare key iv).iv input j := by
  have hget := congrArg (·[j]?) (@cbcDecrypt_blocks aes output input key iv n)
  rw [getElem?_chainDecrypt, blocks_getElem? hj, blocks_getElem? hj, blockBefore_getElem? hj,
    Nat.zero_add] at hget
  exact Option.some_inj.mp hget

end

/-! ## A changed block -/

/-- Both buffers have the same blocks but for the one with index `i`. -/
def SameBut (input input' : Bytes) (n i : Nat) : Prop :=
  ∀ j < n, j ≠ i → input'.block (16 * j) = input.block (16 * j)

section

variable {input input' : Bytes} {n i j : Nat} {b : Block}

/-- Before a block the two are the same unless the changed one is there. -/
theorem SameBut.blockBefore (hsame : SameBut input input' n i) (hj : j < n) (hne : j ≠ i + 1) :
    blockBefore b input' j = Aes.blockBefore b input j := by
  cases j with
  | zero => rfl
  | succ j => exact hsame j (Nat.lt_of_succ_lt hj) fun heq => hne (congrArg Nat.succ heq)

end

/--
A change in one block of the ciphertext changes the same block of the text, flips the same
bits in the next one, and changes nothing else.
-/
theorem cbcDecrypt_changedBlock (aes : Globals) (output output' input input' : Bytes)
    (key iv : Option Bytes) (n i : Nat) (hi : i < n) (hsame : SameBut input input' n i) :
    let plain := (mdsApiAesCbcDecryptBuffer aes output input (16 * n) key iv).2.output
    let plain' := (mdsApiAesCbcDecryptBuffer aes output' input' (16 * n) key iv).2.output
    (plain'.block (16 * i) = plain.block (16 * i) ↔ input'.block (16 * i) = input.block (16 * i)) ∧
      (i + 1 < n → plain'.block (16 * (i + 1)) =
        plain.block (16 * (i + 1)) ^^^ (input.block (16 * i) ^^^ input'.block (16 * i))) ∧
      ∀ j < n, j ≠ i → j ≠ i + 1 → plain'.block (16 * j) = plain.block (16 * j) := by
  intro plain plain'
  refine ⟨?_, fun hnext => ?_, fun j hj hne hnext => ?_⟩
  · rw [cbcDecrypt_block hi, cbcDecrypt_block hi, hsame.blockBefore hi (Nat.succ_ne_self i).symm]
    constructor
    · intro heq
      exact invCipher_inj.mp (Block.xor_right_cancel heq)
    · intro heq
      rw [heq]
  · rw [cbcDecrypt_block hnext, cbcDecrypt_block hnext, hsame (i + 1) hnext (Nat.succ_ne_self i)]
    change _ ^^^ input'.block (16 * i) = _ ^^^ input.block (16 * i) ^^^ _
    rw [← Block.xor_assoc, Block.xor_xor_cancel]
  · rw [cbcDecrypt_block hj, cbcDecrypt_block hj, hsame j hj hne, hsame.blockBefore hj hnext]

/-- Two blocks with one bit set, in the first one. -/
def oneBit : Bytes := fun a => if a = 0 then 1 else 0

theorem sameBut_oneBit : SameBut (fun _ => 0) oneBit 2 0 := by
  intro j hj hne
  obtain rfl : j = 1 := by omega
  decide

theorem cbcDecrypt_changedBlock_first :
    let plain := (mdsApiAesCbcDecryptBuffer Globals.boot (fun _ => 0) (fun _ => 0) (16 * 2)
      none none).2.output
    let plain' := (mdsApiAesCbcDecryptBuffer Globals.boot (fun _ => 0) oneBit (16 * 2)
      none none).2.output
    plain'.block 0 ≠ plain.block 0 ∧
      plain'.block 16 = plain.block 16 ^^^ ⟨⟨1, 0, 0, 0⟩, default, default, default⟩ := by
  obtain ⟨hown, hnext, -⟩ := cbcDecrypt_changedBlock Globals.boot (fun _ => 0) (fun _ => 0)
    (fun _ => 0) oneBit none none 2 0 (by decide) sameBut_oneBit
  exact ⟨fun heq => absurd (hown.mp heq) (by decide), hnext (by decide)⟩

/--
A change in one block of the text leaves the ciphertext before it, and changes each block
from there on.
-/
theorem cbcEncrypt_changedBlock (aes : Globals) (output output' input input' : Bytes)
    (key iv : Option Bytes) (n i : Nat) (hi : i < n) (hsame : SameBut input input' n i) :
    let cipher := (mdsApiAesCbcEncryptBuffer aes output input (16 * n) key iv).2.output
    let cipher' := (mdsApiAesCbcEncryptBuffer aes output' input' (16 * n) key iv).2.output
    (∀ j < i, cipher'.block (16 * j) = cipher.block (16 * j)) ∧
      ∀ j, i ≤ j → j < n → (cipher'.block (16 * j) = cipher.block (16 * j) ↔
        input'.block (16 * i) = input.block (16 * i)) := by
  intro cipher cipher'
  have hblock : ∀ j < n, cipher.block (16 * j) = Aes.cipher (aes.prepare key iv).nr
      (aes.prepare key iv).roundKey
        (input.block (16 * j) ^^^ blockBefore (aes.prepare key iv).iv cipher j) :=
    fun j hj => cbcEncrypt_block hj
  have hblock' : ∀ j < n, cipher'.block (16 * j) = Aes.cipher (aes.prepare key iv).nr
      (aes.prepare key iv).roundKey
        (input'.block (16 * j) ^^^ blockBefore (aes.prepare key iv).iv cipher' j) :=
    fun j hj => cbcEncrypt_block hj
  have hbefore : ∀ j ≤ i, blockBefore (aes.prepare key iv).iv cipher' j =
      blockBefore (aes.prepare key iv).iv cipher j := by
    intro j hj
    induction j with
    | zero => rfl
    | succ j ih =>
        have hin : j < n := by omega
        change cipher'.block (16 * j) = cipher.block (16 * j)
        rw [hblock j hin, hblock' j hin, hsame j hin (Nat.ne_of_lt hj), ih (Nat.le_of_succ_le hj)]
  refine ⟨fun j hj => hbefore (j + 1) hj, fun j hle => ?_⟩
  induction j, hle using Nat.le_induction with
  | base =>
      intro _
      rw [hblock i hi, hblock' i hi, cipher_inj, hbefore i (Nat.le_refl i)]
      constructor
      · intro heq
        exact Block.xor_right_cancel heq
      · intro heq
        rw [heq]
  | succ j hle ih =>
      intro hj
      rw [← ih (Nat.lt_of_succ_lt hj), hblock (j + 1) hj, hblock' (j + 1) hj, cipher_inj,
        hsame (j + 1) hj (by omega)]
      change _ ^^^ cipher'.block (16 * j) = _ ^^^ cipher.block (16 * j) ↔ _
      constructor
      · intro heq
        exact Block.xor_left_cancel heq
      · intro heq
        rw [heq]

theorem cbcEncrypt_changedBlock_first :
    let cipher := (mdsApiAesCbcEncryptBuffer Globals.boot (fun _ => 0) (fun _ => 0) (16 * 2)
      none none).2.output
    let cipher' := (mdsApiAesCbcEncryptBuffer Globals.boot (fun _ => 0) oneBit (16 * 2)
      none none).2.output
    cipher'.block 0 ≠ cipher.block 0 ∧ cipher'.block 16 ≠ cipher.block 16 := by
  obtain ⟨-, hlater⟩ := cbcEncrypt_changedBlock Globals.boot (fun _ => 0) (fun _ => 0)
    (fun _ => 0) oneBit none none 2 0 (by decide) sameBut_oneBit
  have hchanged : oneBit.block (16 * 0) ≠ Bytes.block (fun _ => 0) (16 * 0) := by decide
  exact ⟨fun heq => hchanged ((hlater 0 (by decide) (by decide)).mp heq),
    fun heq => hchanged ((hlater 1 (by decide) (by decide)).mp heq)⟩

/-! ## The other way round -/

/-- For every AES type, key, iv and data of whole blocks, what is decrypted in one call and
encrypted in the next with the same key and iv is the data. -/
theorem cbcEncrypt_cbcDecrypt (aes : Globals) (type : Int)
    (key iv data plainBuff cipherBuff : Bytes) (n : Nat) :
    let dec := mdsApiAesCbcDecryptBuffer (mdsApiAesInit aes type) plainBuff data (16 * n)
      (some key) (some iv)
    let enc := mdsApiAesCbcEncryptBuffer dec.1 cipherBuff dec.2.output (16 * n) (some key) (some iv)
    ∀ a < 16 * n, enc.2.output a = data a := by
  intro dec enc a ha
  have hsel := selected_init aes type
  have hsel' : dec.1.Selected (AesType.ofInt type) := hsel.cbcBuffer
  have hnr : ((mdsApiAesInit aes type).prepare (some key) (some iv)).nr =
      (AesType.ofInt type).nr := hsel.nr_eq
  have hnr' : (dec.1.prepare (some key) (some iv)).nr = (AesType.ofInt type).nr := hsel'.nr_eq
  have hblocks : enc.2.output.blocks n 0 = data.blocks n 0 := by
    rw [cbcEncrypt_blocks, cbcDecrypt_blocks, hnr, hnr']
    refine chainEncrypt_chainDecrypt (fun b => ?_) Block.xor_xor_cancel _ _
    exact ((hsel'.sameKeys hsel key).cipher _).trans (cipher_invCipher b)
  exact Bytes.eq_of_blocks_eq hblocks (Nat.zero_le a) (by omega)

end MdsFormal.Crypto.Aes
