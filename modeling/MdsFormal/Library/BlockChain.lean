/-!
# Chained encryption of blocks

Each block is combined with the ciphertext of the block before it and then encrypted.
The combination and the two block functions are parameters; what they have to satisfy
stands at the theorem that uses it.
-/

namespace MdsFormal.Library.BlockChain

universe u v

section

variable {Block : Type u} (combine : Block → Block → Block) (encrypt decrypt : Block → Block)

def chainEncrypt : Block → List Block → List Block
  | _, [] => []
  | iv, plain :: rest =>
      let cipher := encrypt (combine plain iv)
      cipher :: chainEncrypt cipher rest

def chainDecrypt : Block → List Block → List Block
  | _, [] => []
  | iv, cipher :: rest => combine (decrypt cipher) iv :: chainDecrypt cipher rest

variable {combine encrypt decrypt}

/-- Decryption restores the blocks when it undoes one block and the combination undoes itself. -/
theorem chainDecrypt_chainEncrypt (hdecrypt : ∀ b, decrypt (encrypt b) = b)
    (hcombine : ∀ b iv, combine (combine b iv) iv = b) (iv : Block) (plain : List Block) :
    chainDecrypt combine decrypt iv (chainEncrypt combine encrypt iv plain) = plain := by
  induction plain generalizing iv with
  | nil => rfl
  | cons head rest ih =>
      rw [chainEncrypt, chainDecrypt, hdecrypt, hcombine, ih]

/-- And the other way round, when encryption undoes the decryption of one block. -/
theorem chainEncrypt_chainDecrypt (hencrypt : ∀ b, encrypt (decrypt b) = b)
    (hcombine : ∀ b iv, combine (combine b iv) iv = b) (iv : Block) (cipher : List Block) :
    chainEncrypt combine encrypt iv (chainDecrypt combine decrypt iv cipher) = cipher := by
  induction cipher generalizing iv with
  | nil => rfl
  | cons head rest ih =>
      rw [chainDecrypt, chainEncrypt, hcombine, hencrypt, ih]

/-- A map that respects the combination and the encryption respects the chaining. -/
theorem map_chainEncrypt {Block' : Type v} {combine' : Block' → Block' → Block'}
    {encrypt' : Block' → Block'} {f : Block → Block'}
    (hcombine : ∀ b iv, f (combine b iv) = combine' (f b) (f iv))
    (hencrypt : ∀ b, f (encrypt b) = encrypt' (f b)) (iv : Block) (plain : List Block) :
    (chainEncrypt combine encrypt iv plain).map f =
      chainEncrypt combine' encrypt' (f iv) (plain.map f) := by
  induction plain generalizing iv with
  | nil => rfl
  | cons head rest ih =>
      rw [chainEncrypt, List.map_cons, List.map_cons, chainEncrypt, ih, hencrypt, hcombine]

/-! ## In parts -/

@[simp]
theorem length_chainDecrypt (iv : Block) (cipher : List Block) :
    (chainDecrypt combine decrypt iv cipher).length = cipher.length := by
  induction cipher generalizing iv with
  | nil => rfl
  | cons head rest ih => rw [chainDecrypt, List.length_cons, List.length_cons, ih]

/-- A second part goes on from the last block of the first one's ciphertext. -/
theorem chainEncrypt_append (iv : Block) (first second : List Block) :
    chainEncrypt combine encrypt iv (first ++ second) =
      chainEncrypt combine encrypt iv first ++
        chainEncrypt combine encrypt ((chainEncrypt combine encrypt iv first).getLastD iv)
          second := by
  induction first generalizing iv with
  | nil => rfl
  | cons head rest ih =>
      rw [List.cons_append, chainEncrypt, ih, chainEncrypt, List.cons_append, List.getLastD_cons]

theorem chainDecrypt_append (iv : Block) (first second : List Block) :
    chainDecrypt combine decrypt iv (first ++ second) =
      chainDecrypt combine decrypt iv first ++
        chainDecrypt combine decrypt (first.getLastD iv) second := by
  induction first generalizing iv with
  | nil => rfl
  | cons head rest ih =>
      rw [List.cons_append, chainDecrypt, ih, chainDecrypt, List.cons_append, List.getLastD_cons]

/-- Each block is decrypted with the one before it. -/
theorem getElem?_chainDecrypt (iv : Block) (cipher : List Block) (i : Nat) :
    (chainDecrypt combine decrypt iv cipher)[i]? =
      (cipher[i]?).bind fun block =>
        ((iv :: cipher)[i]?).map fun before => combine (decrypt block) before := by
  induction cipher generalizing iv i with
  | nil => rfl
  | cons head rest ih =>
      cases i with
      | zero => rfl
      | succ i =>
          rw [chainDecrypt, List.getElem?_cons_succ, List.getElem?_cons_succ,
            List.getElem?_cons_succ, ih]

/-- Each block is encrypted with what the one before it was encrypted to. -/
theorem getElem?_chainEncrypt (iv : Block) (plain : List Block) (i : Nat) :
    (chainEncrypt combine encrypt iv plain)[i]? =
      (plain[i]?).bind fun block =>
        ((iv :: chainEncrypt combine encrypt iv plain)[i]?).map fun before =>
          encrypt (combine block before) := by
  induction plain generalizing iv i with
  | nil => rfl
  | cons head rest ih =>
      cases i with
      | zero => rfl
      | succ i =>
          rw [chainEncrypt, List.getElem?_cons_succ, List.getElem?_cons_succ,
            List.getElem?_cons_succ, ih]

end

end MdsFormal.Library.BlockChain
