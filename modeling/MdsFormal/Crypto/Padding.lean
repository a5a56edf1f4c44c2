import MdsFormal.Crypto.CbcInverse

/-!
# Padding and unpadding

`mds_api_AES_CBC_encrypt_buffer2` fills the last block with `init_data`, held as an
`unsigned char`; `mds_api_AES_CBC_decrypt_buffer2` compares the bytes of the output with
it as a plain `char`.  Where plain `char` is signed a pad from 0x80 on is negative and
equals no byte, so that no padding is taken off.
-/

namespace MdsFormal.Crypto.Aes

/-! ## The length that is encrypted -/

section

variable {n a size : Nat} {input output : Bytes} {initData : UInt8}

/-- The length is the next multiple of the block length. -/
theorem getSize_eq (n : Nat) : mdsApiAesInputBuffGetSize n = 16 * ((n + 15) / 16) := by
  unfold mdsApiAesInputBuffGetSize blocklen
  dsimp only
  split <;> omega

/-- The buffer that is encrypted: the text, and the pad behind it. -/
theorem inputBuffInit_text (ha : a < n) :
    (mdsApiAesInputBuffInit output size input n initData).2 a = input a := by
  refine (Bytes.copy_inside (Nat.zero_le a) (by omega)).trans ?_
  rw [Nat.sub_zero, Nat.zero_add]

theorem inputBuffInit_pad (hlow : n ≤ a) (hhigh : a < size) :
    (mdsApiAesInputBuffInit output size input n initData).2 a = initData :=
  (Bytes.copy_outside (by omega)).trans (if_pos hhigh)

/-! ## What is stripped -/

/-- The loop stops behind the last byte that is not the pad. -/
theorem stripLoop_eq {pad : Int} {left : Nat} (hle : n ≤ left)
    (hpad : ∀ a, n ≤ a → a < left → ((output a).toNat : Int) = pad)
    (hlast : ∀ m, n = m + 1 → ((output m).toNat : Int) ≠ pad) :
    stripLoop output pad left = left - n := by
  induction left with
  | zero => exact (Nat.zero_sub n).symm
  | succ left ih =>
      rcases Nat.lt_or_eq_of_le hle with hlt | heq
      · have hmore : stripLoop output pad left = left - n :=
          ih (Nat.le_of_lt_succ hlt) fun a hlow hhigh => hpad a hlow (Nat.lt_succ_of_lt hhigh)
        have hlast : ((output left).toNat : Int) = pad :=
          hpad left (Nat.le_of_lt_succ hlt) (Nat.lt_succ_self left)
        rw [stripLoop, if_neg (not_not.mpr hlast), hmore]
        omega
      · rw [stripLoop, if_pos (hlast left heq)]
        omega

/-- A byte equals the pad as a `char` only where the `char` is not negative. -/
theorem charValue_eq_iff (charSigned : Bool) (bits : UInt8) :
    charValue charSigned bits = bits.toNat ↔ charSigned = false ∨ bits.toNat < 128 := by
  unfold charValue
  cases charSigned with
  | false => simp
  | true =>
      rcases Nat.lt_or_ge bits.toNat 128 with hlow | hhigh
      · simp [hlow, Nat.not_le.mpr hlow]
      · simp only [hhigh, and_self, if_true, Bool.true_eq_false, false_or, Nat.not_lt.mpr hhigh,
          iff_false]
        omega

theorem charValue_neg {bits : UInt8} (hhigh : 128 ≤ bits.toNat) : charValue true bits < 0 := by
  have hbyte := bits.toNat_lt
  unfold charValue
  rw [if_pos ⟨rfl, hhigh⟩]
  omega

end

/-! ## There and back -/

/-- Text of `n` bytes is encrypted and decrypted again; the result is its length, and the text
stands at the front of the output. -/
def Restores (charSigned : Bool) (aes : Globals) (type : Int) (key iv : Bytes) (initData : UInt8)
    (text : Bytes) (n : Nat) (cipherBuff plainBuff : Bytes) : Prop :=
  let enc := mdsApiAesCbcEncryptBuffer2 (mdsApiAesInit aes type) cipherBuff text n (some key)
    (some iv) initData
  let dec := mdsApiAesCbcDecryptBuffer2 charSigned enc.2.1 plainBuff enc.2.2 enc.1.toNat (some key)
    (some iv) initData
  dec.1 = n ∧ ∀ a < n, dec.2.2 a = text a

/-- What `mds_api_AES_CBC_encrypt_buffer2` encrypts. -/
def padded (text : Bytes) (n : Nat) (initData : UInt8) : Bytes :=
  (mdsApiAesInputBuffInit (fun _ => 0) encryptApi2MaxSupportBuffSize text n initData).2

section

variable {aes : Globals} {cipherBuff plainBuff key iv text : Bytes} {type : Int} {n a : Nat}
  {initData : UInt8} {charSigned : Bool}

theorem encryptBuffer2_eq {key iv : Option Bytes} (hn : n ≤ 1008) :
    mdsApiAesCbcEncryptBuffer2 aes cipherBuff text n key iv initData =
      let enc := mdsApiAesCbcEncryptBuffer aes cipherBuff (padded text n initData)
        (16 * ((n + 15) / 16)) key iv
      (((16 * ((n + 15) / 16) : Nat) : Int), enc.1, enc.2.output) := by
  have hfits : ¬ n > encryptApi2MaxSupportBuffSize - blocklen := Nat.not_lt.mpr hn
  unfold mdsApiAesCbcEncryptBuffer2
  rw [if_neg hfits]
  simp only [mdsApiAesInputBuffInit, getSize_eq, padded]

/-- What both calls together leave in the output, before the pad is stripped. -/
def decrypted (aes : Globals) (type : Int) (key iv : Bytes) (initData : UInt8) (text : Bytes)
    (n : Nat) (cipherBuff plainBuff : Bytes) : Bytes :=
  let length := 16 * ((n + 15) / 16)
  let enc := mdsApiAesCbcEncryptBuffer (mdsApiAesInit aes type) cipherBuff
    (padded text n initData) length (some key) (some iv)
  (mdsApiAesCbcDecryptBuffer enc.1 plainBuff enc.2.output length (some key) (some iv)).2.output

theorem decrypted_eq (ha : a < 16 * ((n + 15) / 16)) :
    decrypted aes type key iv initData text n cipherBuff plainBuff a =
      padded text n initData a := by
  have hsel := selected_init aes type
  have hblocks : (decrypted aes type key iv initData text n cipherBuff plainBuff).blocks
      ((n + 15) / 16) 0 = (padded text n initData).blocks ((n + 15) / 16) 0 :=
    cbcDecrypt_cbcEncrypt_blocks hsel hsel.cbcBuffer _ _ _ _ _ _
  exact Bytes.eq_of_blocks_eq hblocks (Nat.zero_le a) (by omega)

theorem decrypted_text (ha : a < n) :
    decrypted aes type key iv initData text n cipherBuff plainBuff a = text a := by
  rw [decrypted_eq (by omega)]
  exact inputBuffInit_text ha

theorem decrypted_pad (hn : n ≤ 1008) (hlow : n ≤ a) (hhigh : a < 16 * ((n + 15) / 16)) :
    decrypted aes type key iv initData text n cipherBuff plainBuff a = initData := by
  have hin : a < 1024 := by omega
  rw [decrypted_eq hhigh]
  exact inputBuffInit_pad hlow hin

/-- The two calls restore the text exactly when the loop strips the pad and no more. -/
theorem restores_iff_strip (hn : n ≤ 1008) :
    Restores charSigned aes type key iv initData text n cipherBuff plainBuff ↔
      stripLoop (decrypted aes type key iv initData text n cipherBuff plainBuff)
        (charValue charSigned initData) (16 * ((n + 15) / 16)) = 16 * ((n + 15) / 16) - n := by
  have hcalls : Restores charSigned aes type key iv initData text n cipherBuff plainBuff ↔
      let output := decrypted aes type key iv initData text n cipherBuff plainBuff
      let i := stripLoop output (charValue charSigned initData) (16 * ((n + 15) / 16))
      ((16 * ((n + 15) / 16) : Nat) : Int) - (i : Nat) = n ∧
        ∀ a < n, Function.update output (16 * ((n + 15) / 16) - i + 1) 0 a = text a := by
    unfold Restores
    rw [encryptBuffer2_eq hn]
    exact Iff.rfl
  have hfits : n ≤ 16 * ((n + 15) / 16) := by omega
  rw [hcalls]
  constructor
  · rintro ⟨hlen, -⟩
    omega
  · intro hstrip
    refine ⟨by omega, fun a ha => ?_⟩
    rw [Function.update_of_ne (by omega)]
    exact decrypted_text ha

/-- A pad that is not negative is taken off again. -/
theorem restores_of_matching (hn : n ≤ 1008) (hlast : n = 0 ∨ text (n - 1) ≠ initData)
    (hchar : charSigned = false ∨ initData.toNat < 128) :
    Restores charSigned aes type key iv initData text n cipherBuff plainBuff := by
  rw [restores_iff_strip hn, (charValue_eq_iff charSigned initData).mpr hchar]
  refine stripLoop_eq (by omega) (fun a hlow hhigh => ?_) fun m hm heq => ?_
  · rw [decrypted_pad hn hlow hhigh]
  · subst hm
    rw [decrypted_text (Nat.lt_succ_self m)] at heq
    rcases hlast with hzero | hlast
    · exact Nat.succ_ne_zero m hzero
    · exact hlast (UInt8.toNat_inj.mp (Int.ofNat_inj.mp heq))

/-- A negative pad is not taken off, which is right only where there is none. -/
theorem restores_iff_of_negative (hn : n ≤ 1008) (hhigh : 128 ≤ initData.toNat) :
    Restores true aes type key iv initData text n cipherBuff plainBuff ↔ 16 ∣ n := by
  have hnone : stripLoop (decrypted aes type key iv initData text n cipherBuff plainBuff)
      (charValue true initData) (16 * ((n + 15) / 16)) = 0 := by
    rw [stripLoop_eq (Nat.le_refl _) (fun a hlow hlt => absurd hlow (Nat.not_le.mpr hlt)),
      Nat.sub_self]
    intro m _ heq
    have hneg := charValue_neg hhigh
    omega
  rw [restores_iff_strip hn, hnone]
  omega

end

/-- Text that does not end in the pad is restored exactly when plain `char` is unsigned, the
pad is below 0x80, or the text fills its blocks. -/
theorem restores_iff (charSigned : Bool) (aes : Globals) (type : Int) (key iv : Bytes)
    (initData : UInt8) (text : Bytes) (n : Nat) (cipherBuff plainBuff : Bytes) (hn : n ≤ 1008)
    (hlast : n = 0 ∨ text (n - 1) ≠ initData) :
    Restores charSigned aes type key iv initData text n cipherBuff plainBuff ↔
      charSigned = false ∨ initData.toNat < 128 ∨ 16 ∣ n := by
  cases charSigned with
  | false => exact iff_of_true (restores_of_matching hn hlast (Or.inl rfl)) (Or.inl rfl)
  | true =>
      rcases Nat.lt_or_ge initData.toNat 128 with hlow | hhigh
      · exact iff_of_true (restores_of_matching hn hlast (Or.inr hlow)) (Or.inr (Or.inl hlow))
      · rw [restores_iff_of_negative hn hhigh]
        simp [Nat.not_lt.mpr hhigh]

/-- The pad of the test application is taken off where plain `char` is signed. -/
theorem restores_testPad :
    Restores true Globals.boot 0 (fun _ => 0) (fun _ => 0) 8 (fun _ => 65) 3 (fun _ => 0)
      (fun _ => 0) :=
  (restores_iff _ _ _ _ _ _ _ _ _ _ (by decide) (Or.inr (by decide))).mpr
    (Or.inr (Or.inl (by decide)))

/-- One byte with the pad 0x80, where plain `char` is signed. -/
theorem restores_negativePad :
    ¬ Restores true Globals.boot 0 (fun _ => 0) (fun _ => 0) 0x80 (fun _ => 65) 1 (fun _ => 0)
      (fun _ => 0) := by
  rw [restores_iff_of_negative (by decide) (by decide)]
  decide

end MdsFormal.Crypto.Aes
