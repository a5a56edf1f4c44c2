import MdsFormal.Crypto.DecryptBounds
import MdsFormal.Crypto.Padding
import MdsFormal.Text.Base64Transport

/-!
# Encrypted text as base64

What the two programs of the AES test do with the library: one encrypts a text with its pad
and encodes the blocks, the other decodes what has come, decrypts it and takes the pad off.
Each works on globals and buffers of its own.  The text arrives exactly when it fits the
array of the padding and both base64 buffers, and the pad can be told from the text.
-/

namespace MdsFormal.Crypto.TextTransport

open Library.Buffer Text.Base64 Aes

/-! ## The two ends -/

/-- What the two ends have agreed on. -/
structure Agreement where
  type : Int
  key : Bytes
  iv : Bytes
  initData : UInt8

/-- The first `n` bytes of a buffer. -/
def front (buff : Bytes) (n : Nat) : List UInt8 := (List.range n).map buff

/-- `test_encrypt_cbc2`: the text that is sent, unless one of the two calls returns -1. -/
def testEncryptCbc2 (aes : Globals) (agreed : Agreement) (text : Bytes) (n : Nat)
    (encryptData : Bytes) (base64StrBuff : Memory) (size : Int) : Option (List UInt8) :=
  let (encryptTargetLen, _, encryptData) := mdsApiAesCbcEncryptBuffer2
    (mdsApiAesInit aes agreed.type) encryptData text n (some agreed.key) (some agreed.iv)
    agreed.initData
  if encryptTargetLen = -1 then none
  else
    let (retBase64Size, encoded) :=
      mdsApiB64Encode (front encryptData encryptTargetLen.toNat) (some base64StrBuff) size
    if retBase64Size = -1 then none else encoded.map (front · retBase64Size.toNat)

/-- `test_decrypt_cbc2`: the text that comes out, unless the decoding returns -1. -/
def testDecryptCbc2 (charSigned : Bool) (aes : Globals) (agreed : Agreement)
    (encryptData : Memory) (size : Int) (decryptData : Bytes) (str : List UInt8) :
    Option (List UInt8) :=
  let (retBase64Size, decoded) := mdsApiB64Decode str (some encryptData) size
  if retBase64Size = -1 then none
  else decoded.map fun encryptData =>
    let (decryptSize, _, decryptData) := mdsApiAesCbcDecryptBuffer2 charSigned
      (mdsApiAesInit aes agreed.type) decryptData encryptData retBase64Size.toNat
      (some agreed.key) (some agreed.iv) agreed.initData
    front decryptData decryptSize.toNat

/-! ## The pad -/

/-- What is stripped is the pad that was added. -/
def PadIsClear (charSigned : Bool) (initData : UInt8) (text : Bytes) (n : Nat) : Prop :=
  if charSigned = true ∧ 128 ≤ initData.toNat then 16 ∣ n
  else n = 0 ∨ text (n - 1) ≠ initData

section

variable {output text : Bytes} {n left : Nat} {initData : UInt8} {charSigned : Bool}

/-- All bytes that equal the pad are stripped. -/
theorem le_stripLoop {pad : Int} (hpad : ∀ a, n ≤ a → a < left → ((output a).toNat : Int) = pad) :
    left - n ≤ stripLoop output pad left := by
  induction left with
  | zero =>
      rw [Nat.zero_sub]
      exact Nat.zero_le _
  | succ left ih =>
      rcases Nat.lt_or_ge left n with hlt | hle
      · rw [Nat.sub_eq_zero_of_le hlt]
        exact Nat.zero_le _
      · have hmore : left - n ≤ stripLoop output pad left :=
          ih fun a hlow hhigh => hpad a hlow (Nat.lt_succ_of_lt hhigh)
        rw [stripLoop, if_neg (not_not.mpr (hpad left hle (Nat.lt_succ_self left)))]
        omega

/-- The loop strips the pad and no more exactly when the pad is clear. -/
theorem stripLoop_iff {blocks : Nat} (hblocks : blocks = (n + 15) / 16)
    (hout : ∀ a < 16 * blocks, output a = padded text n initData a) (hn : n ≤ 1008) :
    stripLoop output (charValue charSigned initData) (16 * blocks) = 16 * blocks - n ↔
      PadIsClear charSigned initData text n := by
  have hpad : ∀ a, n ≤ a → a < 16 * blocks → output a = initData := fun a hlow hhigh => by
    rw [hout a hhigh]
    exact inputBuffInit_pad hlow (by unfold encryptApi2MaxSupportBuffSize; omega)
  have htext : ∀ a < n, output a = text a := fun a ha => by
    rw [hout a (by omega)]
    exact inputBuffInit_text ha
  unfold PadIsClear
  split
  · rename_i hnegative
    have hnone : stripLoop output (charValue charSigned initData) (16 * blocks) = 0 := by
      rw [stripLoop_eq (Nat.le_refl _) (fun a hlow hlt => absurd hlow (Nat.not_le.mpr hlt)),
        Nat.sub_self]
      intro m _ heq
      have hneg := charValue_neg hnegative.2
      rw [hnegative.1] at heq
      omega
    rw [hnone]
    omega
  · rename_i hnonneg
    have hchar : charValue charSigned initData = initData.toNat := if_neg hnonneg
    rw [hchar]
    constructor
    · intro hstrip
      refine or_iff_not_imp_left.mpr fun hzero heq => ?_
      have hmore : 16 * blocks - (n - 1) ≤ stripLoop output initData.toNat (16 * blocks) := by
        refine le_stripLoop fun a hlow hhigh => ?_
        rcases Nat.lt_or_ge a n with hlast | hbehind
        · have ha : a = n - 1 := by omega
          rw [htext a hlast, ha, heq]
        · rw [hpad a hbehind hhigh]
      omega
    · intro hclear
      refine stripLoop_eq (by omega) (fun a hlow hhigh => ?_) fun m hm heq => ?_
      · rw [hpad a hlow hhigh]
      · subst hm
        rw [htext m (Nat.lt_succ_self m)] at heq
        rcases hclear with hzero | hlast
        · exact Nat.succ_ne_zero m hzero
        · exact hlast (UInt8.toNat_inj.mp (Int.ofNat_inj.mp heq))

end

/-! ## What is sent and what comes out -/

section

variable {aes aes' : Globals} {agreed : Agreement} {text encryptData decryptData : Bytes}
  {n blocks : Nat} {buff : Memory} {size : Int} {charSigned : Bool} {str : List UInt8}

theorem length_front (bytes : Bytes) (n : Nat) : (front bytes n).length = n := by
  rw [front, List.length_map, List.length_range]

theorem front_getElem? {bytes : Bytes} {a : Nat} (ha : a < n) :
    (front bytes n)[a]? = some (bytes a) := by
  rw [front, List.getElem?_map, List.getElem?_range ha]
  rfl

/-- A buffer that holds some bytes has them at its front. -/
theorem front_eq {bytes : Bytes} (hlen : str.length = n)
    (hbytes : ∀ i b, (str ++ [0])[i]? = some b → bytes i = b) : front bytes n = str := by
  refine List.ext_getElem? fun a => ?_
  rcases Nat.lt_or_ge a n with ha | ha
  · have hin : a < str.length := hlen.symm ▸ ha
    have hget : (str ++ [0])[a]? = some str[a] := by
      rw [List.getElem?_append_left hin, List.getElem?_eq_getElem]
    rw [front_getElem? ha, hbytes a _ hget, List.getElem?_eq_getElem hin]
  · rw [List.getElem?_eq_none (by rwa [length_front]), List.getElem?_eq_none (by rwa [hlen])]

/-- The blocks that the sender encodes. -/
def sentBlocks (aes : Globals) (agreed : Agreement) (text : Bytes) (n : Nat)
    (encryptData : Bytes) : Bytes :=
  (mdsApiAesCbcEncryptBuffer (mdsApiAesInit aes agreed.type) encryptData
    (padded text n agreed.initData) (16 * ((n + 15) / 16)) (some agreed.key)
    (some agreed.iv)).2.output

/-- The encoding of some bytes is put out whole, or refused. -/
theorem encoded_eq (src : List UInt8) :
    (if (mdsApiB64Encode src (some buff) size).1 = -1 then none
      else (mdsApiB64Encode src (some buff) size).2.map
        (front · (mdsApiB64Encode src (some buff) size).1.toNat)) =
      if ((4 * ((src.length + 2) / 3) + 1 : Nat) : Int) ≤ size then some (rfcEncode src)
      else none := by
  have hdelivers := (mdsApiB64Encode_emits src buff size).delivers
  have hroom : ((rfcEncode src).length + 1 : Int) ≤ size ↔
      ((4 * ((src.length + 2) / 3) + 1 : Nat) : Int) ≤ size := by
    rw [length_rfcEncode]
    omega
  have hfails : (mdsApiB64Encode src (some buff) size).1 = -1 ↔
      ¬ ((4 * ((src.length + 2) / 3) + 1 : Nat) : Int) ≤ size := by
    rw [← hroom, ← hdelivers.succeeds]
    exact not_not.symm
  by_cases hfits : ((4 * ((src.length + 2) / 3) + 1 : Nat) : Int) ≤ size
  · obtain ⟨hret, hbytes⟩ := hdelivers.value (hdelivers.succeeds.mpr (hroom.mpr hfits))
    rw [if_neg (fun hfail => hfails.mp hfail hfits), if_pos hfits]
    refine congrArg some (front_eq ?_ hbytes)
    change _ = ((encodeLoop size src [] 0 buff).1).toNat
    rw [hret, Int.toNat_natCast]
  · rw [if_pos (hfails.mpr hfits), if_neg hfits]

/-- The sender sends the encoding of its blocks, where both fit. -/
theorem testEncryptCbc2_eq :
    testEncryptCbc2 aes agreed text n encryptData buff size =
      if n ≤ 1008 ∧ ((4 * ((16 * ((n + 15) / 16) + 2) / 3) + 1 : Nat) : Int) ≤ size then
        some (rfcEncode (front (sentBlocks aes agreed text n encryptData)
          (16 * ((n + 15) / 16))))
      else none := by
  unfold testEncryptCbc2
  rcases Nat.lt_or_ge 1008 n with hlong | hn
  · have hfull : n > encryptApi2MaxSupportBuffSize - blocklen := hlong
    unfold mdsApiAesCbcEncryptBuffer2
    rw [if_pos hfull, if_neg (fun hboth => absurd hboth.1 (Nat.not_le.mpr hlong))]
    rfl
  · have hlen : ¬ (((16 * ((n + 15) / 16) : Nat) : Int) = -1) := by omega
    have hencoded := @encoded_eq buff size
      (front (sentBlocks aes agreed text n encryptData) (16 * ((n + 15) / 16)))
    rw [length_front] at hencoded
    rw [encryptBuffer2_eq hn]
    dsimp only
    rw [if_neg hlen, Int.toNat_natCast]
    simp only [hn, true_and]
    exact hencoded

/-- Bytes that do not fit with a NUL are not decoded. -/
theorem testDecryptCbc2_of_not_fits {src : List UInt8}
    (hfull : ¬ ((src.length + 1 : Int) ≤ size)) :
    testDecryptCbc2 charSigned aes agreed buff size decryptData (rfcEncode src) = none := by
  have hfails : (decodeLoop size (rfcEncode src) [] 0 buff).1 = -1 := by
    by_contra hsucceeds
    exact hfull ((mdsApiB64Decode_emits src buff size).delivers.succeeds.mp hsucceeds)
  exact if_pos hfails

/-- What the receiver decrypts, before the pad is stripped. -/
def received (aes : Globals) (agreed : Agreement) (buff : Memory) (size : Int)
    (decryptData : Bytes) (str : List UInt8) (length : Nat) : Bytes :=
  (mdsApiAesCbcDecryptBuffer (mdsApiAesInit aes agreed.type) decryptData
    (decodeLoop size str [] 0 buff).2 length (some agreed.key) (some agreed.iv)).2.output

/-- Bytes that fit are decrypted, and what the loop finds is stripped. -/
theorem testDecryptCbc2_of_fits {src : List UInt8} (hfits : (src.length + 1 : Int) ≤ size) :
    let output := received aes agreed buff size decryptData (rfcEncode src) src.length
    let i := stripLoop output (charValue charSigned agreed.initData) src.length
    testDecryptCbc2 charSigned aes agreed buff size decryptData (rfcEncode src) =
      some (front output (src.length - i)) := by
  intro output i
  have hdelivers := (mdsApiB64Decode_emits src buff size).delivers
  have hsucceeds := hdelivers.succeeds.mpr hfits
  obtain ⟨hret, -⟩ := hdelivers.value hsucceeds
  have hlen : (decodeLoop size (rfcEncode src) [] 0 buff).1.toNat = src.length := by
    rw [hret, Int.toNat_natCast]
  have hsize : ((src.length : Int) - (i : Nat)).toNat = src.length - i := by omega
  refine (if_neg hsucceeds).trans ?_
  change some (front (mdsApiAesCbcDecryptBuffer2 charSigned _ decryptData
    (decodeLoop size (rfcEncode src) [] 0 buff).2
    (decodeLoop size (rfcEncode src) [] 0 buff).1.toNat _ _ _).2.2 (Int.toNat _)) = _
  rw [hlen]
  change some (front (Function.update output (src.length - i + 1) 0)
    ((src.length : Int) - (i : Nat)).toNat) = _
  rw [hsize]
  -- the NUL is put one byte behind the end of the text
  refine congrArg some (List.map_congr_left fun a ha => ?_)
  rw [Function.update_of_ne]
  have hin := List.mem_range.mp ha
  omega

/-- With one type, key and iv the receiver decrypts what the sender has padded. -/
theorem received_eq {blocks a : Nat} (hblocks : blocks = (n + 15) / 16) (ha : a < 16 * blocks)
    (hfits : (16 * blocks + 1 : Int) ≤ size) :
    received aes' agreed buff size decryptData
        (rfcEncode (front (sentBlocks aes agreed text n encryptData) (16 * blocks)))
        (16 * blocks) a =
      padded text n agreed.initData a := by
  subst hblocks
  have hsel := selected_init aes agreed.type
  have hsel' := selected_init aes' agreed.type
  have hdelivers := (mdsApiB64Decode_emits
    (front (sentBlocks aes agreed text n encryptData) (16 * ((n + 15) / 16))) buff size).delivers
  obtain ⟨-, hbytes⟩ := hdelivers.value <| hdelivers.succeeds.mpr <| by
    rw [length_front]
    omega
  have hsame : Bytes.blocks (decodeLoop size
      (rfcEncode (front (sentBlocks aes agreed text n encryptData) (16 * ((n + 15) / 16)))) [] 0
      buff).2 ((n + 15) / 16) 0 =
      (sentBlocks aes agreed text n encryptData).blocks ((n + 15) / 16) 0 := by
    refine Bytes.blocks_congr fun a _ hhigh => hbytes a _ ?_
    rw [List.getElem?_append_left (by rw [length_front]; omega), front_getElem? (by omega)]
  have hplain : (received aes' agreed buff size decryptData
      (rfcEncode (front (sentBlocks aes agreed text n encryptData) (16 * ((n + 15) / 16))))
      (16 * ((n + 15) / 16))).blocks ((n + 15) / 16) 0 =
      (padded text n agreed.initData).blocks ((n + 15) / 16) 0 := by
    rw [received, cbcDecrypt_blocks, hsame, ← cbcDecrypt_blocks]
    exact cbcDecrypt_cbcEncrypt_blocks hsel hsel' encryptData decryptData _ _ _ _
  exact Bytes.eq_of_blocks_eq hplain (Nat.zero_le a) (by omega)

end

/--
The text arrives exactly when it fits the array of the padding, its blocks and their encoding
fit the two base64 buffers, and its pad is clear.
-/
theorem text_arrives_iff (charSigned : Bool) (aes aes' : Globals) (agreed : Agreement)
    (text encryptData decryptData : Bytes) (n : Nat) (base64StrBuff decodeBuff : Memory)
    (base64Size decodeSize : Int) :
    (testEncryptCbc2 aes agreed text n encryptData base64StrBuff base64Size).bind
        (testDecryptCbc2 charSigned aes' agreed decodeBuff decodeSize decryptData) =
          some (front text n) ↔
      n ≤ 1008 ∧
        ((4 * ((16 * ((n + 15) / 16) + 2) / 3) + 1 : Nat) : Int) ≤ base64Size ∧
        ((16 * ((n + 15) / 16) + 1 : Nat) : Int) ≤ decodeSize ∧
        PadIsClear charSigned agreed.initData text n := by
  rw [testEncryptCbc2_eq]
  by_cases hsent : n ≤ 1008 ∧
      ((4 * ((16 * ((n + 15) / 16) + 2) / 3) + 1 : Nat) : Int) ≤ base64Size
  · rw [if_pos hsent, Option.bind_some]
    by_cases hfits : ((16 * ((n + 15) / 16) + 1 : Nat) : Int) ≤ decodeSize
    · have hroom : (16 * ((n + 15) / 16 : Nat) + 1 : Int) ≤ decodeSize := by omega
      have hplain := fun a ha => @received_eq aes aes' agreed text encryptData decryptData n
        decodeBuff decodeSize ((n + 15) / 16) a rfl ha hroom
      have hstrip := @stripLoop_iff _ text n agreed.initData charSigned _ rfl hplain hsent.1
      have hshort : n ≤ 16 * ((n + 15) / 16) := by omega
      have hout : ∀ a < n, received aes' agreed decodeBuff decodeSize decryptData
          (rfcEncode (front (sentBlocks aes agreed text n encryptData) (16 * ((n + 15) / 16))))
          (16 * ((n + 15) / 16)) a = text a := fun a ha => by
        rw [hplain a (by omega)]
        exact inputBuffInit_text ha
      rw [testDecryptCbc2_of_fits (by rw [length_front]; omega), length_front]
      constructor
      · intro hsame
        have hlen := congrArg List.length (Option.some_inj.mp hsame)
        rw [length_front, length_front] at hlen
        have hle := @stripLoop_le
          (received aes' agreed decodeBuff decodeSize decryptData (rfcEncode (front
            (sentBlocks aes agreed text n encryptData) (16 * ((n + 15) / 16))))
            (16 * ((n + 15) / 16))) (charValue charSigned agreed.initData) (16 * ((n + 15) / 16))
        exact ⟨hsent.1, hsent.2, hfits, hstrip.mp (by omega)⟩
      · rintro ⟨-, -, -, hclear⟩
        rw [hstrip.mpr hclear, Nat.sub_sub_self hshort]
        exact congrArg some (List.map_congr_left fun a ha => hout a (List.mem_range.mp ha))
    · rw [testDecryptCbc2_of_not_fits (by rw [length_front]; omega)]
      refine iff_of_false (fun hnone => ?_) fun hall => hfits hall.2.2.1
      cases hnone
  · rw [if_neg hsent, Option.bind_none]
    refine iff_of_false (fun hnone => ?_) fun hall => hsent ⟨hall.1, hall.2.1⟩
    cases hnone

end MdsFormal.Crypto.TextTransport
