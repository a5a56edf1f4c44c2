import Mathlib.Logic.Function.Basic
import MdsFormal.Crypto.Aes

/-!
# The public functions

`mds_api_AES_init`, ECB and CBC, and CBC with padding, over the globals they share.  A
buffer is the bytes from its pointer on; two buffers of one call are separate.  `Iv` is
held as the block it points at, which nothing writes between its assignment and its use.
-/

namespace MdsFormal.Crypto.Aes

/-! ## Buffers -/

def Bytes.block (bytes : Bytes) (off : Nat) : Block where
  c0 := ⟨bytes off, bytes (off + 1), bytes (off + 2), bytes (off + 3)⟩
  c1 := ⟨bytes (off + 4), bytes (off + 5), bytes (off + 6), bytes (off + 7)⟩
  c2 := ⟨bytes (off + 8), bytes (off + 9), bytes (off + 10), bytes (off + 11)⟩
  c3 := ⟨bytes (off + 12), bytes (off + 13), bytes (off + 14), bytes (off + 15)⟩

def Word.bytes (w : Word) : List UInt8 := [w.b0, w.b1, w.b2, w.b3]

def Block.bytes (b : Block) : List UInt8 :=
  b.c0.bytes ++ b.c1.bytes ++ b.c2.bytes ++ b.c3.bytes

/-- Write the sixteen bytes of a block. -/
def Bytes.setBlock (bytes : Bytes) (off : Nat) (b : Block) : Bytes := fun a =>
  if off ≤ a ∧ a < off + 16 then b.bytes.getD (a - off) 0 else bytes a

/-- `memcpy(dst + off, src + srcOff, n)`. -/
def Bytes.copy (dst : Bytes) (off : Nat) (src : Bytes) (srcOff n : Nat) : Bytes := fun a =>
  if off ≤ a ∧ a < off + n then src (srcOff + (a - off)) else dst a

/-- `memset(dst, value, n)`. -/
def Bytes.fill (dst : Bytes) (value : UInt8) (n : Nat) : Bytes := fun a =>
  if a < n then value else dst a

namespace Bytes

section

variable {bytes bytes' dst src : Bytes} {off srcOff n a : Nat} {b : Block}

/-- A block depends on its sixteen bytes. -/
theorem block_congr (hsame : ∀ a, off ≤ a → a < off + 16 → bytes a = bytes' a) :
    bytes.block off = bytes'.block off := by
  unfold block
  simp only [Block.mk.injEq, Word.mk.injEq]
  refine ⟨⟨?_, ?_, ?_, ?_⟩, ⟨?_, ?_, ?_, ?_⟩, ⟨?_, ?_, ?_, ?_⟩, ?_, ?_, ?_, ?_⟩ <;>
    exact hsame _ (by omega) (by omega)

/-- The bytes of a block are those of its place. -/
theorem bytes_block : (bytes.block off).bytes = (List.range 16).map fun k => bytes (off + k) := rfl

theorem eq_of_block_eq (hblock : bytes.block off = bytes'.block off) (hlow : off ≤ a)
    (hhigh : a < off + 16) : bytes a = bytes' a := by
  have hall := congrArg Block.bytes hblock
  rw [bytes_block, bytes_block, List.map_inj_left] at hall
  have hbyte := hall (a - off) (List.mem_range.mpr (by omega))
  rwa [Nat.add_sub_cancel' hlow] at hbyte

theorem setBlock_outside (hout : a < off ∨ off + 16 ≤ a) : bytes.setBlock off b a = bytes a :=
  if_neg (by omega)

theorem setBlock_inside {k : Nat} (hk : k < 16) :
    bytes.setBlock off b (off + k) = b.bytes.getD k 0 := by
  unfold setBlock
  rw [if_pos (by omega), Nat.add_sub_cancel_left]

@[simp]
theorem block_setBlock : (bytes.setBlock off b).block off = b := by
  have hbyte : ∀ k < 16, bytes.setBlock off b (off + k) = b.bytes.getD k 0 := fun k hk =>
    setBlock_inside hk
  have hfirst := hbyte 0 (by omega)
  rw [Nat.add_zero] at hfirst
  unfold block
  rw [hfirst, hbyte 1, hbyte 2, hbyte 3, hbyte 4, hbyte 5, hbyte 6, hbyte 7, hbyte 8, hbyte 9,
    hbyte 10, hbyte 11, hbyte 12, hbyte 13, hbyte 14, hbyte 15]
  · rfl
  all_goals omega

theorem block_setBlock_of_disjoint {off' : Nat} (hdisjoint : off' + 16 ≤ off ∨ off + 16 ≤ off') :
    (bytes.setBlock off b).block off' = bytes.block off' :=
  block_congr fun _ _ _ => setBlock_outside (by omega)

theorem copy_inside (hlow : off ≤ a) (hhigh : a < off + n) :
    dst.copy off src srcOff n a = src (srcOff + (a - off)) :=
  if_pos ⟨hlow, hhigh⟩

theorem copy_outside (hout : a < off ∨ off + n ≤ a) : dst.copy off src srcOff n a = dst a :=
  if_neg (by omega)

@[simp]
theorem block_copy : (dst.copy off src off 16).block off = src.block off := by
  refine block_congr fun a hlow hhigh => ?_
  rw [copy_inside hlow hhigh, Nat.add_sub_cancel' hlow]

end

end Bytes

/-- The source's `BLOCKLEN`. -/
def blocklen : Nat := 16

/-! ## The globals -/

def AesType.nk : AesType → Nat
  | .aes128 => 4
  | .aes192 => 6
  | .aes256 => 8

def AesType.nr : AesType → Nat
  | .aes128 => 10
  | .aes192 => 12
  | .aes256 => 14

/-- The globals that a function reads. -/
structure Globals where
  aesType : AesType
  nk : Nat
  nr : Nat
  key : Option Bytes
  roundKey : RoundKey
  iv : Block

/-- The globals when the process starts. -/
def Globals.boot : Globals where
  aesType := .aes128
  nk := AesType.aes128.nk
  nr := AesType.aes128.nr
  key := none
  roundKey := RoundKey.zero
  iv := default

/-- The argument of `mds_api_AES_init`; anything else selects AES128. -/
def AesType.ofInt : Int → AesType
  | 0 => .aes128
  | 1 => .aes192
  | 2 => .aes256
  | _ => .aes128

def mdsApiAesInit (aes : Globals) (type : Int) : Globals :=
  let aesType := AesType.ofInt type
  { aes with aesType := aesType, nk := aesType.nk, nr := aesType.nr }

/-- `Key = key; KeyExpansion();` -/
def Globals.setKey (aes : Globals) (key : Bytes) : Globals :=
  { aes with
    key := some key
    roundKey := keyExpansion aes.aesType aes.nk aes.nr key aes.roundKey }

/-! ## ECB -/

/-- `mds_api_AES_ECB_encrypt`; the second part is `output`. -/
def mdsApiAesEcbEncrypt (aes : Globals) (input key output : Bytes) (length : Nat) :
    Globals × Bytes :=
  let output := output.copy 0 input 0 length
  let aes := aes.setKey key
  (aes, output.setBlock 0 (cipher aes.nr aes.roundKey (output.block 0)))

/-- `mds_api_AES_ECB_decrypt`. -/
def mdsApiAesEcbDecrypt (aes : Globals) (input key output : Bytes) (length : Nat) :
    Globals × Bytes :=
  let output := output.copy 0 input 0 length
  let aes := aes.setKey key
  (aes, output.setBlock 0 (invCipher aes.nr aes.roundKey (output.block 0)))

/-! ## CBC -/

/-- The buffers of a CBC call and the block at `Iv`. -/
structure Chain where
  output : Bytes
  input : Bytes
  iv : Block

/-- Cipher the block of `output` at `off`, to which `n` bytes of `input` are copied first. -/
def copyThen (transform : Block → Block) (chain : Chain) (off n : Nat) : Bytes :=
  let output := chain.output.copy off chain.input off n
  output.setBlock off (transform (output.block off))

/-- One pass of the encryption loop. -/
def encryptPass (nr : Nat) (roundKey : RoundKey) (chain : Chain) (off : Nat) : Chain :=
  -- XorWithIv works in the caller's input
  let input := chain.input.setBlock off (chain.input.block off ^^^ chain.iv)
  let output := copyThen (cipher nr roundKey) { chain with input := input } off blocklen
  ⟨output, input, output.block off⟩

/-- One pass of the decryption loop. -/
def decryptPass (nr : Nat) (roundKey : RoundKey) (chain : Chain) (off : Nat) : Chain :=
  let output := copyThen (invCipher nr roundKey) chain off blocklen
  let output := output.setBlock off (output.block off ^^^ chain.iv)
  ⟨output, chain.input, chain.input.block off⟩

/-- `for (i = 0; i < length; i += BLOCKLEN)`, with `count` passes left at offset `off`. -/
def passes (pass : Chain → Nat → Chain) : Nat → Nat → Chain → Chain
  | 0, _, chain => chain
  | count + 1, off, chain => passes pass count (off + blocklen) (pass chain off)

/-- How many passes the loop makes. -/
def passCount (length : Nat) : Nat := (length + (blocklen - 1)) / blocklen

/-- What the two CBC functions start with; a key or an iv of 0 leaves what is there. -/
def Globals.prepare (aes : Globals) (key iv : Option Bytes) : Globals :=
  let aes := match key with
    | none => aes
    | some key => aes.setKey key
  match iv with
  | none => aes
  | some iv => { aes with iv := iv.block 0 }

/-- What the two CBC functions share: the key and the iv, the loop, and the rest. -/
def cbcBuffer (pass : Globals → Chain → Nat → Chain) (transform : Globals → Block → Block)
    (aes : Globals) (output input : Bytes) (length : Nat) (key iv : Option Bytes) :
    Globals × Chain :=
  let aes := aes.prepare key iv
  let extra := length % blocklen
  let off := passCount length * blocklen
  let chain := passes (pass aes) (passCount length) 0 ⟨output, input, aes.iv⟩
  let chain :=
    if extra ≠ 0 then { chain with output := copyThen (transform aes) chain off extra } else chain
  ({ aes with iv := chain.iv }, chain)

/-- `mds_api_AES_CBC_encrypt_buffer`. -/
def mdsApiAesCbcEncryptBuffer : Globals → Bytes → Bytes → Nat → Option Bytes → Option Bytes →
    Globals × Chain :=
  cbcBuffer (fun aes => encryptPass aes.nr aes.roundKey) fun aes => cipher aes.nr aes.roundKey

/-- `mds_api_AES_CBC_decrypt_buffer`. -/
def mdsApiAesCbcDecryptBuffer : Globals → Bytes → Bytes → Nat → Option Bytes → Option Bytes →
    Globals × Chain :=
  cbcBuffer (fun aes => decryptPass aes.nr aes.roundKey) fun aes => invCipher aes.nr aes.roundKey

/-! ## CBC with padding -/

def mdsApiAesInputBuffGetSize (encryptTargetLen : Nat) : Nat :=
  let extraData := encryptTargetLen % blocklen
  let dataCount := encryptTargetLen / blocklen
  if extraData ≠ 0 then (dataCount + 1) * blocklen else dataCount * blocklen

/-- `mds_api_AES_input_buff_init`: the length to encrypt, and `in_buff`. -/
def mdsApiAesInputBuffInit (inBuff : Bytes) (inBuffSize : Nat) (encryptTarget : Bytes)
    (encryptTargetLen : Nat) (initField : UInt8) : Nat × Bytes :=
  (mdsApiAesInputBuffGetSize encryptTargetLen,
    (inBuff.fill initField inBuffSize).copy 0 encryptTarget 0 encryptTargetLen)

/-- The source's `ENCRYPT_API2_MAX_SUPPORT_BUFF_SIZE`. -/
def encryptApi2MaxSupportBuffSize : Nat := 1024

/-- `mds_api_AES_CBC_encrypt_buffer2`: the result, the globals and `output`.  The `char`
`init_data` is passed on as a byte. -/
def mdsApiAesCbcEncryptBuffer2 (aes : Globals) (output input : Bytes) (length : Nat)
    (key iv : Option Bytes) (initData : UInt8) : Int × Globals × Bytes :=
  if length > encryptApi2MaxSupportBuffSize - blocklen then (-1, aes, output)
  else
    let (encryptTargetLen, inputDataBuff) :=
      mdsApiAesInputBuffInit (fun _ => 0) encryptApi2MaxSupportBuffSize input length initData
    let (aes, chain) :=
      mdsApiAesCbcEncryptBuffer aes output inputDataBuff encryptTargetLen key iv
    (encryptTargetLen, aes, chain.output)

/-- The value of a `char` with these bits, where plain `char` is signed or not. -/
def charValue (charSigned : Bool) (bits : UInt8) : Int :=
  if charSigned = true ∧ 128 ≤ bits.toNat then bits.toNat - 256 else bits.toNat

/-- The loop of `mds_api_AES_CBC_decrypt_buffer2`: how many of the last bytes are the pad. -/
def stripLoop (output : Bytes) (initData : Int) : Nat → Nat
  | 0 => 0
  | left + 1 =>
      if (output left).toNat ≠ initData then 0 else stripLoop output initData left + 1

/-- `mds_api_AES_CBC_decrypt_buffer2`: the result, the globals and `output`. -/
def mdsApiAesCbcDecryptBuffer2 (charSigned : Bool) (aes : Globals) (output input : Bytes)
    (length : Nat) (key iv : Option Bytes) (initData : UInt8) : Int × Globals × Bytes :=
  let (aes, chain) := mdsApiAesCbcDecryptBuffer aes output input length key iv
  let i := stripLoop chain.output (charValue charSigned initData) length
  (length - i, aes, Function.update chain.output (length - i + 1) 0)

end MdsFormal.Crypto.Aes
