import MdsFormal.Crypto.CbcMemory

/-!
# The stack and the heap variant of encryption

`mds_api_AES_CBC_encrypt_buffer2` pads the text in an array of its own, and the malloc
variant in an allocation of the length that is encrypted.  The blocks that are encrypted
are the same in both, so that the ciphertext is, and the in-place chaining stays in the
copy.
-/

namespace MdsFormal.Crypto.Aes

open Library.Faults Library.Regions

/-! ## The same blocks -/

section

variable {aes : Globals} {output output' input input' fresh fresh' text : Bytes}
  {key iv : Option Bytes} {n size size' a : Nat} {initData : UInt8}

/-- The ciphertext depends on the blocks of the input. -/
theorem cbcEncrypt_congr (hsame : ∀ a < 16 * n, input a = input' a) (ha : a < 16 * n) :
    (mdsApiAesCbcEncryptBuffer aes output input (16 * n) key iv).2.output a =
      (mdsApiAesCbcEncryptBuffer aes output' input' (16 * n) key iv).2.output a := by
  have hinput : input.blocks n 0 = input'.blocks n 0 :=
    Bytes.blocks_congr fun a _ hhigh => hsame a (by omega)
  have hblocks : (mdsApiAesCbcEncryptBuffer aes output input (16 * n) key iv).2.output.blocks n 0 =
      (mdsApiAesCbcEncryptBuffer aes output' input' (16 * n) key iv).2.output.blocks n 0 := by
    rw [cbcEncrypt_blocks, cbcEncrypt_blocks, hinput]
  exact Bytes.eq_of_blocks_eq hblocks (Nat.zero_le a) (by omega)

/-- Two padded buffers agree as far as both go. -/
theorem inputBuffInit_congr (hsize : a < size) (hsize' : a < size') :
    (mdsApiAesInputBuffInit fresh size text n initData).2 a =
      (mdsApiAesInputBuffInit fresh' size' text n initData).2 a := by
  rcases Nat.lt_or_ge a n with htext | hpad
  · rw [inputBuffInit_text htext, inputBuffInit_text htext]
  · rw [inputBuffInit_pad hpad hsize, inputBuffInit_pad hpad hsize']

end

/-! ## The calls in memory -/

namespace InMemory

section

variable {mem : Memory Region} {s : State} {output inBuff target : Region} {iv : Pointer}
  {key : Option Bytes} {fresh : Bytes} {n size : Nat} {initField : UInt8}

theorem fits_whole :
    Fits mem output target (16 * n) ↔ 16 * n ≤ mem.size target ∧ 16 * n ≤ mem.size output := by
  have hcount : passCount (16 * n) = (16 * n + 15) / 16 := rfl
  unfold Fits
  rw [hcount]
  omega

theorem guarded_inputBuffInit (hne : target ≠ inBuff) :
    Guarded (size ≤ mem.size inBuff ∧ n ≤ mem.size target ∧ n ≤ mem.size inBuff)
      (mdsApiAesInputBuffInit mem inBuff size target n initField)
      (· = (mdsApiAesInputBuffGetSize n, mem.put inBuff
        (Aes.mdsApiAesInputBuffInit (mem.bytes inBuff) size (mem.bytes target) n initField).2)) := by
  unfold mdsApiAesInputBuffInit
  refine guarded_memset.bind ?_
  rintro - mem rfl
  refine Guarded.congr (by simp only [Nat.zero_add, Memory.put_size]) (guarded_memcpy.bind_free ?_)
  rintro - mem rfl
  refine guarded_ok ?_
  rw [Memory.put_put, Memory.put_bytes_self, Memory.put_bytes_ne hne]
  rfl

/-- The malloc variant pads in an allocation of its own. -/
theorem inputBuffInitAndMalloc_eq :
    mdsApiAesInputBuffInitAndMalloc mem inBuff fresh target n initField =
      mdsApiAesInputBuffInit (mem.alloc inBuff (mdsApiAesInputBuffGetSize n) fresh) inBuff
        (mdsApiAesInputBuffGetSize n) target n initField := rfl

/-- Whole blocks of a buffer are encrypted into another, and nothing else is written. -/
theorem encryptBuffer_ends (hne : output ≠ inBuff) (hiv : iv.region ≠ output)
    (hfits : iv.off + 16 ≤ s.mem.size iv.region) (hin : 16 * n ≤ s.mem.size inBuff)
    (hout : 16 * n ≤ s.mem.size output) :
    ∃ s', mdsApiAesCbcEncryptBuffer s output inBuff (16 * n) key (some iv) = .ok s' ∧
      s'.mem.bytes output = (Aes.mdsApiAesCbcEncryptBuffer s.globals (s.mem.bytes output)
        (s.mem.bytes inBuff) (16 * n) key (some (bytesAt s.mem iv))).2.output ∧
      ∀ region, region ≠ output → region ≠ inBuff →
        s'.mem.bytes region = s.mem.bytes region := by
  obtain ⟨s', hrun, hs'⟩ := (guarded_mdsApiAesCbcEncryptBuffer hne hiv hfits).ends
    (fits_whole.mpr ⟨hin, hout⟩)
  refine ⟨s', hrun, ?_, fun region houtput hinput => ?_⟩
  · rw [hs'.mem_eq, withBuffers_bytes_output hne]
  · rw [hs'.mem_eq, withBuffers_bytes_ne houtput hinput]

end

/-- A caller of the encryption: `n` bytes of text, and room in the output for the blocks. -/
def encryptCaller (aes : Globals) (oldIv : Pointer) (output input iv : Bytes) (n : Nat) : State where
  globals := aes
  mem :=
    { size := fun region => match region with
        | .callerInput => n
        | .callerOutput => 16 * ((n + 15) / 16)
        | .callerIv => blocklen
        | _ => 0
      bytes := fun region => match region with
        | .callerInput => input
        | .callerOutput => output
        | .callerIv => iv
        | _ => fun _ => 0 }
  iv := oldIv

section

variable {aes : Globals} {oldIv : Pointer} {output input iv freshInput freshOutput : Bytes}
  {key : Option Bytes} {n : Nat} {initData : UInt8}

/-- The stack variant encrypts the padded text. -/
theorem encryptBuffer2_ends (hn : n ≤ 1008) :
    ∃ s', mdsApiAesCbcEncryptBuffer2 (encryptCaller aes oldIv output input iv n) .callerOutput
        .callerInput n key (some ⟨.callerIv, 0⟩) initData =
          .ok (((16 * ((n + 15) / 16) : Nat) : Int), s') ∧
      s'.mem.bytes .callerOutput = (Aes.mdsApiAesCbcEncryptBuffer aes output
        (padded input n initData) (16 * ((n + 15) / 16)) key (some iv)).2.output ∧
      s'.mem.bytes .callerInput = input := by
  have hfits : ¬ n > encryptApi2MaxSupportBuffSize - blocklen := Nat.not_lt.mpr hn
  have hinput : n ≤ 1024 := by omega
  have hblocks : 16 * ((n + 15) / 16) ≤ 1024 := by omega
  obtain ⟨_, hinit, rfl⟩ := (@guarded_inputBuffInit
    ((encryptCaller aes oldIv output input iv n).mem.alloc .inputDataBuff
      encryptApi2MaxSupportBuffSize fun _ => 0)
    .inputDataBuff .callerInput n encryptApi2MaxSupportBuffSize initData (by decide)).ends
      ⟨Nat.le_refl _, Nat.le_refl n, hinput⟩
  rw [getSize_eq] at hinit
  obtain ⟨s', hrun, hcipher, hframe⟩ := @encryptBuffer_ends
    ⟨aes, ((encryptCaller aes oldIv output input iv n).mem.alloc .inputDataBuff
      encryptApi2MaxSupportBuffSize fun _ => 0).put .inputDataBuff (padded input n initData), oldIv⟩
    .callerOutput .inputDataBuff ⟨.callerIv, 0⟩ key ((n + 15) / 16) (by decide) (by decide)
    (Nat.le_refl 16) hblocks (Nat.le_refl _)
  refine ⟨{ s' with mem := s'.mem.free .inputDataBuff }, ?_, ?_, ?_⟩
  · unfold mdsApiAesCbcEncryptBuffer2
    rw [if_neg hfits]
    exact (bind_of_eq_ok hinit).trans (bind_of_eq_ok hrun)
  · rw [bytesAt_zero] at hcipher
    exact hcipher
  · exact hframe .callerInput (by decide) (by decide)

/-- The stack variant leaves what the call on whole buffers does. -/
theorem encryptBuffer2_refines (hn : n ≤ 1008) :
    let enc := Aes.mdsApiAesCbcEncryptBuffer2 aes output input n key (some iv) initData
    ∃ s', mdsApiAesCbcEncryptBuffer2 (encryptCaller aes oldIv output input iv n) .callerOutput
        .callerInput n key (some ⟨.callerIv, 0⟩) initData = .ok (enc.1, s') ∧
      s'.mem.bytes .callerOutput = enc.2.2 := by
  obtain ⟨s', hrun, hcipher, -⟩ := encryptBuffer2_ends hn
  rw [encryptBuffer2_eq hn]
  exact ⟨s', hrun, hcipher⟩

/-- The malloc variant encrypts the same text, padded in a buffer of the length. -/
theorem encryptBuffer2Malloc_ends :
    ∃ s', mdsApiAesCbcEncryptBuffer2Malloc (encryptCaller aes oldIv output input iv n) freshInput
        freshOutput .callerInput n key (some ⟨.callerIv, 0⟩) initData =
          .ok (((16 * ((n + 15) / 16) : Nat) : Int), .outputDataBuff, s') ∧
      s'.mem.bytes .outputDataBuff = (Aes.mdsApiAesCbcEncryptBuffer aes freshOutput
        (Aes.mdsApiAesInputBuffInit freshInput (16 * ((n + 15) / 16)) input n initData).2
        (16 * ((n + 15) / 16)) key (some iv)).2.output ∧
      s'.mem.bytes .callerInput = input := by
  have hinput : n ≤ 16 * ((n + 15) / 16) := by omega
  obtain ⟨_, hinit, rfl⟩ := (@guarded_inputBuffInit
    ((encryptCaller aes oldIv output input iv n).mem.alloc .inputDataBuff
      (16 * ((n + 15) / 16)) freshInput)
    .inputDataBuff .callerInput n (16 * ((n + 15) / 16)) initData (by decide)).ends
      ⟨Nat.le_refl _, Nat.le_refl n, hinput⟩
  have hpad := @inputBuffInitAndMalloc_eq (encryptCaller aes oldIv output input iv n).mem
    .inputDataBuff .callerInput freshInput n initData
  rw [getSize_eq] at hinit hpad
  rw [hinit] at hpad
  obtain ⟨s', hrun, hcipher, hframe⟩ := @encryptBuffer_ends
    ⟨aes, (((encryptCaller aes oldIv output input iv n).mem.alloc .inputDataBuff
      (16 * ((n + 15) / 16)) freshInput).put .inputDataBuff
        (Aes.mdsApiAesInputBuffInit freshInput (16 * ((n + 15) / 16)) input n initData).2).alloc
          .outputDataBuff (16 * ((n + 15) / 16)) freshOutput, oldIv⟩
    .outputDataBuff .inputDataBuff ⟨.callerIv, 0⟩ key ((n + 15) / 16) (by decide) (by decide)
    (Nat.le_refl 16) (Nat.le_refl _) (Nat.le_refl _)
  refine ⟨{ s' with mem := s'.mem.free .inputDataBuff }, ?_, ?_, ?_⟩
  · exact (bind_of_eq_ok hpad).trans (bind_of_eq_ok hrun)
  · rw [bytesAt_zero] at hcipher
    exact hcipher
  · exact hframe .callerInput (by decide) (by decide)

end

end InMemory

/-- Both variants end without an access outside a buffer, with the same length and the same
ciphertext, and the caller's text as it was. -/
def VariantsAgree (aes : Globals) (oldIv : InMemory.Pointer) (type : Int) (key : Option Bytes)
    (iv : Bytes) (initData : UInt8) (output input freshInput freshOutput : Bytes) (n : Nat) : Prop :=
  let caller := InMemory.encryptCaller (mdsApiAesInit aes type) oldIv output input iv n
  let length := 16 * ((n + 15) / 16)
  ∃ stack heap,
    InMemory.mdsApiAesCbcEncryptBuffer2 caller .callerOutput .callerInput n key
        (some ⟨.callerIv, 0⟩) initData = .ok ((length : Int), stack) ∧
      InMemory.mdsApiAesCbcEncryptBuffer2Malloc caller freshInput freshOutput .callerInput n key
          (some ⟨.callerIv, 0⟩) initData = .ok ((length : Int), .outputDataBuff, heap) ∧
      (∀ a < length, stack.mem.bytes .callerOutput a = heap.mem.bytes .outputDataBuff a) ∧
      stack.mem.bytes .callerInput = input ∧ heap.mem.bytes .callerInput = input

/-- For every AES type, key, iv, pad and text of at most 1008 bytes the two variants agree. -/
theorem encryptBuffer2_variantsAgree (aes : Globals) (oldIv : InMemory.Pointer) (type : Int)
    (key : Option Bytes) (iv : Bytes) (initData : UInt8)
    (output input freshInput freshOutput : Bytes) (n : Nat) (hn : n ≤ 1008) :
    VariantsAgree aes oldIv type key iv initData output input freshInput freshOutput n := by
  obtain ⟨stack, hstack, hstackBytes, hstackText⟩ := InMemory.encryptBuffer2_ends hn
  obtain ⟨heap, hheap, hheapBytes, hheapText⟩ := InMemory.encryptBuffer2Malloc_ends
  refine ⟨stack, heap, hstack, hheap, fun a ha => ?_, hstackText, hheapText⟩
  rw [hstackBytes, hheapBytes]
  refine cbcEncrypt_congr (fun a ha => ?_) ha
  have hin : a < 1024 := by omega
  exact inputBuffInit_congr hin ha

/-- A text of the largest length, under the pad of the test application. -/
theorem encryptBuffer2_variantsAgree_cap :
    VariantsAgree Globals.boot ⟨.callerIv, 0⟩ 2 (some fun _ => 1) (fun _ => 2) 8 (fun _ => 0)
      (fun _ => 65) (fun _ => 3) (fun _ => 4) 1008 :=
  encryptBuffer2_variantsAgree _ _ _ _ _ _ _ _ _ _ _ (by decide)

end MdsFormal.Crypto.Aes
