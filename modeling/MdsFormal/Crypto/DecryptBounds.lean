import MdsFormal.Crypto.CbcMemory

/-!
# Where decrypted text ends

`mds_api_AES_CBC_decrypt_buffer2` returns how many bytes are left without the pad, and
writes the NUL one place behind that.  The byte at its result is the first byte of the
pad, where there is a pad; where there is none, the NUL is written behind the room that
the caller has for it.  Ciphertext that is no number of whole blocks is read to the end of
its last block.
-/

namespace MdsFormal.Crypto.Aes

open Library.Faults Library.Regions

/-! ## What is stripped -/

section

variable {output : Bytes} {pad : Int} {left a : Nat}

theorem stripLoop_le : stripLoop output pad left ≤ left := by
  induction left with
  | zero => exact Nat.le_refl 0
  | succ left ih =>
      rw [stripLoop]
      split
      · exact Nat.zero_le _
      · exact Nat.succ_le_succ ih

/-- Each byte that is stripped is the pad. -/
theorem stripLoop_pad (hlow : left - stripLoop output pad left ≤ a) (hhigh : a < left) :
    ((output a).toNat : Int) = pad := by
  induction left with
  | zero => exact absurd hhigh (Nat.not_lt_zero a)
  | succ left ih =>
      rw [stripLoop] at hlow
      split at hlow
      · exact absurd hhigh (Nat.not_lt.mpr hlow)
      · rename_i hlast
        rcases Nat.lt_or_eq_of_le (Nat.le_of_lt_succ hhigh) with hlt | rfl
        · exact ih (by omega) hlt
        · exact not_not.mp hlast

/-- Where something is stripped, the byte behind what is left is the pad. -/
theorem stripLoop_first (hpos : 0 < stripLoop output pad left) :
    ((output (left - stripLoop output pad left)).toNat : Int) = pad := by
  have hle := @stripLoop_le output pad left
  exact stripLoop_pad (Nat.le_refl _) (by omega)

/-- Something is stripped exactly when the last byte is the pad. -/
theorem stripLoop_pos_iff :
    0 < stripLoop output pad (left + 1) ↔ ((output left).toNat : Int) = pad := by
  rw [stripLoop]
  split
  · rename_i hlast
    exact iff_of_false (Nat.lt_irrefl 0) hlast
  · rename_i hlast
    exact iff_of_true (Nat.succ_pos _) (not_not.mp hlast)

end

/-! ## The last block -/

section

variable {chain : Chain} {nr count : Nat} {roundKey : RoundKey}

theorem passes_decryptPass_input (off : Nat) :
    (passes (decryptPass nr roundKey) count off chain).input = chain.input := by
  induction count generalizing off chain with
  | zero => rfl
  | succ count ih => exact ih (off + 16)

/-- The block that a block of ciphertext is combined with: the one before it, or the iv. -/
def blockBefore (iv : Block) (input : Bytes) : Nat → Block
  | 0 => iv
  | n + 1 => input.block (16 * n)

theorem passes_decryptPass_iv :
    (passes (decryptPass nr roundKey) count 0 chain).iv =
      blockBefore chain.iv chain.input count := by
  cases count with
  | zero => rfl
  | succ count =>
      rw [InMemory.passes_snoc, Nat.zero_add]
      exact congrArg (Bytes.block · (16 * count)) (passes_decryptPass_input 0)

/-- The last block of the output. -/
theorem passes_decryptPass_last :
    (passes (decryptPass nr roundKey) (count + 1) 0 chain).output.block (16 * count) =
      invCipher nr roundKey (chain.input.block (16 * count)) ^^^
        blockBefore chain.iv chain.input count := by
  rw [InMemory.passes_snoc, Nat.zero_add, decryptPass_block, passes_decryptPass_input,
    passes_decryptPass_iv]

end

/-- The last byte that is decrypted is 0: the last block deciphers to a block that ends as the
one before it does.  The input has `last + 1` blocks. -/
def EndsInZero (aesType : AesType) (key iv input : Bytes) (last : Nat) : Prop :=
  (invCipher aesType.nr (aesType.schedule key) (input.block (16 * last))).c3.b3 =
    (blockBefore (iv.block 0) input last).c3.b3

theorem decrypt_last_eq_zero_iff {aes : Globals} {type : Int} {key iv output input : Bytes}
    {last : Nat} :
    (mdsApiAesCbcDecryptBuffer (mdsApiAesInit aes type) output input (16 * (last + 1)) (some key)
      (some iv)).2.output (16 * last + 15) = 0 ↔
        EndsInZero (AesType.ofInt type) key iv input last := by
  have hsel := selected_init aes type
  have hblock : (mdsApiAesCbcDecryptBuffer (mdsApiAesInit aes type) output input (16 * (last + 1))
      (some key) (some iv)).2.output.block (16 * last) =
        invCipher (AesType.ofInt type).nr ((AesType.ofInt type).schedule key)
          (input.block (16 * last)) ^^^ blockBefore (iv.block 0) input last := by
    unfold mdsApiAesCbcDecryptBuffer
    rw [cbcBuffer_whole, passes_decryptPass_last]
    exact congrArg (· ^^^ _) ((hsel.schedule key).invCipher _)
  have hbyte := congrArg (fun b : Block => b.c3.b3) hblock
  have hxor := @UInt8.xor_eq_zero_iff
    (invCipher (AesType.ofInt type).nr ((AesType.ofInt type).schedule key)
      (input.block (16 * last))).c3.b3 (blockBefore (iv.block 0) input last).c3.b3
  exact (iff_of_eq (congrArg (· = 0) hbyte)).trans hxor

/-! ## The call in memory -/

namespace InMemory

section

variable {mem : Memory Region} {s : State} {output input : Region} {iv : Pointer}
  {key : Option Bytes} {length left : Nat} {pad : Int} {charSigned : Bool} {initData : UInt8}

theorem guarded_stripLoop :
    Guarded (left ≤ mem.size output) (stripLoop mem output pad left)
      (· = Aes.stripLoop (mem.bytes output) pad left) := by
  induction left with
  | zero =>
      refine Guarded.congr (iff_of_true trivial (Nat.zero_le _)) (guarded_ok ?_)
      rfl
  | succ left ih =>
      unfold stripLoop Aes.stripLoop
      refine Memory.guarded_within.bind_free fun hfits _ _ => ?_
      split
      · exact guarded_ok rfl
      · refine Guarded.congr (iff_true_intro (Nat.le_of_succ_le hfits)) (ih.bind_free ?_)
        rintro - i rfl
        exact guarded_ok rfl

/-- The bytes that the call leaves in the output before it strips the pad. -/
def decrypted (s : State) (output input : Region) (length : Nat) (key : Option Bytes)
    (iv : Pointer) : Bytes :=
  (Aes.mdsApiAesCbcDecryptBuffer s.globals (s.mem.bytes output) (s.mem.bytes input) length key
    (some (bytesAt s.mem iv))).2.output

/-- The call touches what the decryption does, the bytes it compares and the place of the NUL. -/
theorem guarded_mdsApiAesCbcDecryptBuffer2 (hne : output ≠ input) (hiv : iv.region ≠ output)
    (hfits : iv.off + 16 ≤ s.mem.size iv.region) :
    let plain := decrypted s output input length key iv
    let i := Aes.stripLoop plain (charValue charSigned initData) length
    Guarded (Fits s.mem output input length ∧ length ≤ s.mem.size output ∧
        length - i + 1 + 1 ≤ s.mem.size output)
      (mdsApiAesCbcDecryptBuffer2 charSigned s output input length key (some iv) initData)
      fun result => result.1 = length - i ∧
        result.2.mem.bytes output = Function.update plain (length - i + 1) 0 := by
  intro plain i
  refine (guarded_mdsApiAesCbcDecryptBuffer hne hiv hfits).bind fun _ s' hs' => ?_
  have hsize : s'.mem.size = s.mem.size := by
    rw [hs'.mem_eq]
    rfl
  have hbytes : s'.mem.bytes output = plain := by
    rw [hs'.mem_eq, withBuffers_bytes_output hne]
    rfl
  rw [← hsize]
  refine guarded_stripLoop.bind ?_
  rintro - i' rfl
  rw [hbytes]
  refine Memory.guarded_within.bind_free fun _ _ _ => guarded_ok ⟨rfl, ?_⟩
  exact Memory.put_bytes_self

end

section

variable {s s' : State} {output input : Region} {iv : Pointer} {key : Option Bytes} {length : Nat}
  {charSigned : Bool} {initData : UInt8} {r : Int}

/-- A call that ends has the result of the call on whole buffers, and leaves the same output. -/
theorem decryptBuffer2_refines (hne : output ≠ input) (hiv : iv.region ≠ output)
    (hfits : iv.off + 16 ≤ s.mem.size iv.region)
    (hrun : mdsApiAesCbcDecryptBuffer2 charSigned s output input length key (some iv) initData =
      .ok (r, s')) :
    let dec := Aes.mdsApiAesCbcDecryptBuffer2 charSigned s.globals (s.mem.bytes output)
      (s.mem.bytes input) length key (some (bytesAt s.mem iv)) initData
    r = dec.1 ∧ s'.mem.bytes output = dec.2.2 :=
  (guarded_mdsApiAesCbcDecryptBuffer2 hne hiv hfits).post_of_eq hrun

end

/-- A caller of the decryption: `length` bytes of input, and room for one byte more in the
output. -/
def decryptCaller (aes : Globals) (oldIv : Pointer) (output input iv : Bytes) (length : Nat) :
    State where
  globals := aes
  mem :=
    { size := fun region => match region with
        | .callerInput => length
        | .callerOutput => length + 1
        | .callerIv => blocklen
        | _ => 0
      bytes := fun region => match region with
        | .callerInput => input
        | .callerOutput => output
        | .callerIv => iv
        | _ => fun _ => 0 }
  iv := oldIv

end InMemory

/-- The call touches nothing outside the buffers of its caller, and the text it leaves ends where
its result says. -/
def EndsText (charSigned : Bool) (aes : Globals) (oldIv : InMemory.Pointer) (type : Int)
    (key iv : Bytes) (initData : UInt8) (output input : Bytes) (length : Nat) : Prop :=
  ∃ r s, InMemory.mdsApiAesCbcDecryptBuffer2 charSigned
      (InMemory.decryptCaller (mdsApiAesInit aes type) oldIv output input iv length) .callerOutput
      .callerInput length (some key) (some ⟨.callerIv, 0⟩) initData = .ok (r, s) ∧
    0 ≤ r ∧ r ≤ length ∧ s.mem.bytes .callerOutput r.toNat = 0

section

variable {charSigned : Bool} {aes : Globals} {oldIv : InMemory.Pointer} {type : Int}
  {key iv output input : Bytes} {initData : UInt8} {length last : Nat}

/-- What is decrypted of the caller's input. -/
theorem decrypted_caller :
    InMemory.decrypted
        (InMemory.decryptCaller (mdsApiAesInit aes type) oldIv output input iv length) .callerOutput
        .callerInput length (some key) ⟨.callerIv, 0⟩ =
      (mdsApiAesCbcDecryptBuffer (mdsApiAesInit aes type) output input length (some key)
        (some iv)).2.output := by
  unfold InMemory.decrypted
  rw [InMemory.bytesAt_zero]
  rfl

/-- The loop and the rest stay within the caller's input only when it is whole blocks. -/
theorem fits_caller {i : Nat} (hi : i ≤ length) :
    (InMemory.Fits (InMemory.decryptCaller aes oldIv output input iv length).mem .callerOutput
        .callerInput length ∧ length ≤ length + 1 ∧ length - i + 1 + 1 ≤ length + 1) ↔
      16 ∣ length ∧ 0 < i := by
  have hcount : passCount length = (length + 15) / 16 := rfl
  unfold InMemory.Fits
  rw [hcount]
  change ((_ ≤ length ∧ _ ≤ length + 1) ∧ (_ → _ ≤ length ∧ _ ≤ length + 1)) ∧ _ ↔ _
  omega

/-- The caller's call ends when its input is whole blocks and something is stripped; the byte at
its result is then the pad. -/
theorem guarded_decryptCaller (hpad : initData.toNat < 128) :
    let i := stripLoop (mdsApiAesCbcDecryptBuffer (mdsApiAesInit aes type) output input length
      (some key) (some iv)).2.output initData.toNat length
    Guarded (16 ∣ length ∧ 0 < i)
      (InMemory.mdsApiAesCbcDecryptBuffer2 charSigned
        (InMemory.decryptCaller (mdsApiAesInit aes type) oldIv output input iv length) .callerOutput
        .callerInput length (some key) (some ⟨.callerIv, 0⟩) initData)
      fun result => result.1 = (length - i : Nat) ∧
        (0 < i → result.2.mem.bytes .callerOutput result.1.toNat = initData) := by
  have hchar : charValue charSigned initData = initData.toNat :=
    (charValue_eq_iff charSigned initData).mpr (Or.inr hpad)
  have hcall := @InMemory.guarded_mdsApiAesCbcDecryptBuffer2
    (InMemory.decryptCaller (mdsApiAesInit aes type) oldIv output input iv length) .callerOutput
    .callerInput ⟨.callerIv, 0⟩ (some key) length charSigned initData (by decide) (by decide)
    (Nat.le_refl 16)
  rw [decrypted_caller, hchar] at hcall
  dsimp only at hcall ⊢
  generalize (mdsApiAesCbcDecryptBuffer (mdsApiAesInit aes type) output input length (some key)
    (some iv)).2.output = plain at hcall ⊢
  have hle : stripLoop plain initData.toNat length ≤ length := stripLoop_le
  refine (hcall.congr (fits_caller hle)).weaken ?_
  rintro ⟨r, s⟩ ⟨hr, hbytes⟩
  dsimp only at hr hbytes ⊢
  have hindex : r = (length - stripLoop plain initData.toNat length : Nat) := by omega
  refine ⟨hindex, fun hpos => ?_⟩
  rw [hbytes, hindex, Int.toNat_natCast,
    Function.update_of_ne (Nat.ne_of_lt (Nat.lt_succ_self _))]
  exact UInt8.toNat_inj.mp (Int.ofNat_inj.mp (stripLoop_first hpos))

/-- The text ends where the result says when the input is whole blocks, something is stripped,
and what is stripped is NULs. -/
theorem endsText_iff_strip (hpad : initData.toNat < 128) :
    EndsText charSigned aes oldIv type key iv initData output input length ↔
      16 ∣ length ∧ initData = 0 ∧
        0 < stripLoop (mdsApiAesCbcDecryptBuffer (mdsApiAesInit aes type) output input length
          (some key) (some iv)).2.output initData.toNat length := by
  have hcall := @guarded_decryptCaller charSigned aes oldIv type key iv output input initData length
    hpad
  dsimp only at hcall
  constructor
  · rintro ⟨r, s, hrun, -, -, hend⟩
    obtain ⟨hwhole, hpos⟩ := hcall.of_runs ⟨_, hrun⟩
    have hpadded := (hcall.post_of_eq hrun).2 hpos
    exact ⟨hwhole, hpadded.symm.trans hend, hpos⟩
  · rintro ⟨hwhole, hzero, hpos⟩
    obtain ⟨⟨r, s⟩, hrun, hr, hpadded⟩ := hcall.ends ⟨hwhole, hpos⟩
    dsimp only at hr
    exact ⟨r, s, hrun, by omega, by omega, (hpadded hpos).trans hzero⟩

end

/-- The decrypted text ends where the result says, and within the caller's buffers, exactly when
the ciphertext is whole blocks, the pad is NUL, and the last byte that is decrypted is a pad. -/
theorem decryptBuffer2_endsText_iff (charSigned : Bool) (aes : Globals) (oldIv : InMemory.Pointer)
    (type : Int) (key iv : Bytes) (initData : UInt8) (output input : Bytes) (length : Nat)
    (hlength : 1 ≤ length) (hpad : initData.toNat < 128) :
    EndsText charSigned aes oldIv type key iv initData output input length ↔
      16 ∣ length ∧ initData = 0 ∧
        EndsInZero (AesType.ofInt type) key iv input (length / 16 - 1) := by
  rw [endsText_iff_strip hpad]
  refine and_congr_right fun hwhole => and_congr_right fun hzero => ?_
  subst hzero
  obtain ⟨blocks, rfl⟩ := hwhole
  obtain ⟨last, rfl⟩ := Nat.exists_eq_add_of_lt (Nat.pos_of_mul_pos_left hlength)
  have hlast : 16 * (0 + last + 1) = 16 * (last + 1) := by omega
  have hindex : 16 * (last + 1) / 16 - 1 = last := by omega
  rw [hlast, hindex, ← decrypt_last_eq_zero_iff]
  refine (@stripLoop_pos_iff _ _ (16 * last + 15)).trans ?_
  rw [Int.ofNat_inj, UInt8.toNat_inj]

/-- A block whose last byte deciphers to NUL, with NUL as the pad. -/
theorem decryptBuffer2_endsText_zeroPad :
    EndsText true Globals.boot ⟨.callerIv, 0⟩ 0 (fun _ => 0) (fun _ => 0x3a) 0 (fun _ => 0)
      (fun _ => 0) 16 :=
  (decryptBuffer2_endsText_iff _ _ _ _ _ _ _ _ _ _ (by decide) (by decide)).mpr
    ⟨by decide, rfl, by unfold EndsInZero; decide +kernel⟩

/-- One block without a pad, under the pad of the test application: the NUL is written at 17. -/
theorem decryptBuffer2_endsText_noPad :
    ¬ EndsText true Globals.boot ⟨.callerIv, 0⟩ 0 (fun _ => 0) (fun _ => 0) 8 (fun _ => 0)
      (fun _ => 0) 16 := by
  rw [endsText_iff_strip (by decide)]
  rintro ⟨-, hpad, -⟩
  exact absurd hpad (by decide)

end MdsFormal.Crypto.Aes
