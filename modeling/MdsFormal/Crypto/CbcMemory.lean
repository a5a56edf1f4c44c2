import MdsFormal.Crypto.EcbBlocks
import MdsFormal.Crypto.Padding
import MdsFormal.Library.Regions

/-!
# The CBC functions in memory

The same functions over regions of memory, where each access is within its region or a
fault, and `Iv` is a pointer.  On separate buffers they compute what they do on whole
buffers, and change nothing else.
-/

namespace MdsFormal.Crypto.Aes.InMemory

open Library.Faults Library.Regions

/-- The buffers of a caller, and those that the functions have of their own. -/
inductive Region where
  | callerInput
  | callerOutput
  | callerIv
  | inputDataBuff
  | outputDataBuff
deriving DecidableEq, Repr

structure Pointer where
  region : Region
  off : Nat

/-- The globals and the memory.  `iv` is the pointer `Iv`, instead of the block in `globals`. -/
structure State where
  globals : Globals
  mem : Memory Region
  iv : Pointer

/-! ## Access to memory -/

/-- `memcpy(dst + off, src + srcOff, n)`. -/
def memcpy (mem : Memory Region) (dst : Region) (off : Nat) (src : Region) (srcOff n : Nat) :
    Except Region (Memory Region) := do
  mem.within src srcOff n
  mem.within dst off n
  return mem.put dst (Bytes.copy (mem.bytes dst) off (mem.bytes src) srcOff n)

/-- `memset(dst, value, n)`. -/
def memset (mem : Memory Region) (dst : Region) (value : UInt8) (n : Nat) :
    Except Region (Memory Region) := do
  mem.within dst 0 n
  return mem.put dst (Bytes.fill (mem.bytes dst) value n)

/-- `XorWithIv(buf + off)`. -/
def xorWithIv (mem : Memory Region) (iv : Pointer) (buf : Region) (off : Nat) :
    Except Region (Memory Region) := do
  mem.within iv.region iv.off blocklen
  mem.within buf off blocklen
  let mixed := Bytes.block (mem.bytes buf) off ^^^ Bytes.block (mem.bytes iv.region) iv.off
  return mem.put buf (Bytes.setBlock (mem.bytes buf) off mixed)

/-- `state = (state_t *)(buf + off);` and `Cipher()` or `InvCipher()`. -/
def transformState (transform : Block → Block) (mem : Memory Region) (buf : Region) (off : Nat) :
    Except Region (Memory Region) := do
  mem.within buf off blocklen
  let transformed := transform (Bytes.block (mem.bytes buf) off)
  return mem.put buf (Bytes.setBlock (mem.bytes buf) off transformed)

section

variable {mem : Memory Region} {dst src buf : Region} {iv : Pointer} {off srcOff n : Nat}
  {value : UInt8} {transform : Block → Block}

theorem guarded_memcpy :
    Guarded (srcOff + n ≤ mem.size src ∧ off + n ≤ mem.size dst)
      (memcpy mem dst off src srcOff n)
      (· = mem.put dst (Bytes.copy (mem.bytes dst) off (mem.bytes src) srcOff n)) :=
  Memory.guarded_within.bind fun _ _ _ =>
    Memory.guarded_within.bind_free fun _ _ _ => guarded_ok rfl

theorem guarded_memset :
    Guarded (n ≤ mem.size dst) (memset mem dst value n)
      (· = mem.put dst (Bytes.fill (mem.bytes dst) value n)) :=
  Guarded.congr (by rw [Nat.zero_add])
    (Memory.guarded_within.bind_free fun _ _ _ => guarded_ok rfl)

theorem guarded_xorWithIv :
    Guarded (iv.off + 16 ≤ mem.size iv.region ∧ off + 16 ≤ mem.size buf)
      (xorWithIv mem iv buf off)
      (· = mem.put buf (Bytes.setBlock (mem.bytes buf) off
        (Bytes.block (mem.bytes buf) off ^^^ Bytes.block (mem.bytes iv.region) iv.off))) :=
  Memory.guarded_within.bind fun _ _ _ =>
    Memory.guarded_within.bind_free fun _ _ _ => guarded_ok rfl

theorem guarded_transformState :
    Guarded (off + 16 ≤ mem.size buf) (transformState transform mem buf off)
      (· = mem.put buf (Bytes.setBlock (mem.bytes buf) off
        (transform (Bytes.block (mem.bytes buf) off)))) :=
  Memory.guarded_within.bind_free fun _ _ _ => guarded_ok rfl

end

/-! ## CBC -/

/-- One pass of the encryption loop. -/
def encryptPass (output input : Region) (s : State) (off : Nat) : Except Region State := do
  let mem ← xorWithIv s.mem s.iv input off
  let mem ← memcpy mem output off input off blocklen
  let mem ← transformState (cipher s.globals.nr s.globals.roundKey) mem output off
  return { s with mem := mem, iv := ⟨output, off⟩ }

/-- One pass of the decryption loop. -/
def decryptPass (output input : Region) (s : State) (off : Nat) : Except Region State := do
  let mem ← memcpy s.mem output off input off blocklen
  let mem ← transformState (invCipher s.globals.nr s.globals.roundKey) mem output off
  let mem ← xorWithIv mem s.iv output off
  return { s with mem := mem, iv := ⟨input, off⟩ }

/-- What the two CBC functions start with; a key or an iv of 0 leaves what is there. -/
def State.prepare (s : State) (key : Option Bytes) (iv : Option Pointer) : State :=
  let s := match key with
    | none => s
    | some key => { s with globals := s.globals.setKey key }
  match iv with
  | none => s
  | some iv => { s with iv := iv }

/-- What the two CBC functions share: the key and the iv, the loop, and the rest. -/
def cbcBuffer (pass : Region → Region → State → Nat → Except Region State)
    (transform : Globals → Block → Block) (s : State) (output input : Region) (length : Nat)
    (key : Option Bytes) (iv : Option Pointer) : Except Region State := do
  let extra := length % blocklen
  let off := passCount length * blocklen
  let s ← loop (fun i s => pass output input s (i * blocklen)) (passCount length) 0
    (s.prepare key iv)
  if extra ≠ 0 then
    let mem ← memcpy s.mem output off input off extra
    let mem ← transformState (transform s.globals) mem output off
    return { s with mem := mem }
  else
    return s

/-- `mds_api_AES_CBC_encrypt_buffer`. -/
def mdsApiAesCbcEncryptBuffer : State → Region → Region → Nat → Option Bytes → Option Pointer →
    Except Region State :=
  cbcBuffer encryptPass fun globals => cipher globals.nr globals.roundKey

/-- `mds_api_AES_CBC_decrypt_buffer`. -/
def mdsApiAesCbcDecryptBuffer : State → Region → Region → Nat → Option Bytes → Option Pointer →
    Except Region State :=
  cbcBuffer decryptPass fun globals => invCipher globals.nr globals.roundKey

/-! ## CBC with padding -/

/-- `mds_api_AES_input_buff_init`: the length to encrypt, and the memory. -/
def mdsApiAesInputBuffInit (mem : Memory Region) (inBuff : Region) (inBuffSize : Nat)
    (encryptTarget : Region) (encryptTargetLen : Nat) (initField : UInt8) :
    Except Region (Nat × Memory Region) := do
  let encryptBuffLen := mdsApiAesInputBuffGetSize encryptTargetLen
  let mem ← memset mem inBuff initField inBuffSize
  let mem ← memcpy mem inBuff 0 encryptTarget 0 encryptTargetLen
  return (encryptBuffLen, mem)

/-- `mds_api_AES_input_buff_init_and_malloc`, where `malloc` gives `inBuff` with `fresh` in it. -/
def mdsApiAesInputBuffInitAndMalloc (mem : Memory Region) (inBuff : Region) (fresh : Bytes)
    (encryptTarget : Region) (encryptTargetLen : Nat) (initField : UInt8) :
    Except Region (Nat × Memory Region) := do
  let encryptBuffLen := mdsApiAesInputBuffGetSize encryptTargetLen
  let mem := mem.alloc inBuff encryptBuffLen fresh
  let mem ← memset mem inBuff initField encryptBuffLen
  let mem ← memcpy mem inBuff 0 encryptTarget 0 encryptTargetLen
  return (encryptBuffLen, mem)

/-- `mds_api_AES_CBC_encrypt_buffer2`, with `input_data_buff` on the stack. -/
def mdsApiAesCbcEncryptBuffer2 (s : State) (output input : Region) (length : Nat)
    (key : Option Bytes) (iv : Option Pointer) (initData : UInt8) :
    Except Region (Int × State) :=
  if length > encryptApi2MaxSupportBuffSize - blocklen then .ok (-1, s)
  else do
    let mem := s.mem.alloc .inputDataBuff encryptApi2MaxSupportBuffSize fun _ => 0
    let (encryptTargetLen, mem) ← mdsApiAesInputBuffInit mem .inputDataBuff
      encryptApi2MaxSupportBuffSize input length initData
    let s ← mdsApiAesCbcEncryptBuffer { s with mem := mem } output .inputDataBuff
      encryptTargetLen key iv
    return (encryptTargetLen, { s with mem := s.mem.free .inputDataBuff })

/-- `mds_api_AES_CBC_encrypt_buffer2_malloc`, where each `malloc` succeeds and gives a region with
`freshInput` or `freshOutput` in it.  The second part is `*output`. -/
def mdsApiAesCbcEncryptBuffer2Malloc (s : State) (freshInput freshOutput : Bytes) (input : Region)
    (length : Nat) (key : Option Bytes) (iv : Option Pointer) (initData : UInt8) :
    Except Region (Int × Region × State) := do
  let (encryptTargetLen, mem) ← mdsApiAesInputBuffInitAndMalloc s.mem .inputDataBuff freshInput
    input length initData
  let mem := mem.alloc .outputDataBuff encryptTargetLen freshOutput
  let s ← mdsApiAesCbcEncryptBuffer { s with mem := mem } .outputDataBuff .inputDataBuff
    encryptTargetLen key iv
  return (encryptTargetLen, .outputDataBuff, { s with mem := s.mem.free .inputDataBuff })

/-- The loop of `mds_api_AES_CBC_decrypt_buffer2`. -/
def stripLoop (mem : Memory Region) (output : Region) (initData : Int) : Nat → Except Region Nat
  | 0 => return 0
  | left + 1 => do
      mem.within output left 1
      if (mem.bytes output left).toNat ≠ initData then
        return 0
      else
        let i ← stripLoop mem output initData left
        return i + 1

/-- `mds_api_AES_CBC_decrypt_buffer2`. -/
def mdsApiAesCbcDecryptBuffer2 (charSigned : Bool) (s : State) (output input : Region)
    (length : Nat) (key : Option Bytes) (iv : Option Pointer) (initData : UInt8) :
    Except Region (Int × State) := do
  let s ← mdsApiAesCbcDecryptBuffer s output input length key iv
  let i ← stripLoop s.mem output (charValue charSigned initData) length
  s.mem.within output (length - i + 1) 1
  let ended := Function.update (s.mem.bytes output) (length - i + 1) 0
  return (length - i, { s with mem := s.mem.put output ended })

/-! ## Separate buffers -/

/-- The memory with these bytes in the two buffers of a call. -/
def withBuffers (base : Memory Region) (output input : Region) (outputBytes inputBytes : Bytes) :
    Memory Region :=
  (base.put output outputBytes).put input inputBytes

/-- The state is that of the whole buffers in `chain`, with `Iv` at a block that the pass at `off`
and those behind it do not write. -/
structure Holds (base : Memory Region) (output input : Region) (globals : Globals) (off : Nat)
    (s : State) (chain : Chain) : Prop where
  globals_eq : s.globals = globals
  mem_eq : s.mem = withBuffers base output input chain.output chain.input
  iv_fits : s.iv.off + 16 ≤ base.size s.iv.region
  iv_block : Bytes.block (s.mem.bytes s.iv.region) s.iv.off = chain.iv
  iv_behind : s.iv.region = output → s.iv.off + 16 ≤ off

section

variable {base : Memory Region} {output input region : Region} {o i o' i' : Bytes} {iv : Pointer}
  {off n : Nat} {b : Block} {transform : Block → Block} {globals : Globals} {s : State}
  {chain : Chain}

@[simp]
theorem withBuffers_size : (withBuffers base output input o i).size = base.size := rfl

@[simp]
theorem withBuffers_bytes_input : (withBuffers base output input o i).bytes input = i :=
  Memory.put_bytes_self

theorem withBuffers_bytes_output (hne : output ≠ input) :
    (withBuffers base output input o i).bytes output = o :=
  (Memory.put_bytes_ne hne).trans Memory.put_bytes_self

theorem withBuffers_bytes_ne (houtput : region ≠ output) (hinput : region ≠ input) :
    (withBuffers base output input o i).bytes region = base.bytes region :=
  (Memory.put_bytes_ne hinput).trans (Memory.put_bytes_ne houtput)

theorem withBuffers_put_input :
    (withBuffers base output input o i).put input i' = withBuffers base output input o i' :=
  Memory.put_put

theorem withBuffers_put_output (hne : output ≠ input) :
    (withBuffers base output input o i).put output o' = withBuffers base output input o' i := by
  unfold withBuffers
  rw [Memory.put_comm hne.symm, Memory.put_put]

theorem guarded_memcpy_buffers (hne : output ≠ input) :
    Guarded (off + n ≤ base.size input ∧ off + n ≤ base.size output)
      (memcpy (withBuffers base output input o i) output off input off n)
      (· = withBuffers base output input (o.copy off i off n) i) := by
  have hcopy := @guarded_memcpy (withBuffers base output input o i) output input off off n
  rwa [withBuffers_put_output hne, withBuffers_bytes_output hne, withBuffers_bytes_input] at hcopy

theorem guarded_transformState_buffers (hne : output ≠ input) :
    Guarded (off + 16 ≤ base.size output)
      (transformState transform (withBuffers base output input o i) output off)
      (· = withBuffers base output input (o.setBlock off (transform (o.block off))) i) := by
  have hstate := @guarded_transformState (withBuffers base output input o i) output off transform
  rwa [withBuffers_put_output hne, withBuffers_bytes_output hne] at hstate

theorem guarded_xorWithIv_input (hfits : iv.off + 16 ≤ base.size iv.region)
    (hblock : Bytes.block ((withBuffers base output input o i).bytes iv.region) iv.off = b) :
    Guarded (off + 16 ≤ base.size input)
      (xorWithIv (withBuffers base output input o i) iv input off)
      (· = withBuffers base output input o (i.setBlock off (i.block off ^^^ b))) := by
  have hxor := @guarded_xorWithIv (withBuffers base output input o i) input iv off
  rw [hblock, withBuffers_put_input, withBuffers_bytes_input] at hxor
  exact hxor.congr (and_iff_right hfits)

theorem guarded_xorWithIv_output (hne : output ≠ input)
    (hfits : iv.off + 16 ≤ base.size iv.region)
    (hblock : Bytes.block ((withBuffers base output input o i).bytes iv.region) iv.off = b) :
    Guarded (off + 16 ≤ base.size output)
      (xorWithIv (withBuffers base output input o i) iv output off)
      (· = withBuffers base output input (o.setBlock off (o.block off ^^^ b)) i) := by
  have hxor := @guarded_xorWithIv (withBuffers base output input o i) output iv off
  rw [hblock, withBuffers_put_output hne, withBuffers_bytes_output hne] at hxor
  exact hxor.congr (and_iff_right hfits)

/-- Output from `off` on does not reach the block that `Iv` points at. -/
theorem iv_block_congr (hne : output ≠ input) (hbehind : iv.region = output → iv.off + 16 ≤ off)
    (hsame : ∀ a < off, o' a = o a) :
    Bytes.block ((withBuffers base output input o' i).bytes iv.region) iv.off =
      Bytes.block ((withBuffers base output input o i).bytes iv.region) iv.off := by
  by_cases houtput : iv.region = output
  · rw [houtput, withBuffers_bytes_output hne, withBuffers_bytes_output hne]
    exact Bytes.block_congr fun a _ hhigh => hsame a (by have := hbehind houtput; omega)
  · by_cases hinput : iv.region = input
    · rw [hinput, withBuffers_bytes_input, withBuffers_bytes_input]
    · rw [withBuffers_bytes_ne houtput hinput, withBuffers_bytes_ne houtput hinput]

/-! ## The loop -/

/-- A pass reads the block that `Iv` points at before it writes, so that it may write there. -/
theorem guarded_encryptPass_of_block (hne : output ≠ input) (hglobals : s.globals = globals)
    (hmem : s.mem = withBuffers base output input chain.output chain.input)
    (hfits : s.iv.off + 16 ≤ base.size s.iv.region)
    (hblock : Bytes.block (s.mem.bytes s.iv.region) s.iv.off = chain.iv) :
    Guarded (off + 16 ≤ base.size input ∧ off + 16 ≤ base.size output)
      (encryptPass output input s off)
      (Holds base output input globals (off + 16) ·
        (Aes.encryptPass globals.nr globals.roundKey chain off)) := by
  rw [hmem] at hblock
  unfold encryptPass
  rw [hmem, hglobals]
  refine Guarded.congr ⟨And.right, fun hboth => ⟨hboth.1, hboth⟩⟩
    ((guarded_xorWithIv_input hfits hblock).bind ?_)
  rintro - mem rfl
  refine (guarded_memcpy_buffers hne).bind_free ?_
  rintro ⟨-, hfitsOutput⟩ mem rfl
  refine Guarded.congr (iff_true_intro hfitsOutput)
    ((guarded_transformState_buffers hne).bind_free ?_)
  rintro - mem rfl
  refine guarded_ok ⟨rfl, rfl, hfitsOutput, ?_, fun _ => Nat.le_refl _⟩
  rw [withBuffers_bytes_output hne]
  rfl

theorem guarded_encryptPass (hne : output ≠ input)
    (hs : Holds base output input globals off s chain) :
    Guarded (off + 16 ≤ base.size input ∧ off + 16 ≤ base.size output)
      (encryptPass output input s off)
      (Holds base output input globals (off + 16) ·
        (Aes.encryptPass globals.nr globals.roundKey chain off)) := by
  obtain ⟨hglobals, hmem, hfits, hblock, -⟩ := hs
  exact guarded_encryptPass_of_block hne hglobals hmem hfits hblock

theorem guarded_decryptPass (hne : output ≠ input)
    (hs : Holds base output input globals off s chain) :
    Guarded (off + 16 ≤ base.size input ∧ off + 16 ≤ base.size output)
      (decryptPass output input s off)
      (Holds base output input globals (off + 16) ·
        (Aes.decryptPass globals.nr globals.roundKey chain off)) := by
  obtain ⟨hglobals, hmem, hfits, hblock, hbehind⟩ := hs
  rw [hmem] at hblock
  have hkept : ∀ a < off,
      copyThen (invCipher globals.nr globals.roundKey) chain off blocklen a = chain.output a :=
    fun a ha => copyThen_outside (Or.inl ha) (Nat.le_refl 16)
  unfold decryptPass
  rw [hmem, hglobals]
  refine (guarded_memcpy_buffers hne).bind_free ?_
  rintro ⟨hfitsInput, hfitsOutput⟩ mem rfl
  refine Guarded.congr (iff_true_intro hfitsOutput)
    ((guarded_transformState_buffers hne).bind_free ?_)
  rintro - mem rfl
  refine Guarded.congr (iff_true_intro hfitsOutput)
    ((guarded_xorWithIv_output hne hfits
      ((iv_block_congr hne hbehind hkept).trans hblock)).bind_free ?_)
  rintro - mem rfl
  refine guarded_ok ⟨rfl, rfl, hfitsInput, ?_, fun heq => absurd heq.symm hne⟩
  rw [withBuffers_bytes_input]
  rfl

/-- What the loop and the rest touch is in the two buffers. -/
def Fits (mem : Memory Region) (output input : Region) (length : Nat) : Prop :=
  (16 * passCount length ≤ mem.size input ∧ 16 * passCount length ≤ mem.size output) ∧
    (length % 16 ≠ 0 →
      16 * passCount length + length % 16 ≤ mem.size input ∧
        16 * passCount length + 16 ≤ mem.size output)

/-- What is left of the length behind the loop. -/
def cipherRest (transform : Block → Block) (length : Nat) (chain : Chain) : Chain :=
  if length % blocklen ≠ 0 then
    { chain with
      output := copyThen transform chain (passCount length * blocklen) (length % blocklen) }
  else chain

variable {passIn : Region → Region → State → Nat → Except Region State}
  {pass : Chain → Nat → Chain}

theorem passes_snoc (pass : Chain → Nat → Chain) (count off : Nat) (chain : Chain) :
    passes pass (count + 1) off chain = pass (passes pass count off chain) (off + 16 * count) := by
  induction count generalizing off chain with
  | zero => rfl
  | succ count ih =>
      have hoff : off + 16 + 16 * count = off + 16 * (count + 1) := by omega
      rw [passes_succ, ih, passes_succ, hoff]

theorem guarded_passes
    (hpass : ∀ off s chain, Holds base output input globals off s chain →
      Guarded (off + 16 ≤ base.size input ∧ off + 16 ≤ base.size output) (passIn output input s off)
        (Holds base output input globals (off + 16) · (pass chain off)))
    (hs : Holds base output input globals 0 s chain) (count : Nat) :
    Guarded (16 * count ≤ base.size input ∧ 16 * count ≤ base.size output)
      (loop (fun i s => passIn output input s (i * blocklen)) count 0 s)
      (Holds base output input globals (16 * count) · (passes pass count 0 chain)) := by
  have hturn : ∀ k s, Holds base output input globals (16 * k) s (passes pass k 0 chain) →
      Guarded (16 * k + 16 ≤ base.size input ∧ 16 * k + 16 ≤ base.size output)
        (passIn output input s (k * blocklen))
        (Holds base output input globals (16 * (k + 1)) · (passes pass (k + 1) 0 chain)) := by
    intro k s hk
    have hoff : k * blocklen = 16 * k := Nat.mul_comm k 16
    rw [hoff, passes_snoc, Nat.zero_add]
    exact hpass (16 * k) s _ hk
  have hloop := guarded_loop hturn count 0 hs
  rw [Nat.zero_add] at hloop
  refine hloop.congr ⟨fun hall => ?_, fun hfits k _ hk => by omega⟩
  cases count with
  | zero => exact ⟨Nat.zero_le _, Nat.zero_le _⟩
  | succ count =>
      have hlast := hall count (Nat.zero_le count) (by omega)
      omega

/-- Some bytes copied and a block transformed, as behind the loop. -/
theorem guarded_rest (hne : output ≠ input) (hn : n ≤ 16)
    (hs : Holds base output input globals off s chain) :
    Guarded (off + n ≤ base.size input ∧ off + 16 ≤ base.size output)
      (do
        let mem ← memcpy s.mem output off input off n
        let mem ← transformState transform mem output off
        return { s with mem := mem })
      (Holds base output input globals off ·
        { chain with output := copyThen transform chain off n }) := by
  obtain ⟨hglobals, hmem, hfits, hblock, hbehind⟩ := hs
  rw [hmem] at hblock
  have hkept : ∀ a < off, copyThen transform chain off n a = chain.output a :=
    fun a ha => copyThen_outside (Or.inl ha) hn
  have hneeds : ((off + n ≤ base.size input ∧ off + n ≤ base.size output) ∧
      off + 16 ≤ base.size output) ↔ off + n ≤ base.size input ∧ off + 16 ≤ base.size output := by
    omega
  rw [hmem]
  refine Guarded.congr hneeds ((guarded_memcpy_buffers hne).bind ?_)
  rintro - mem rfl
  refine (guarded_transformState_buffers hne).bind_free ?_
  rintro - mem rfl
  exact guarded_ok ⟨hglobals, rfl, hfits,
    (iv_block_congr hne hbehind hkept).trans hblock, hbehind⟩

theorem guarded_cbcBuffer {key : Option Bytes} {ivPointer : Option Pointer} {length : Nat}
    {transform : Globals → Block → Block} (hne : output ≠ input)
    (hpass : ∀ off s chain, Holds base output input globals off s chain →
      Guarded (off + 16 ≤ base.size input ∧ off + 16 ≤ base.size output) (passIn output input s off)
        (Holds base output input globals (off + 16) · (pass chain off)))
    (hs : Holds base output input globals 0 (s.prepare key ivPointer) chain) :
    Guarded (Fits base output input length)
      (cbcBuffer passIn transform s output input length key ivPointer)
      (Holds base output input globals (16 * passCount length) ·
        (cipherRest (transform globals) length (passes pass (passCount length) 0 chain))) := by
  unfold cbcBuffer cipherRest
  refine (guarded_passes hpass hs (passCount length)).bind fun _ s' hs' => ?_
  have hoff : passCount length * blocklen = 16 * passCount length := Nat.mul_comm _ 16
  rw [hoff]
  split
  · rename_i hextra
    have hn : length % blocklen ≤ 16 := Nat.le_of_lt (Nat.mod_lt _ (by decide))
    have hrest := @guarded_rest base output input (16 * passCount length) (length % blocklen)
      (transform globals) globals s' _ hne hn hs'
    rw [← hs'.globals_eq] at hrest ⊢
    exact hrest.congr ⟨fun hfits _ => hfits, fun hfits => hfits hextra⟩
  · rename_i hextra
    refine Guarded.congr (iff_of_true trivial fun h => absurd h hextra) (guarded_ok ?_)
    exact hs'

end

/-! ## The two functions -/

section

variable {s : State} {output input : Region} {iv : Pointer} {key : Option Bytes} {length : Nat}

/-- The bytes from a pointer on. -/
def bytesAt (mem : Memory Region) (p : Pointer) : Bytes := fun a => mem.bytes p.region (p.off + a)

theorem bytesAt_zero {mem : Memory Region} {region : Region} :
    bytesAt mem ⟨region, 0⟩ = mem.bytes region :=
  funext fun a => congrArg (mem.bytes region) (Nat.zero_add a)

/-- A call starts with the whole buffers that are in memory. -/
theorem holds_prepare (hne : iv.region ≠ output) (hfits : iv.off + 16 ≤ s.mem.size iv.region) :
    Holds s.mem output input (s.prepare key (some iv)).globals 0 (s.prepare key (some iv))
      ⟨s.mem.bytes output, s.mem.bytes input,
        (s.globals.prepare key (some (bytesAt s.mem iv))).iv⟩ := by
  have hmem : (s.prepare key (some iv)).mem = s.mem := by cases key <;> rfl
  have hiv : (s.prepare key (some iv)).iv = iv := by cases key <;> rfl
  refine ⟨rfl, ?_, ?_, ?_, fun heq => ?_⟩
  · rw [hmem, withBuffers, Memory.put_self, Memory.put_self]
  · rwa [hiv]
  · rw [hmem, hiv]
    rfl
  · rw [hiv] at heq
    exact absurd heq hne

/-- With separate buffers the function ends when all it touches is in them, and leaves there what
it leaves in whole buffers. -/
theorem guarded_mdsApiAesCbcEncryptBuffer (hne : output ≠ input) (hiv : iv.region ≠ output)
    (hfits : iv.off + 16 ≤ s.mem.size iv.region) :
    Guarded (Fits s.mem output input length)
      (mdsApiAesCbcEncryptBuffer s output input length key (some iv))
      (Holds s.mem output input (s.prepare key (some iv)).globals (16 * passCount length) ·
        (Aes.mdsApiAesCbcEncryptBuffer s.globals (s.mem.bytes output) (s.mem.bytes input) length key
          (some (bytesAt s.mem iv))).2) := by
  have hcall := @guarded_cbcBuffer _ _ _ _ _ _ _ _ key (some iv) length
    (fun globals => cipher globals.nr globals.roundKey) hne
    (fun _ _ _ hs => guarded_encryptPass hne hs) (holds_prepare hiv hfits)
  cases key <;> exact hcall

theorem guarded_mdsApiAesCbcDecryptBuffer (hne : output ≠ input) (hiv : iv.region ≠ output)
    (hfits : iv.off + 16 ≤ s.mem.size iv.region) :
    Guarded (Fits s.mem output input length)
      (mdsApiAesCbcDecryptBuffer s output input length key (some iv))
      (Holds s.mem output input (s.prepare key (some iv)).globals (16 * passCount length) ·
        (Aes.mdsApiAesCbcDecryptBuffer s.globals (s.mem.bytes output) (s.mem.bytes input) length key
          (some (bytesAt s.mem iv))).2) := by
  have hcall := @guarded_cbcBuffer _ _ _ _ _ _ _ _ key (some iv) length
    (fun globals => invCipher globals.nr globals.roundKey) hne
    (fun _ _ _ hs => guarded_decryptPass hne hs) (holds_prepare hiv hfits)
  cases key <;> exact hcall

end

end MdsFormal.Crypto.Aes.InMemory
