import MdsFormal.Crypto.DecryptBounds

/-!
# CBC over several calls

A key and an iv of 0 let a call go on where the one before it ended.  `Iv` then points
into a buffer of the caller: behind encryption into the output, behind decryption into the
input, which the caller has filled with the next chunk by then.
-/

namespace MdsFormal.Crypto.Aes.InMemory

open Library.BlockChain Library.Faults Library.Regions

/-! ## The caller -/

/-- The source's signature of the two CBC functions. -/
abbrev CbcCall := State → Region → Region → Nat → Option Bytes → Option Pointer →
  Except Region State

/-- A chunk of data, of `more + 1` blocks. -/
structure Chunk where
  bytes : Bytes
  more : Nat

def Chunk.blocks (chunk : Chunk) : List Block := chunk.bytes.blocks (chunk.more + 1) 0

/-- Data from `off` on, cut at block boundaries. -/
def chunksOf (data : Bytes) : Nat → List Nat → List Chunk
  | _, [] => []
  | off, more :: rest =>
      ⟨fun a => data (off + a), more⟩ :: chunksOf data (off + 16 * (more + 1)) rest

/-- How many blocks the chunks have. -/
def blockCount : List Nat → Nat
  | [] => 0
  | more :: mores => more + 1 + blockCount mores

/-- The caller puts a chunk at the front of its input buffer. -/
def State.refill (s : State) (chunk : Chunk) : State :=
  let bytes := Bytes.copy (s.mem.bytes .callerInput) 0 chunk.bytes 0 (16 * (chunk.more + 1))
  { s with mem := s.mem.put .callerInput bytes }

/-- One call on a chunk, and the blocks it leaves in the output buffer. -/
def chunkCall (call : CbcCall) (s : State) (chunk : Chunk) (key : Option Bytes)
    (iv : Option Pointer) : Except Region (List Block × State) := do
  let s ← call (s.refill chunk) .callerOutput .callerInput (16 * (chunk.more + 1)) key iv
  return (Bytes.blocks (s.mem.bytes .callerOutput) (chunk.more + 1) 0, s)

/-- The calls behind the first one. -/
def laterChunks (call : CbcCall) : State → List Chunk → Except Region (List Block)
  | _, [] => return []
  | s, chunk :: rest => do
      let (blocks, s) ← chunkCall call s chunk none none
      let later ← laterChunks call s rest
      return blocks ++ later

/-- A call with a key and an iv, and one without them for each chunk more. -/
def inChunks (call : CbcCall) (s : State) (key : Bytes) (iv : Pointer) :
    List Chunk → Except Region (List Block)
  | [] => return []
  | chunk :: rest => do
      let (blocks, s) ← chunkCall call s chunk (some key) (some iv)
      let later ← laterChunks call s rest
      return blocks ++ later

/-! ## Chunks of data -/

section

variable {data bytes : Bytes} {off count more : Nat} {mores : List Nat} {chunk : Chunk}

theorem blocks_shift (off' : Nat) :
    Bytes.blocks (fun a => data (off + a)) count off' = data.blocks count (off + off') := by
  induction count generalizing off' with
  | zero => rfl
  | succ count ih =>
      rw [Bytes.blocks, Bytes.blocks, ih, ← Nat.add_assoc]
      rfl

theorem blocks_add (first second : Nat) :
    data.blocks (first + second) off =
      data.blocks first off ++ data.blocks second (off + 16 * first) := by
  induction first generalizing off with
  | zero => rw [Nat.zero_add, Nat.mul_zero, Nat.add_zero, Bytes.blocks, List.nil_append]
  | succ first ih =>
      have hoff : off + 16 + 16 * first = off + 16 * (first + 1) := by omega
      rw [Nat.add_right_comm, Bytes.blocks, Bytes.blocks, ih, hoff, List.cons_append]

theorem blocks_getLastD (iv : Block) :
    (data.blocks (more + 1) off).getLastD iv = data.block (off + 16 * more) := by
  rw [blocks_add, Bytes.blocks, Bytes.blocks, List.getLastD_concat]

theorem blockCount_cons : blockCount (more :: mores) = more + 1 + blockCount mores := rfl

/-- Together the chunks are the data. -/
theorem blocks_chunksOf :
    (chunksOf data off mores).flatMap Chunk.blocks = data.blocks (blockCount mores) off := by
  induction mores generalizing off with
  | nil => rfl
  | cons more mores ih =>
      have hhead : Chunk.blocks ⟨fun a => data (off + a), more⟩ = data.blocks (more + 1) off :=
        blocks_shift 0
      rw [chunksOf, List.flatMap_cons, ih, blockCount_cons, blocks_add, hhead]

end

/-! ## One call -/

section

variable {base : Memory Region} {output input region : Region} {globals : Globals}
  {s s' : State} {chain : Chain} {off more n : Nat} {key : Option Bytes} {iv : Option Pointer}
  {passIn : Region → Region → State → Nat → Except Region State} {pass : Chain → Nat → Chain}
  {transform : Globals → Block → Block}

/-- Without a rest the function is its loop. -/
theorem cbcBuffer_eq_loop :
    cbcBuffer passIn transform s output input (16 * n) key iv =
      loop (fun i s => passIn output input s (i * blocklen)) n 0 (s.prepare key iv) := by
  have hextra : 16 * n % blocklen = 0 := Nat.mul_mod_right 16 n
  have hcount : passCount (16 * n) = n := by
    unfold passCount blocklen
    omega
  unfold cbcBuffer
  simp only [hextra, hcount, ne_eq, not_true_eq_false, if_false, bind_pure]

/-- The loop keeps to the passes on whole buffers when the first pass does. -/
theorem guarded_passes_of_first
    (hfirst : Guarded (0 + 16 ≤ base.size input ∧ 0 + 16 ≤ base.size output)
      (passIn output input s 0) (Holds base output input globals (0 + 16) · (pass chain 0)))
    (hpass : ∀ off s chain, Holds base output input globals off s chain →
      Guarded (off + 16 ≤ base.size input ∧ off + 16 ≤ base.size output) (passIn output input s off)
        (Holds base output input globals (off + 16) · (pass chain off))) (more : Nat) :
    Guarded (16 * (more + 1) ≤ base.size input ∧ 16 * (more + 1) ≤ base.size output)
      (loop (fun i s => passIn output input s (i * blocklen)) (more + 1) 0 s)
      (Holds base output input globals (16 * (more + 1)) · (passes pass (more + 1) 0 chain)) := by
  have hturn : ∀ k s, Holds base output input globals (16 * k) s (passes pass k 0 chain) →
      Guarded (16 * k + 16 ≤ base.size input ∧ 16 * k + 16 ≤ base.size output)
        (passIn output input s (k * blocklen))
        (Holds base output input globals (16 * (k + 1)) · (passes pass (k + 1) 0 chain)) := by
    intro k s hk
    have hoff : k * blocklen = 16 * k := Nat.mul_comm k 16
    rw [hoff, passes_snoc, Nat.zero_add]
    exact hpass (16 * k) s _ hk
  have hloop := guarded_loop_succ hfirst fun next hnext => guarded_loop hturn more 1 hnext
  rw [Nat.add_comm 1 more] at hloop
  refine hloop.congr ⟨fun hall => ?_, fun hfits k _ hk => by omega⟩
  have hlast := hall more (Nat.zero_le more) (by omega)
  omega

/-- `Iv` is left at the last block of a buffer when each pass leaves it at its own one. -/
theorem loop_iv
    (hpass : ∀ off s s', passIn output input s off = .ok s' → s'.iv = ⟨region, off⟩)
    (hrun : loop (fun i s => passIn output input s (i * blocklen)) (more + 1) 0 s = .ok s') :
    s'.iv = ⟨region, 16 * more⟩ := by
  have hturn : ∀ k s s', 0 ≤ k → k < 0 + (more + 1) → (∀ j, k = j + 1 → s.iv = ⟨region, 16 * j⟩) →
      passIn output input s (k * blocklen) = .ok s' →
      ∀ j, k + 1 = j + 1 → s'.iv = ⟨region, 16 * j⟩ := by
    rintro k s s' - - - hpassed j hj
    obtain rfl : k = j := Nat.succ_inj.mp hj
    rw [hpass _ _ _ hpassed, Nat.mul_comm k]
    rfl
  exact loop_invariant hturn (fun j hj => absurd hj.symm (Nat.succ_ne_zero j)) hrun more
    (Nat.zero_add _)

theorem iv_encryptPass (hrun : encryptPass output input s off = .ok s') :
    s'.iv = ⟨output, off⟩ := by
  obtain ⟨_, -, hrun⟩ := bind_eq_ok_iff.mp hrun
  obtain ⟨_, -, hrun⟩ := bind_eq_ok_iff.mp hrun
  obtain ⟨_, -, hrun⟩ := bind_eq_ok_iff.mp hrun
  cases hrun
  rfl

theorem iv_decryptPass (hrun : decryptPass output input s off = .ok s') :
    s'.iv = ⟨input, off⟩ := by
  obtain ⟨_, -, hrun⟩ := bind_eq_ok_iff.mp hrun
  obtain ⟨_, -, hrun⟩ := bind_eq_ok_iff.mp hrun
  obtain ⟨_, -, hrun⟩ := bind_eq_ok_iff.mp hrun
  cases hrun
  rfl

end

/-! ## Encryption -/

section

variable {s : State} {b : Block} {chunk : Chunk} {chunks : List Chunk} {mem : Memory Region}
  {key : Option Bytes} {iv : Option Pointer}
  {pass : Region → Region → State → Nat → Except Region State}
  {transform : Globals → Block → Block}

/-- The two buffers of the caller have room for the blocks of a chunk. -/
def FitsChunk (mem : Memory Region) (chunk : Chunk) : Prop :=
  16 * (chunk.more + 1) ≤ mem.size .callerInput ∧ 16 * (chunk.more + 1) ≤ mem.size .callerOutput

/-- A call that goes on finds the block `b` at `Iv`. -/
structure Continues (s : State) (b : Block) : Prop where
  fits : s.iv.off + 16 ≤ s.mem.size s.iv.region
  block : Bytes.block (s.mem.bytes s.iv.region) s.iv.off = b

theorem refill_input :
    (s.refill chunk).mem.bytes .callerInput =
      Bytes.copy (s.mem.bytes .callerInput) 0 chunk.bytes 0 (16 * (chunk.more + 1)) :=
  Memory.put_bytes_self

theorem refill_blocks :
    Bytes.blocks ((s.refill chunk).mem.bytes .callerInput) (chunk.more + 1) 0 = chunk.blocks := by
  rw [refill_input]
  refine Bytes.blocks_congr fun a _ hhigh => ?_
  rw [Bytes.copy_inside (Nat.zero_le a) hhigh, Nat.sub_zero, Nat.zero_add]

/-- The input buffer does not hold the block at `Iv`. -/
theorem Continues.refill (hcont : Continues s b) (hregion : s.iv.region ≠ .callerInput) :
    Continues (s.refill chunk) b := by
  refine ⟨hcont.fits, ?_⟩
  have hsame : (s.refill chunk).mem.bytes s.iv.region = s.mem.bytes s.iv.region :=
    Memory.put_bytes_ne hregion
  exact (congrArg (Bytes.block · s.iv.off) hsame).trans hcont.block

theorem refill_prepare : (s.refill chunk).prepare key iv = (s.prepare key iv).refill chunk := by
  cases key <;> cases iv <;> rfl

/-- A call with a key or an iv goes on from the state that has them. -/
theorem chunkCall_prepare :
    chunkCall (cbcBuffer pass transform) s chunk key iv =
      chunkCall (cbcBuffer pass transform) (s.prepare key iv) chunk none none := by
  have hcall : cbcBuffer pass transform (s.refill chunk) .callerOutput .callerInput
        (16 * (chunk.more + 1)) key iv =
      cbcBuffer pass transform ((s.prepare key iv).refill chunk) .callerOutput .callerInput
        (16 * (chunk.more + 1)) none none := by
    rw [cbcBuffer_eq_loop, cbcBuffer_eq_loop, refill_prepare]
    rfl
  unfold chunkCall
  rw [hcall]

theorem inChunks_eq {key : Bytes} {iv : Pointer} :
    inChunks (cbcBuffer pass transform) s key iv chunks =
      laterChunks (cbcBuffer pass transform) (s.prepare (some key) (some iv)) chunks := by
  cases chunks with
  | nil => rfl
  | cons chunk rest =>
      rw [inChunks, chunkCall_prepare]
      rfl

/-- Behind the encryption loop `Iv` is the last block that it wrote. -/
theorem passes_encryptPass_iv {nr : Nat} {roundKey : RoundKey} {chain : Chain} {more : Nat} :
    (passes (Aes.encryptPass nr roundKey) (more + 1) 0 chain).iv =
      (passes (Aes.encryptPass nr roundKey) (more + 1) 0 chain).output.block (16 * more) := by
  rw [passes_snoc, Nat.zero_add]
  rfl

theorem mem_eq_withBuffers {output input : Region} :
    mem = withBuffers mem output input (mem.bytes output) (mem.bytes input) := by
  rw [withBuffers, Memory.put_self, Memory.put_self]

section

variable {output input : Region} {globals : Globals} {off : Nat} {chain : Chain}

theorem Holds.bytes_output (hs : Holds mem output input globals off s chain)
    (hne : output ≠ input) : s.mem.bytes output = chain.output := by
  rw [hs.mem_eq, withBuffers_bytes_output hne]

theorem Holds.bytes_input (hs : Holds mem output input globals off s chain) :
    s.mem.bytes input = chain.input := by
  rw [hs.mem_eq, withBuffers_bytes_input]

theorem Holds.size_eq (hs : Holds mem output input globals off s chain) :
    s.mem.size = mem.size := by
  rw [hs.mem_eq, withBuffers_size]

end

theorem guarded_encryptChunk (hcont : Continues s b) (hregion : s.iv.region ≠ .callerInput) :
    Guarded (FitsChunk s.mem chunk) (chunkCall mdsApiAesCbcEncryptBuffer s chunk none none)
      fun result =>
        result.1 = chainEncrypt (· ^^^ ·) (cipher s.globals.nr s.globals.roundKey) b chunk.blocks ∧
          Continues result.2 (result.1.getLastD b) ∧ result.2.iv.region ≠ .callerInput ∧
          result.2.globals = s.globals ∧ result.2.mem.size = s.mem.size := by
  have hne : Region.callerOutput ≠ .callerInput := by decide
  have hstart : Continues (s.refill chunk) b := hcont.refill hregion
  have hfirst := @guarded_encryptPass_of_block _ .callerOutput .callerInput 0 s.globals
    (s.refill chunk) ⟨_, _, b⟩ hne rfl mem_eq_withBuffers hstart.fits hstart.block
  have hloop := guarded_passes_of_first hfirst
    (fun _ _ _ hs => guarded_encryptPass hne hs) chunk.more
  unfold chunkCall mdsApiAesCbcEncryptBuffer
  rw [cbcBuffer_eq_loop]
  refine (hloop.and_of_eq fun _ hrun => loop_iv (fun _ _ _ => iv_encryptPass) hrun).bind_free ?_
  rintro - s' ⟨hs', hiv⟩
  refine guarded_ok ⟨?_, ⟨?_, ?_⟩, ?_, hs'.globals_eq, hs'.size_eq⟩
  · rw [hs'.bytes_output hne, passes_encryptPass, refill_blocks]
  · rw [hs'.size_eq]
    exact hs'.iv_fits
  · rw [hs'.iv_block, hs'.bytes_output hne, blocks_getLastD, Nat.zero_add, passes_encryptPass_iv]
  · rw [hiv]
    exact hne

theorem guarded_laterChunks (hcont : Continues s b) (hregion : s.iv.region ≠ .callerInput) :
    Guarded (∀ chunk ∈ chunks, FitsChunk s.mem chunk)
      (laterChunks mdsApiAesCbcEncryptBuffer s chunks)
      (· = chainEncrypt (· ^^^ ·) (cipher s.globals.nr s.globals.roundKey) b
        (chunks.flatMap Chunk.blocks)) := by
  induction chunks generalizing s b with
  | nil =>
      refine (guarded_ok ?_).congr (iff_of_true trivial fun _ hmem => nomatch hmem)
      rfl
  | cons chunk rest ih =>
      refine Guarded.congr List.forall_mem_cons.symm
        ((guarded_encryptChunk hcont hregion).bind ?_)
      rintro - ⟨blocks, s'⟩ ⟨hblocks, hcont', hregion', hglobals, hsize⟩
      have hrest := ih hcont' hregion'
      unfold FitsChunk at hrest ⊢
      rw [hglobals, hsize] at hrest
      refine hrest.bind_free ?_
      rintro - later rfl
      refine guarded_ok ?_
      rw [List.flatMap_cons, chainEncrypt_append, ← hblocks]

theorem continues_prepare {key : Bytes} (hiv : 16 ≤ s.mem.size .callerIv) :
    Continues (s.prepare (some key) (some ⟨.callerIv, 0⟩))
      (Bytes.block (s.mem.bytes .callerIv) 0) := ⟨(Nat.zero_add 16).symm ▸ hiv, rfl⟩

end

/--
Data is encrypted in chunks as in one call: wherever it is cut, the calls end exactly when
each chunk fits the buffers, and together they leave what one call on all of it leaves.
-/
theorem encrypt_inChunks (s : State) (key data output : Bytes) (mores : List Nat)
    (hiv : 16 ≤ s.mem.size .callerIv) :
    Guarded (∀ chunk ∈ chunksOf data 0 mores, FitsChunk s.mem chunk)
      (inChunks mdsApiAesCbcEncryptBuffer s key ⟨.callerIv, 0⟩ (chunksOf data 0 mores))
      (· = Bytes.blocks (Aes.mdsApiAesCbcEncryptBuffer s.globals output data
        (16 * blockCount mores) (some key) (some (s.mem.bytes .callerIv))).2.output
        (blockCount mores) 0) := by
  have hne : Region.callerIv ≠ .callerInput := by decide
  have hcont : Continues (s.prepare (some key) (some ⟨.callerIv, 0⟩)) _ := continues_prepare hiv
  have hlater := @guarded_laterChunks _ _ (chunksOf data 0 mores) hcont hne
  unfold mdsApiAesCbcEncryptBuffer at hlater ⊢
  rw [inChunks_eq, cbcEncrypt_blocks]
  rw [blocks_chunksOf] at hlater
  exact hlater

/-- A caller with room for one block. -/
def oneBlockCaller : State :=
  decryptCaller Globals.boot ⟨.callerIv, 0⟩ (fun _ => 0) (fun _ => 0) (fun _ => 0) 16

theorem encrypt_inChunks_twoBlocks :
    inChunks mdsApiAesCbcEncryptBuffer oneBlockCaller (fun _ => 0) ⟨.callerIv, 0⟩
        (chunksOf (fun a => UInt8.ofNat a) 0 [0, 0]) =
      .ok (Bytes.blocks (Aes.mdsApiAesCbcEncryptBuffer Globals.boot (fun _ => 0)
        (fun a => UInt8.ofNat a) 32 (some fun _ => 0) (some fun _ => 0)).2.output 2 0) := by
  obtain ⟨result, hresult, rfl⟩ := (encrypt_inChunks oneBlockCaller (fun _ => 0)
    (fun a => UInt8.ofNat a) (fun _ => 0) [0, 0] (by decide)).ends (by
      unfold FitsChunk
      decide)
  exact hresult

/-! ## Decryption -/

/-- The block at `Iv` when the next call starts: `Iv` points at the last block of `chunk`, and
`next` has been put over it unless it is shorter. -/
def Chunk.ivBehind (chunk next : Chunk) : Block :=
  if next.more < chunk.more then chunk.bytes.block (16 * chunk.more)
  else next.bytes.block (16 * chunk.more)

/-- What the calls leave, where `iv` is the block at `Iv` in the first one. -/
def decryptedChunks (decrypt : Block → Block) : Block → List Chunk → List Block
  | _, [] => []
  | iv, [chunk] => chainDecrypt (· ^^^ ·) decrypt iv chunk.blocks
  | iv, chunk :: next :: rest =>
      chainDecrypt (· ^^^ ·) decrypt iv chunk.blocks ++
        decryptedChunks decrypt (chunk.ivBehind next) (next :: rest)

/-- The next chunk leaves the last block of a chunk in the input buffer. -/
def KeepsLast (chunk next : Chunk) : Prop :=
  next.more < chunk.more ∨ next.bytes.block (16 * chunk.more) = chunk.bytes.block (16 * chunk.more)

section

variable {decrypt : Block → Block} {iv iv' b : Block} {chunk next : Chunk} {chunks rest : List Chunk}
  {s s' : State} {key : Option Bytes}

theorem ivBehind_eq_iff :
    chunk.ivBehind next = chunk.bytes.block (16 * chunk.more) ↔ KeepsLast chunk next := by
  unfold Chunk.ivBehind KeepsLast
  split
  · exact iff_of_true rfl (.inl ‹_›)
  · exact (or_iff_right ‹_›).symm

/-- Only the first block depends on the iv. -/
theorem decryptedChunks_cons :
    ∃ later, ∀ iv, decryptedChunks decrypt iv (chunk :: rest) =
      (decrypt (chunk.bytes.block 0) ^^^ iv) :: later := by
  cases rest with
  | nil => exact ⟨_, fun iv => rfl⟩
  | cons next rest => exact ⟨_, fun iv => rfl⟩

/-- The chunks are decrypted as one exactly when each leaves the last block of the one before. -/
theorem decryptedChunks_eq_iff :
    decryptedChunks decrypt iv chunks =
        chainDecrypt (· ^^^ ·) decrypt iv (chunks.flatMap Chunk.blocks) ↔
      chunks.IsChain KeepsLast := by
  induction chunks generalizing iv with
  | nil => exact iff_of_true rfl .nil
  | cons chunk rest ih =>
      cases rest with
      | nil =>
          refine iff_of_true ?_ (.singleton chunk)
          rw [List.flatMap_cons, List.flatMap_nil, List.append_nil]
          rfl
      | cons next rest =>
          have hlast : chunk.blocks.getLastD iv = chunk.bytes.block (16 * chunk.more) := by
            rw [Chunk.blocks, blocks_getLastD, Nat.zero_add]
          rw [List.isChain_cons_cons, ← ivBehind_eq_iff, List.flatMap_cons, chainDecrypt_append,
            hlast, decryptedChunks, List.append_cancel_left_eq]
          constructor
          · intro heq
            have hiv : chunk.ivBehind next = chunk.bytes.block (16 * chunk.more) := by
              obtain ⟨later, hlater⟩ := @decryptedChunks_cons decrypt next rest
              rw [hlater] at heq
              exact Block.xor_left_cancel (List.cons.inj heq).1
            rw [hiv] at heq
            exact ⟨hiv, ih.mp heq⟩
          · rintro ⟨hiv, hchain⟩
            rw [hiv]
            exact ih.mpr hchain

/-- What a call finds at `Iv`, when the call before it was on `chunk`. -/
theorem refill_ivBehind
    (hinput : s.mem.bytes .callerInput = (s'.refill chunk).mem.bytes .callerInput) :
    Bytes.block ((s.refill next).mem.bytes .callerInput) (16 * chunk.more) =
      chunk.ivBehind next := by
  rw [refill_input, hinput, refill_input]
  unfold Chunk.ivBehind
  split
  · refine Bytes.block_congr fun a _ hhigh => ?_
    rw [Bytes.copy_outside (by omega), Bytes.copy_inside (Nat.zero_le a) (by omega), Nat.sub_zero,
      Nat.zero_add]
  · refine Bytes.block_congr fun a _ hhigh => ?_
    rw [Bytes.copy_inside (Nat.zero_le a) (by omega), Nat.sub_zero, Nat.zero_add]

theorem guarded_decryptChunk (hcont : Continues (s.refill chunk) b)
    (hregion : s.iv.region ≠ .callerOutput) :
    Guarded (FitsChunk s.mem chunk) (chunkCall mdsApiAesCbcDecryptBuffer s chunk none none)
      fun result =>
        result.1 =
            chainDecrypt (· ^^^ ·) (invCipher s.globals.nr s.globals.roundKey) b chunk.blocks ∧
          result.2.iv = ⟨.callerInput, 16 * chunk.more⟩ ∧ result.2.globals = s.globals ∧
          result.2.mem.size = s.mem.size ∧
          result.2.mem.bytes .callerInput = (s.refill chunk).mem.bytes .callerInput := by
  have hne : Region.callerOutput ≠ .callerInput := by decide
  have hstart : Holds (s.refill chunk).mem .callerOutput .callerInput s.globals 0 (s.refill chunk)
      ⟨_, _, b⟩ :=
    ⟨rfl, mem_eq_withBuffers, hcont.fits, hcont.block, fun heq => absurd heq hregion⟩
  have hloop := guarded_passes (fun _ _ _ hs => guarded_decryptPass hne hs) hstart (chunk.more + 1)
  unfold chunkCall mdsApiAesCbcDecryptBuffer
  rw [cbcBuffer_eq_loop]
  refine (hloop.and_of_eq fun _ hrun => loop_iv (fun _ _ _ => iv_decryptPass) hrun).bind_free ?_
  rintro - s' ⟨hs', hiv⟩
  refine guarded_ok ⟨?_, hiv, hs'.globals_eq, hs'.size_eq, ?_⟩
  · rw [hs'.bytes_output hne, passes_decryptPass, refill_blocks]
  · rw [hs'.bytes_input, passes_decryptPass_input]

theorem guarded_decryptLater (hcont : Continues (s.refill chunk) b)
    (hregion : s.iv.region ≠ .callerOutput) :
    Guarded (∀ part ∈ chunk :: rest, FitsChunk s.mem part)
      (laterChunks mdsApiAesCbcDecryptBuffer s (chunk :: rest))
      (· = decryptedChunks (invCipher s.globals.nr s.globals.roundKey) b (chunk :: rest)) := by
  induction rest generalizing s b chunk with
  | nil =>
      refine ((guarded_decryptChunk hcont hregion).bind_free ?_).congr
        List.forall_mem_singleton.symm
      rintro - ⟨blocks, s'⟩ ⟨hblocks, -⟩
      refine guarded_ok ?_
      rw [decryptedChunks, ← hblocks, List.append_nil]
  | cons next rest ih =>
      have hne : Region.callerInput ≠ .callerOutput := by decide
      refine Guarded.congr List.forall_mem_cons.symm ((guarded_decryptChunk hcont hregion).bind ?_)
      rintro hfits ⟨blocks, ⟨globals, mem, iv⟩⟩ ⟨hblocks, hiv, hglobals, hsize, hinput⟩
      dsimp only at hblocks hiv hglobals hsize hinput
      subst hiv hglobals
      have hcont' : Continues (State.refill ⟨s.globals, mem, ⟨.callerInput, 16 * chunk.more⟩⟩ next)
          (chunk.ivBehind next) := by
        refine ⟨?_, refill_ivBehind hinput⟩
        have hroom : 16 * chunk.more + 16 ≤ s.mem.size .callerInput := hfits.1
        rwa [← hsize] at hroom
      have hrest := ih hcont' hne
      unfold FitsChunk at hrest ⊢
      rw [hsize] at hrest
      refine hrest.bind_free ?_
      rintro - later rfl
      refine guarded_ok ?_
      rw [decryptedChunks, ← hblocks]

end

/--
Data is decrypted in chunks as in one call exactly when each chunk leaves the last block of
the one before it in the input buffer: it is shorter, or that block is the same.
-/
theorem decrypt_inChunks_iff (s : State) (key data output : Bytes) (mores : List Nat)
    (hiv : 16 ≤ s.mem.size .callerIv)
    (hfits : ∀ chunk ∈ chunksOf data 0 mores, FitsChunk s.mem chunk) :
    inChunks mdsApiAesCbcDecryptBuffer s key ⟨.callerIv, 0⟩ (chunksOf data 0 mores) =
        .ok (Bytes.blocks (Aes.mdsApiAesCbcDecryptBuffer s.globals output data
          (16 * blockCount mores) (some key) (some (s.mem.bytes .callerIv))).2.output
          (blockCount mores) 0) ↔
      (chunksOf data 0 mores).IsChain KeepsLast := by
  have hrun : inChunks mdsApiAesCbcDecryptBuffer s key ⟨.callerIv, 0⟩ (chunksOf data 0 mores) =
      .ok (decryptedChunks (invCipher s.globals.nr (s.globals.setKey key).roundKey)
        (Bytes.block (s.mem.bytes .callerIv) 0) (chunksOf data 0 mores)) := by
    unfold mdsApiAesCbcDecryptBuffer
    rw [inChunks_eq]
    cases hchunks : chunksOf data 0 mores with
    | nil => rfl
    | cons chunk rest =>
        rw [hchunks] at hfits
        have hinput : Region.callerIv ≠ .callerInput := by decide
        have houtput : Region.callerIv ≠ .callerOutput := by decide
        have hcont : Continues ((s.prepare (some key) (some ⟨.callerIv, 0⟩)).refill chunk) _ :=
          (continues_prepare hiv).refill hinput
        obtain ⟨result, hresult, rfl⟩ := (guarded_decryptLater hcont houtput).ends hfits
        exact hresult
  rw [hrun, cbcDecrypt_blocks, ← blocks_chunksOf]
  rw [Except.ok.injEq]
  exact decryptedChunks_eq_iff

/-- The second of two different blocks is decrypted with itself instead of the first. -/
theorem decrypt_inChunks_twoBlocks :
    inChunks mdsApiAesCbcDecryptBuffer oneBlockCaller (fun _ => 0) ⟨.callerIv, 0⟩
        (chunksOf (fun a => UInt8.ofNat a) 0 [0, 0]) ≠
      .ok (Bytes.blocks (Aes.mdsApiAesCbcDecryptBuffer Globals.boot (fun _ => 0)
        (fun a => UInt8.ofNat a) 32 (some fun _ => 0) (some fun _ => 0)).2.output 2 0) := by
  intro hwhole
  have hchain := (decrypt_inChunks_iff oneBlockCaller (fun _ => 0) (fun a => UInt8.ofNat a)
    (fun _ => 0) [0, 0] (by decide) (by unfold FitsChunk; decide)).mp hwhole
  rcases (List.isChain_cons_cons.mp hchain).1 with hshort | hsame
  · exact absurd hshort (by decide)
  · exact absurd hsame (by decide)

end MdsFormal.Crypto.Aes.InMemory
