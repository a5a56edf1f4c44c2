import MdsFormal.Crypto.EcbBlocks
import MdsFormal.Library.LabelledRun

/-!
# The key schedule in use

A run of the public functions over their globals.  The schedule is expanded for the type
that is selected when a key is passed; `mds_api_AES_init` changes the type and the number
of rounds but not the schedule, and a CBC call without a key uses what is there.
-/

namespace MdsFormal.Crypto.Aes

open Library.LabelledRun

/-! ## Runs of the public functions -/

inductive ApiCall where
  | init (type : Int)
  | ecbEncrypt (input key output : Bytes) (length : Nat)
  | ecbDecrypt (input key output : Bytes) (length : Nat)
  | cbcEncrypt (output input : Bytes) (length : Nat) (key iv : Option Bytes)
  | cbcDecrypt (output input : Bytes) (length : Nat) (key iv : Option Bytes)

/-- The globals, and the type that was selected when the last key was passed. -/
structure Session where
  aes : Globals
  keyType : Option AesType

def Session.boot : Session := ⟨Globals.boot, none⟩

/-- The globals a call leaves. -/
def Globals.perform (aes : Globals) : ApiCall → Globals
  | .init type => mdsApiAesInit aes type
  | .ecbEncrypt input key output length => (mdsApiAesEcbEncrypt aes input key output length).1
  | .ecbDecrypt input key output length => (mdsApiAesEcbDecrypt aes input key output length).1
  | .cbcEncrypt output input length key iv =>
      (mdsApiAesCbcEncryptBuffer aes output input length key iv).1
  | .cbcDecrypt output input length key iv =>
      (mdsApiAesCbcDecryptBuffer aes output input length key iv).1

/-- Whether a call passes a key. -/
def ApiCall.passesKey : ApiCall → Bool
  | .init _ => false
  | .ecbEncrypt .. | .ecbDecrypt .. => true
  | .cbcEncrypt _ _ _ key _ | .cbcDecrypt _ _ _ key _ => key.isSome

/-- Whether a call processes a block. -/
def ApiCall.processes : ApiCall → Bool
  | .init _ => false
  | .ecbEncrypt .. | .ecbDecrypt .. => true
  | .cbcEncrypt _ _ length _ _ | .cbcDecrypt _ _ length _ _ => length ≠ 0

/-- A call that processes blocks needs a key, its own or that of an earlier call. -/
def apiStep (s : Session) (call : ApiCall) : Option Session :=
  if call.processes = true ∧ call.passesKey = false ∧ s.keyType = none then none
  else
    some ⟨s.aes.perform call, if call.passesKey then some s.aes.aesType else s.keyType⟩

/-! ## The schedule of the current type -/

/-- What a call leaves in `output`. -/
def Globals.output (aes : Globals) : ApiCall → Option Bytes
  | .init _ => none
  | .ecbEncrypt input key output length =>
      some (mdsApiAesEcbEncrypt aes input key output length).2
  | .ecbDecrypt input key output length =>
      some (mdsApiAesEcbDecrypt aes input key output length).2
  | .cbcEncrypt output input length key iv =>
      some (mdsApiAesCbcEncryptBuffer aes output input length key iv).2.output
  | .cbcDecrypt output input length key iv =>
      some (mdsApiAesCbcDecryptBuffer aes output input length key iv).2.output

/-- The output of the CBC loop with its rest, for a body and a block function. -/
def cbcOutput (pass : Chain → Nat → Chain) (transform : Block → Block) (start : Chain)
    (length : Nat) : Bytes :=
  let chain := passes pass (passCount length) 0 start
  if length % blocklen ≠ 0 then
    copyThen transform chain (passCount length * blocklen) (length % blocklen)
  else chain.output

/-- The block at `Iv` when a call starts its loop. -/
def Globals.startIv (aes : Globals) : Option Bytes → Block
  | none => aes.iv
  | some iv => iv.block 0

/-- What a call leaves in `output` when it transforms its blocks with `nr` rounds of the given
round keys. -/
def Globals.outputUnder (aes : Globals) (nr : Nat) (roundKey : RoundKey) :
    ApiCall → Option Bytes
  | .init _ => none
  | .ecbEncrypt input _ output length =>
      let output := output.copy 0 input 0 length
      some (output.setBlock 0 (cipher nr roundKey (output.block 0)))
  | .ecbDecrypt input _ output length =>
      let output := output.copy 0 input 0 length
      some (output.setBlock 0 (invCipher nr roundKey (output.block 0)))
  | .cbcEncrypt output input length _ iv =>
      some (cbcOutput (encryptPass nr roundKey) (cipher nr roundKey)
        ⟨output, input, aes.startIv iv⟩ length)
  | .cbcDecrypt output input length _ iv =>
      some (cbcOutput (decryptPass nr roundKey) (invCipher nr roundKey)
        ⟨output, input, aes.startIv iv⟩ length)

/-- The globals hold this key as the last one passed, and its round keys under the current
type. -/
structure Globals.Scheduled (aes : Globals) (key : Bytes) : Prop where
  nr_eq : aes.nr = aes.aesType.nr
  key_eq : aes.key = some key
  same : SameKeys aes.aesType.nr aes.roundKey (aes.aesType.schedule key)

/-- The blocks of a call are transformed with the round keys of the current type and the last
key.  A call sets the globals it works with before its first block and leaves them. -/
def ScheduledBlocks (s : Session) (call : ApiCall) : Prop :=
  call.processes = true →
    ∃ key, (s.aes.perform call).Scheduled key ∧
      s.aes.output call =
        s.aes.outputUnder s.aes.aesType.nr (s.aes.aesType.schedule key) call

/-- The call passes a key, or no other type was selected since the last one was passed. -/
def TypeUnchanged (s : Session) (call : ApiCall) : Prop :=
  call.processes = true → call.passesKey = true ∨ s.keyType = some s.aes.aesType

/-! ## What a call transforms its blocks with -/

section

variable {aes : Globals}

theorem cbcBuffer_output {pass : Globals → Chain → Nat → Chain}
    {transform : Globals → Block → Block} {output input : Bytes} {length : Nat}
    {key iv : Option Bytes} :
    (cbcBuffer pass transform aes output input length key iv).2.output =
      cbcOutput (pass (aes.prepare key iv)) (transform (aes.prepare key iv))
        ⟨output, input, aes.startIv iv⟩ length := by
  have hiv : (aes.prepare key iv).iv = aes.startIv iv := by
    cases key <;> cases iv <;> rfl
  unfold cbcBuffer cbcOutput
  rw [← hiv]
  dsimp only
  split
  · rfl
  · rfl

/-- The blocks of a call are transformed with the rounds and the round keys that it leaves. -/
theorem output_eq (call : ApiCall) :
    aes.output call =
      aes.outputUnder (aes.perform call).nr (aes.perform call).roundKey call := by
  cases call with
  | init type => rfl
  | ecbEncrypt input key output length => rfl
  | ecbDecrypt input key output length => rfl
  | cbcEncrypt output input length key iv => exact congrArg some cbcBuffer_output
  | cbcDecrypt output input length key iv => exact congrArg some cbcBuffer_output

theorem outputUnder_congr {nr : Nat} {roundKey roundKey' : RoundKey}
    (hsame : SameKeys nr roundKey roundKey') (call : ApiCall) :
    aes.outputUnder nr roundKey call = aes.outputUnder nr roundKey' call := by
  have hcipher : cipher nr roundKey = cipher nr roundKey' := funext hsame.cipher
  have hinvCipher : invCipher nr roundKey = invCipher nr roundKey' := funext hsame.invCipher
  have hencrypt : encryptPass nr roundKey = encryptPass nr roundKey' := by
    unfold encryptPass
    rw [hcipher]
  have hdecrypt : decryptPass nr roundKey = decryptPass nr roundKey' := by
    unfold decryptPass
    rw [hinvCipher]
  cases call with
  | init type => rfl
  | ecbEncrypt input key output length => simp only [Globals.outputUnder, hcipher]
  | ecbDecrypt input key output length => simp only [Globals.outputUnder, hinvCipher]
  | cbcEncrypt output input length key iv =>
      simp only [Globals.outputUnder, hencrypt, hcipher]
  | cbcDecrypt output input length key iv =>
      simp only [Globals.outputUnder, hdecrypt, hinvCipher]

/-- Globals that hold the schedule of a key are what the call's blocks are transformed with. -/
theorem Globals.Scheduled.output {call : ApiCall} {key : Bytes}
    (hleft : (aes.perform call).Scheduled key) :
    aes.output call =
      aes.outputUnder (aes.perform call).aesType.nr ((aes.perform call).aesType.schedule key)
        call := by
  rw [output_eq, hleft.nr_eq]
  exact outputUnder_congr hleft.same call

end

/-! ## The invariant -/

/-- The globals are those of the current type, and the schedule is that of the last key under
the type it was passed for. -/
structure Expanded (s : Session) : Prop where
  selected : s.aes.Selected s.aes.aesType
  schedule : ∀ keyType, s.keyType = some keyType →
    ∃ key, s.aes.key = some key ∧ SameKeys keyType.nr s.aes.roundKey (keyType.schedule key)

section

variable {s s' : Session} {call : ApiCall} {aes : Globals}

theorem Globals.Selected.setKey_scheduled {aesType : AesType} (hsel : aes.Selected aesType)
    (key : Bytes) :
    ∃ passed, (aes.setKey key).key = some passed ∧
      SameKeys aesType.nr (aes.setKey key).roundKey (aesType.schedule passed) :=
  ⟨key, rfl, hsel.schedule key⟩

/-- What a call leaves is what it found but for the iv, after a key it was passed. -/
theorem perform_cases (s : Session) (call : ApiCall) :
    (∃ type, call = .init type ∧ s.aes.perform call = mdsApiAesInit s.aes type) ∨
    (call.passesKey = true ∧ ∃ key iv, s.aes.perform call = { s.aes.setKey key with iv := iv }) ∨
    (call.passesKey = false ∧ ∃ iv, s.aes.perform call = { s.aes with iv := iv }) := by
  cases call with
  | init type => exact Or.inl ⟨type, rfl, rfl⟩
  | ecbEncrypt input key output length => exact Or.inr (Or.inl ⟨rfl, key, s.aes.iv, rfl⟩)
  | ecbDecrypt input key output length => exact Or.inr (Or.inl ⟨rfl, key, s.aes.iv, rfl⟩)
  | cbcEncrypt output input length key iv =>
      cases key with
      | none => cases iv <;> exact Or.inr (Or.inr ⟨rfl, _, rfl⟩)
      | some key => cases iv <;> exact Or.inr (Or.inl ⟨rfl, key, _, rfl⟩)
  | cbcDecrypt output input length key iv =>
      cases key with
      | none => cases iv <;> exact Or.inr (Or.inr ⟨rfl, _, rfl⟩)
      | some key => cases iv <;> exact Or.inr (Or.inl ⟨rfl, key, _, rfl⟩)

theorem expanded_boot : Expanded Session.boot := ⟨⟨rfl, rfl, rfl⟩, fun _ htype => by cases htype⟩

theorem expanded_step (hinv : Expanded s) (hstep : apiStep s call = some s') : Expanded s' := by
  unfold apiStep at hstep
  split at hstep
  · cases hstep
  · cases hstep
    obtain ⟨hsel, hschedule⟩ := hinv
    rcases perform_cases s call with ⟨type, rfl, hleft⟩ | ⟨hpass, key, iv, hleft⟩ |
      ⟨hpass, iv, hleft⟩
    · exact ⟨⟨rfl, rfl, rfl⟩, hschedule⟩
    · simp only [hleft, hpass, if_true]
      refine ⟨⟨hsel.type_eq, hsel.nk_eq, hsel.nr_eq⟩, fun keyType htype => ?_⟩
      cases htype
      exact hsel.setKey_scheduled key
    · simp only [hleft, hpass, Bool.false_eq_true, if_false]
      exact ⟨⟨hsel.type_eq, hsel.nk_eq, hsel.nr_eq⟩, hschedule⟩

/-- Under the invariant a call with a key, or without a change of type, is well scheduled. -/
theorem Expanded.scheduledBlocks (hinv : Expanded s) (hcall : TypeUnchanged s call) :
    ScheduledBlocks s call := by
  intro hprocesses
  obtain ⟨hsel, hschedule⟩ := hinv
  rcases perform_cases s call with ⟨type, rfl, _⟩ | ⟨_, key, iv, hleft⟩ | ⟨hpass, iv, hleft⟩
  · exact Bool.noConfusion hprocesses
  · have hscheduled : (s.aes.perform call).Scheduled key := by
      rw [hleft]
      exact ⟨hsel.nr_eq, rfl, hsel.schedule key⟩
    have houtput := hscheduled.output
    rw [hleft] at houtput
    exact ⟨key, hscheduled, houtput⟩
  · rcases hcall hprocesses with hkey | htype
    · rw [hpass] at hkey
      exact Bool.noConfusion hkey
    · obtain ⟨key, hkey, hkeys⟩ := hschedule _ htype
      have hscheduled : (s.aes.perform call).Scheduled key := by
        rw [hleft]
        exact ⟨hsel.nr_eq, hkey, hkeys⟩
      have houtput := hscheduled.output
      rw [hleft] at houtput
      exact ⟨key, hscheduled, houtput⟩

end

/-! ## Every run -/

/-- In every run in which no call without a key follows a change of type, every block is
processed under the schedule of the current type and the last key. -/
theorem scheduledBlocks_run (calls : List ApiCall) :
    EachStep apiStep TypeUnchanged Session.boot calls →
      EachStep apiStep ScheduledBlocks Session.boot calls :=
  eachStep_of_invariant Expanded (fun _ _ _ hinv _ => expanded_step hinv)
    (fun _ _ => Expanded.scheduledBlocks) expanded_boot

/-- A key of zeros under AES256, then AES128 and a call without a key. -/
def staleCalls : List ApiCall :=
  [.init 2, .cbcEncrypt (fun _ => 0) (fun _ => 0) 16 (some fun _ => 0) (some fun _ => 0), .init 0,
    .cbcEncrypt (fun _ => 0) (fun _ => 0) 16 none none]

/-- The last call's second round key is that of the AES256 schedule. -/
theorem scheduledBlocks_violated : ¬ EachStep apiStep ScheduledBlocks Session.boot staleCalls := by
  rintro ⟨-, -, -, hlast, -⟩
  obtain ⟨key, hscheduled, -⟩ := hlast rfl
  cases hscheduled.key_eq
  have hround := congrArg Block.c0 (hscheduled.same 1 (by decide))
  exact absurd hround (by decide +kernel)

/-- The condition is met by a run that calls without a key under the type of the last key. -/
theorem scheduledBlocks_run_keyless :
    EachStep apiStep ScheduledBlocks Session.boot
      [.init 2, .cbcEncrypt (fun _ => 0) (fun _ => 0) 16 (some fun _ => 0) (some fun _ => 0),
        .cbcEncrypt (fun _ => 0) (fun _ => 0) 16 none none] :=
  scheduledBlocks_run _ ⟨fun h => absurd h (by decide), fun _ => Or.inl rfl,
    fun _ => Or.inr rfl, trivial⟩

end MdsFormal.Crypto.Aes
