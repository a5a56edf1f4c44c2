import MdsFormal.Ipc.Client
import MdsFormal.Library.LabelledRun

/-!
# The receive timeout of cached sockets

A socket's receive timeout is set by the call that creates it and by no other:
a later call for the port gets the cached socket as it is.  Runs here carry, for
each entry of the cache, the timeout that its creating call asked for.
-/

namespace MdsFormal.Ipc.ClientTimeout

open Library.LabelledRun Client

/-- A call of the client with the kernel's part in it. -/
inductive Call where
  | broadcastSend (portNum : Int) (answers : Answers)
  | broadcastSendRecv (portNum timeOut : Int) (answers : Answers)
  deriving DecidableEq

def Call.portNum : Call → Int
  | .broadcastSend portNum _ => portNum
  | .broadcastSendRecv portNum _ _ => portNum

/-- The timeout that the call hands to `_init_ipc_sock`. -/
def Call.timeOut : Call → Int
  | .broadcastSend .. => 0
  | .broadcastSendRecv _ timeOut _ => timeOut

def Call.answers : Call → Answers
  | .broadcastSend _ answers => answers
  | .broadcastSendRecv _ _ answers => answers

def Call.perform (call : Call) (c : State) : Option Int × State :=
  match call with
  | .broadcastSend portNum answers => udpIpcBroadcastSend portNum answers c
  | .broadcastSendRecv portNum timeOut answers => udpIpcBroadcastSendRecv portNum timeOut answers c

/-- The client with the timeout of the call that created each entry's socket. -/
structure Traced where
  client : State
  openedWith : Fin maxReuseSockCnt → Int

def Traced.boot : Traced := ⟨State.boot, fun _ => 0⟩

/-- The entry of the cache that the call uses. -/
def Traced.idx (s : Traced) (call : Call) : Fin maxReuseSockCnt :=
  sockIdx call.portNum s.client.sockMgr

/-- The call finds a cached socket. -/
def Traced.Cached (s : Traced) (call : Call) : Prop := 0 < s.client.sock (s.idx call)

instance (s : Traced) (call : Call) : Decidable (s.Cached call) :=
  inferInstanceAs (Decidable (_ < _))

def step (s : Traced) (call : Call) : Option Traced :=
  if Fresh s.client call.answers then
    some ⟨(call.perform s.client).2,
      if s.Cached call then s.openedWith
      else Function.update s.openedWith (s.idx call) call.timeOut⟩
  else none

/-- The call's `recvfrom`, if it gets there, is on a socket with the call's timeout. -/
def TimeoutInForce (s : Traced) : Call → Prop
  | .broadcastSend .. => True
  | .broadcastSendRecv portNum timeOut answers =>
      Fresh s.client answers →
        ∀ sock ∈ (udpIpcBroadcastSendRecv portNum timeOut answers s.client).1,
          ((udpIpcBroadcastSendRecv portNum timeOut answers s.client).2.sockets sock).map
            Sock.rcvtimeo = some timeOut

instance (s : Traced) : (call : Call) → Decidable (TimeoutInForce s call)
  | .broadcastSend .. => .isTrue trivial
  | .broadcastSendRecv portNum timeOut answers =>
      inferInstanceAs (Decidable (Fresh s.client answers →
        ∀ sock ∈ (udpIpcBroadcastSendRecv portNum timeOut answers s.client).1, _))

/-- A receive whose request goes out finds no cached socket, or one that was created by
a call with the same timeout. -/
def OpenedWithSame (s : Traced) : Call → Prop
  | .broadcastSend .. => True
  | .broadcastSendRecv portNum timeOut answers =>
      Fresh s.client answers → answers.sent = true →
        0 < s.client.sock (sockIdx portNum s.client.sockMgr) →
          s.openedWith (sockIdx portNum s.client.sockMgr) = timeOut

/-- Every cached descriptor is open, with the timeout of its creating call, and cached once. -/
structure Accounted (s : Traced) : Prop where
  timeout : ∀ idx, 0 < s.client.sock idx →
    (s.client.sockets (s.client.sock idx)).map Sock.rcvtimeo = some (s.openedWith idx)
  distinct : ∀ first second, 0 < s.client.sock first →
    s.client.sock first = s.client.sock second → first = second

theorem accounted_boot : Accounted Traced.boot := by
  constructor
  · intro idx hidx
    exact absurd hidx (Int.lt_irrefl 0)
  · intro first second hfirst
    exact absurd hfirst (Int.lt_irrefl 0)

/-- What either call leaves of the cache is what `sendRequest` does with its timeout. -/
theorem perform_eq (call : Call) (c : State) :
    call.perform c = sendRequest call.timeOut call.portNum call.answers c := by
  cases call <;> rfl

theorem accounted_closeIpcSock {s : Traced} (hs : Accounted s) (portNum : Int) :
    Accounted ⟨closeIpcSock portNum s.client, s.openedWith⟩ := by
  have hsock : ∀ idx, 0 < (closeIpcSock portNum s.client).sock idx →
      idx ≠ sockIdx portNum s.client.sockMgr ∧
        (closeIpcSock portNum s.client).sock idx = s.client.sock idx := by
    intro idx hidx
    by_cases hclosed : idx = sockIdx portNum s.client.sockMgr
    · simp [closeIpcSock, hclosed] at hidx
    · simp [closeIpcSock, hclosed]
  constructor
  · intro idx hidx
    obtain ⟨hopen, hsame⟩ := hsock idx hidx
    dsimp only at hidx ⊢
    rw [hsame] at hidx ⊢
    rw [← hs.timeout idx hidx]
    unfold closeIpcSock
    by_cases hpos : 0 < s.client.sock (sockIdx portNum s.client.sockMgr)
    · -- the socket that is closed is another entry's
      have hother : s.client.sock idx ≠ s.client.sock (sockIdx portNum s.client.sockMgr) :=
        fun heq => hopen (hs.distinct _ _ hidx heq)
      simp [hpos, hother]
    · simp [hpos]
  · intro first second hfirst heq
    obtain ⟨_, hsame⟩ := hsock first hfirst
    obtain ⟨_, hsame'⟩ := hsock second (heq ▸ hfirst)
    dsimp only at hfirst heq
    rw [hsame] at hfirst
    rw [hsame, hsame'] at heq
    exact hs.distinct first second hfirst heq

theorem accounted_created {s : Traced} (hs : Accounted s) {created : Created}
    (hfresh : s.client.sockets created.descriptor = none) (idx : Fin maxReuseSockCnt)
    (timeOut : Int) (sockMgr : Fin maxReuseSockCnt → Int) :
    Accounted
      ⟨{ sockMgr := sockMgr
         sock := Function.update s.client.sock idx created.descriptor
         sockets := Function.update s.client.sockets created.descriptor
          (some ⟨timeOut, created.address, []⟩) },
        Function.update s.openedWith idx timeOut⟩ := by
  have hother : ∀ entry, 0 < s.client.sock entry → s.client.sock entry ≠ created.descriptor := by
    intro entry hentry heq
    have htimeout := hs.timeout entry hentry
    rw [heq, hfresh] at htimeout
    cases htimeout
  constructor
  · intro entry hentry
    dsimp only at hentry ⊢
    by_cases hidx : entry = idx
    · simp [hidx]
    · rw [Function.update_of_ne hidx] at hentry ⊢
      rw [Function.update_of_ne (hother entry hentry), Function.update_of_ne hidx]
      exact hs.timeout entry hentry
  · intro first second hfirst heq
    dsimp only at hfirst heq
    by_cases hfirst_idx : first = idx
    · by_cases hsecond_idx : second = idx
      · rw [hfirst_idx, hsecond_idx]
      · rw [hfirst_idx, Function.update_self, Function.update_of_ne hsecond_idx] at heq
        rw [hfirst_idx, Function.update_self, heq] at hfirst
        exact absurd heq.symm (hother second hfirst)
    · rw [Function.update_of_ne hfirst_idx] at hfirst heq
      by_cases hsecond_idx : second = idx
      · rw [hsecond_idx, Function.update_self] at heq
        exact absurd heq (hother first hfirst)
      · rw [Function.update_of_ne hsecond_idx] at heq
        exact hs.distinct first second hfirst heq

theorem accounted_initIpcSock {s : Traced} (hs : Accounted s) (call : Call)
    (hfresh : Fresh s.client call.answers) :
    Accounted ⟨(initIpcSock call.timeOut call.portNum call.answers.created s.client).2,
      if s.Cached call then s.openedWith
      else Function.update s.openedWith (s.idx call) call.timeOut⟩ := by
  by_cases hcached : s.Cached call
  · rw [initIpcSock_cached _ hcached, if_pos hcached]
    exact ⟨hs.timeout, hs.distinct⟩
  · rw [if_neg hcached]
    cases hcreated : call.answers.created with
    | none =>
        rw [initIpcSock_failed hcached]
        constructor
        · intro idx hidx
          have hne : idx ≠ s.idx call := by
            rintro rfl
            exact hcached hidx
          dsimp only
          rw [Function.update_of_ne hne]
          exact hs.timeout idx hidx
        · exact hs.distinct
    | some created =>
        rw [initIpcSock_created created hcached]
        exact accounted_created hs (hfresh created hcreated).2 _ _ _

/-- Every call keeps the account, whether its request goes out or not. -/
theorem accounted_step {s next : Traced} {call : Call} (hs : Accounted s)
    (hstep : step s call = some next) : Accounted next := by
  obtain ⟨hfresh, rfl⟩ := Option.ite_some_none_eq_some.mp hstep
  have hinit := accounted_initIpcSock hs call hfresh
  rw [perform_eq]
  rcases sendRequest_snd call.answers with hsent | hclosed
  · rw [hsent]
    exact hinit
  · rw [hclosed]
    exact accounted_closeIpcSock hinit call.portNum

theorem openedWithSame_iff {s : Traced} (hs : Accounted s) (call : Call) :
    OpenedWithSame s call ↔ TimeoutInForce s call := by
  cases call with
  | broadcastSend portNum answers => exact Iff.rfl
  | broadcastSendRecv portNum timeOut answers =>
      constructor
      · intro hsame hfresh sock hsock
        have hcall : udpIpcBroadcastSendRecv portNum timeOut answers s.client =
            (some sock, (udpIpcBroadcastSendRecv portNum timeOut answers s.client).2) :=
          Prod.ext hsock rfl
        obtain ⟨hsent, hopen, hinit⟩ := sendRequest_eq_some_iff.mp hcall
        by_cases hcached : 0 < s.client.sock (sockIdx portNum s.client.sockMgr)
        · rw [initIpcSock_cached _ hcached, Prod.mk.injEq] at hinit
          rw [← hinit.1, ← hinit.2, ← hsame hfresh hsent hcached]
          exact hs.timeout _ hcached
        · cases hcreated : answers.created with
          | none =>
              rw [hcreated, initIpcSock_failed hcached, Prod.mk.injEq] at hinit
              rw [← hinit.1] at hopen
              exact absurd hopen (by decide)
          | some created =>
              rw [hcreated, initIpcSock_created created hcached, Prod.mk.injEq] at hinit
              rw [← hinit.1, ← hinit.2]
              simp
      · intro hforce hfresh hsent hcached
        have hinit : initIpcSock timeOut portNum answers.created s.client = _ :=
          initIpcSock_cached answers.created hcached
        have hsend := sendRequest_eq_some_iff.mpr ⟨hsent, Int.le_of_lt hcached, hinit⟩
        have htimeout := hforce hfresh _ (congrArg Prod.fst hsend)
        rw [udpIpcBroadcastSendRecv, hsend] at htimeout
        exact Option.some.inj ((hs.timeout _ hcached).symm.trans htimeout)

/-- Every receive waits for the time its call asked for exactly when each one finds no
cached socket or one that was created for the same time. -/
theorem timeoutInForce_iff (calls : List Call) :
    EachStep step TimeoutInForce Traced.boot calls ↔
      EachStep step OpenedWithSame Traced.boot calls := by
  refine (eachStep_iff_of_invariant Accounted ?_ ?_ accounted_boot).symm
  · intro s call next hs _ hstep
    exact accounted_step hs hstep
  · intro s call hs
    exact openedWithSame_iff hs call

/-- A stop of the receiver asks for 7 seconds on the socket that its start created for 3. -/
theorem timeoutInForce_reused :
    ¬ EachStep step TimeoutInForce Traced.boot
      [.broadcastSendRecv 30995 3 ⟨some ⟨4, 50000⟩, true⟩,
        .broadcastSendRecv 30995 7 ⟨none, true⟩] := by
  decide

end MdsFormal.Ipc.ClientTimeout
