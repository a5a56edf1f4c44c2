import Mathlib.Logic.Function.Basic
import MdsFormal.Library.SlotTable

/-!
# The UDP message client

The cache of sockets by port and the two calls that use it.  Descriptors and
local addresses are chosen by the kernel, as are the failures of `socket` and
`sendto`; a call takes them as its answers.
-/

namespace MdsFormal.Ipc.Client

open Library.SlotTable

/-- The source's `MAX_REUSE_SOCK_CNT`. -/
def maxReuseSockCnt : Nat := 10

/-- A datagram that a server sent to an address, with the number of the request it was
made for.  The number is for the statements only: nothing of it is in the datagram. -/
structure Reply where
  request : Nat
  peer : Nat
  payload : List UInt8
  deriving DecidableEq

/-- An open socket: `SO_RCVTIMEO`, the address that replies come back to, and the
datagrams that wait in it. -/
structure Sock where
  rcvtimeo : Int
  address : Nat
  queue : List Reply
  deriving DecidableEq

/-- `g_sock_mgr`, `g_sock` and the process's open sockets by descriptor. -/
structure State where
  sockMgr : Fin maxReuseSockCnt → Int
  sock : Fin maxReuseSockCnt → Int
  sockets : Int → Option Sock

def State.boot : State := ⟨fun _ => 0, fun _ => 0, fun _ => none⟩

/-- The index part of `_get_sock_idx`: 0 when every entry is taken by another port. -/
def sockIdx (portNum : Int) (sockMgr : Fin maxReuseSockCnt → Int) : Fin maxReuseSockCnt :=
  (claimSlot (· = portNum) (· = 0) sockMgr).getD ⟨0, by decide⟩

/-- `_get_sock_idx`: a free entry that it picks is marked with the port. -/
def getSockIdx (portNum : Int) (sockMgr : Fin maxReuseSockCnt → Int) :
    Fin maxReuseSockCnt × (Fin maxReuseSockCnt → Int) :=
  match claimSlot (· = portNum) (· = 0) sockMgr with
  | some idx => (idx, Function.update sockMgr idx portNum)
  | none => (⟨0, by decide⟩, sockMgr)

/-- A descriptor and a local address. -/
structure Created where
  descriptor : Int
  address : Nat
  deriving DecidableEq

/-- `_init_ipc_sock`: a cached socket is returned as it is, its options untouched. -/
def initIpcSock (recvTimeout portNum : Int) (created : Option Created) (c : State) :
    Int × State :=
  let (idx, sockMgr) := getSockIdx portNum c.sockMgr
  let c := { c with sockMgr := sockMgr }
  if c.sock idx > 0 then (c.sock idx, c)
  else
    match created with
    | none => (-1, c)
    | some sock =>
        (sock.descriptor,
          { c with
            sockets := Function.update c.sockets sock.descriptor
              (some ⟨recvTimeout, sock.address, []⟩)
            sock := Function.update c.sock idx sock.descriptor })

/-- `_close_ipc_sock`. -/
def closeIpcSock (portNum : Int) (c : State) : State :=
  let (idx, sockMgr) := getSockIdx portNum c.sockMgr
  { sockMgr := sockMgr
    sock := Function.update c.sock idx (-1)
    sockets := if c.sock idx > 0 then Function.update c.sockets (c.sock idx) none else c.sockets }

/-- The kernel's part in a call: the new socket, if one is asked for and can be had,
and whether `sendto` succeeds. -/
structure Answers where
  created : Option Created
  sent : Bool
  deriving DecidableEq

/-- What both calls do up to the end of `sendto`; the descriptor is the one the
request went out by. -/
def sendRequest (recvTimeout portNum : Int) (answers : Answers) (c : State) :
    Option Int × State :=
  let (sock, c) := initIpcSock recvTimeout portNum answers.created c
  if sock < 0 then (none, closeIpcSock portNum c)
  else if answers.sent then (some sock, c)
  else (none, closeIpcSock portNum c)

/-- `udp_ipc_broadcast_send`. -/
def udpIpcBroadcastSend (portNum : Int) (answers : Answers) (c : State) : Option Int × State :=
  sendRequest 0 portNum answers c

/-- `udp_ipc_broadcast_send_recv` up to its `recvfrom`. -/
def udpIpcBroadcastSendRecv (portNum timeOut : Int) (answers : Answers) (c : State) :
    Option Int × State :=
  sendRequest timeOut portNum answers c

/-- The kernel hands out a descriptor that is not open. -/
def Fresh (c : State) (answers : Answers) : Prop :=
  ∀ created ∈ answers.created,
    0 ≤ created.descriptor ∧ c.sockets created.descriptor = none

instance (c : State) (answers : Answers) : Decidable (Fresh c answers) :=
  inferInstanceAs (Decidable (∀ created ∈ answers.created, _))

/-! ## What a call does to the cache -/

variable {c : State} {portNum recvTimeout : Int}

@[simp]
theorem getSockIdx_fst (sockMgr : Fin maxReuseSockCnt → Int) :
    (getSockIdx portNum sockMgr).1 = sockIdx portNum sockMgr := by
  unfold getSockIdx sockIdx
  cases claimSlot (· = portNum) (· = 0) sockMgr <;> rfl

theorem initIpcSock_cached (created : Option Created)
    (hcached : 0 < c.sock (sockIdx portNum c.sockMgr)) :
    initIpcSock recvTimeout portNum created c =
      (c.sock (sockIdx portNum c.sockMgr),
        { c with sockMgr := (getSockIdx portNum c.sockMgr).2 }) := by
  simp [initIpcSock, hcached]

theorem initIpcSock_failed (hcached : ¬ 0 < c.sock (sockIdx portNum c.sockMgr)) :
    initIpcSock recvTimeout portNum none c =
      (-1, { c with sockMgr := (getSockIdx portNum c.sockMgr).2 }) := by
  simp [initIpcSock, hcached]

theorem initIpcSock_created (created : Created)
    (hcached : ¬ 0 < c.sock (sockIdx portNum c.sockMgr)) :
    initIpcSock recvTimeout portNum (some created) c =
      (created.descriptor,
        { sockMgr := (getSockIdx portNum c.sockMgr).2
          sock := Function.update c.sock (sockIdx portNum c.sockMgr) created.descriptor
          sockets := Function.update c.sockets created.descriptor
            (some ⟨recvTimeout, created.address, []⟩) }) := by
  simp [initIpcSock, hcached]

/-- A request goes out by the descriptor that `_init_ipc_sock` returned. -/
theorem sendRequest_eq_some_iff {answers : Answers} {descriptor : Int} {next : State} :
    sendRequest recvTimeout portNum answers c = (some descriptor, next) ↔
      answers.sent = true ∧ 0 ≤ descriptor ∧
        initIpcSock recvTimeout portNum answers.created c = (descriptor, next) := by
  unfold sendRequest
  rcases initIpcSock recvTimeout portNum answers.created c with ⟨sock, after⟩
  by_cases hneg : sock < 0
  · simp only [hneg, if_true, Prod.mk.injEq]
    constructor
    · rintro ⟨⟨⟩, _⟩
    · rintro ⟨_, hpos, rfl, _⟩
      exact absurd hneg (Int.not_lt.mpr hpos)
  · cases answers.sent with
    | false => simp [hneg]
    | true =>
        simp only [hneg, if_true, if_false, Prod.mk.injEq, Option.some.injEq, true_and]
        constructor
        · rintro ⟨rfl, rfl⟩
          exact ⟨Int.not_lt.mp hneg, rfl, rfl⟩
        · exact And.right

/-- A call leaves the client as `_init_ipc_sock` did, or closes the socket again. -/
theorem sendRequest_snd (answers : Answers) :
    (sendRequest recvTimeout portNum answers c).2 =
        (initIpcSock recvTimeout portNum answers.created c).2 ∨
      (sendRequest recvTimeout portNum answers c).2 =
        closeIpcSock portNum (initIpcSock recvTimeout portNum answers.created c).2 := by
  unfold sendRequest
  rcases initIpcSock recvTimeout portNum answers.created c with ⟨sock, after⟩
  by_cases hneg : sock < 0
  · exact Or.inr (by simp [hneg])
  · cases answers.sent with
    | false => exact Or.inr (by simp [hneg])
    | true => exact Or.inl (by simp [hneg])

/-- The sockets open after a call were open before it, or are the one it created. -/
theorem sendRequest_sockets {answers : Answers} {descriptor : Int} {sock : Sock}
    (hsock : (sendRequest recvTimeout portNum answers c).2.sockets descriptor = some sock) :
    c.sockets descriptor = some sock ∨
      ∃ created ∈ answers.created, descriptor = created.descriptor ∧
        sock = ⟨recvTimeout, created.address, []⟩ := by
  have hclose : ∀ after : State, (closeIpcSock portNum after).sockets descriptor = some sock →
      after.sockets descriptor = some sock := by
    intro after hafter
    simp only [closeIpcSock] at hafter
    split at hafter
    · by_cases hclosed : descriptor = after.sock (getSockIdx portNum after.sockMgr).1
      · simp [hclosed] at hafter
      · rwa [Function.update_of_ne hclosed] at hafter
    · exact hafter
  have hinit : (initIpcSock recvTimeout portNum answers.created c).2.sockets descriptor =
      some sock := by
    rcases sendRequest_snd answers with hsent | hclosed
    · rwa [hsent] at hsock
    · exact hclose _ (hclosed ▸ hsock)
  by_cases hcached : 0 < c.sock (sockIdx portNum c.sockMgr)
  · rw [initIpcSock_cached _ hcached] at hinit
    exact Or.inl hinit
  · cases hcreated : answers.created with
    | none =>
        rw [hcreated, initIpcSock_failed hcached] at hinit
        exact Or.inl hinit
    | some created =>
        rw [hcreated, initIpcSock_created created hcached] at hinit
        dsimp only at hinit
        by_cases hnew : descriptor = created.descriptor
        · right
          subst hnew
          rw [Function.update_self] at hinit
          exact ⟨created, rfl, rfl, (Option.some.inj hinit).symm⟩
        · left
          rwa [Function.update_of_ne hnew] at hinit

end MdsFormal.Ipc.Client
