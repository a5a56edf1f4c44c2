import MdsFormal.Ipc.Client
import MdsFormal.Ipc.Server

/-!
# Clients, servers and the datagrams between them

Any number of client processes call the client functions, message loops answer
the requests they get, and the kernel moves replies into the queues of open
sockets.  A request may be answered by no loop or by several, and a reply may be
delivered at any later time, more than once, or never.
-/

namespace MdsFormal.Ipc.Exchange

open Client Server

/-- A request as it was sent: the sender's local address, the port it went to and its bytes. -/
structure Request where
  address : Nat
  portNum : Int
  payload : List UInt8
  deriving DecidableEq

/-- A call of `udp_ipc_broadcast_send_recv` that is in its `recvfrom`.  `request` is the
number of the request it sent. -/
structure Waiting where
  descriptor : Int
  recvBuffSize : Nat
  request : Nat
  deriving DecidableEq

structure ClientProcess where
  client : Client.State
  waiting : Option Waiting

/-- `owner` is the socket that an address was last given to; `requests` and `replies`
are everything that was ever sent. -/
structure Network where
  processes : Nat → ClientProcess
  owner : Nat → Option (Nat × Int)
  requests : List Request
  replies : List Reply

def Network.boot : Network := ⟨fun _ => ⟨Client.State.boot, none⟩, fun _ => none, [], []⟩

def Network.sock? (s : Network) (process : Nat) (descriptor : Int) : Option Sock :=
  (s.processes process).client.sockets descriptor

/-- The address is the local address of an open socket. -/
def Network.Bound (s : Network) (address : Nat) : Prop :=
  ∃ holder ∈ s.owner address, (s.sock? holder.1 holder.2).map Sock.address = some address

instance (s : Network) (address : Nat) : Decidable (s.Bound address) :=
  inferInstanceAs (Decidable (∃ holder ∈ s.owner address, _))

/-- Whether a process can make a call with these answers: it is in none, and the kernel
hands out neither an open descriptor nor an address in use. -/
def Network.Ready (s : Network) (process : Nat) (answers : Answers) : Prop :=
  (s.processes process).waiting = none ∧ Fresh (s.processes process).client answers ∧
    ∀ created ∈ answers.created, ¬ s.Bound created.address

instance (s : Network) (process : Nat) (answers : Answers) :
    Decidable (s.Ready process answers) :=
  inferInstanceAs (Decidable (_ ∧ _ ∧ ∀ created ∈ answers.created, _))

/-- The owners after the kernel has given out an address. -/
def Network.assign (s : Network) (process : Nat) (answers : Answers) :
    Nat → Option (Nat × Int) :=
  match answers.created with
  | none => s.owner
  | some created =>
      Function.update s.owner created.address (some (process, created.descriptor))

/-- A process after a call up to its `recvfrom`, with the descriptor the request went out
by, if it did; `recvBuffSize` is given for calls that wait for a reply. -/
def Network.request (s : Network) (process : Nat) (portNum : Int) (payload : List UInt8)
    (recvBuffSize : Option Nat) (answers : Answers) (result : Option Int × Client.State) :
    Option Network :=
  let s := { s with owner := s.assign process answers }
  match result with
  | (none, client) =>
      some { s with processes := Function.update s.processes process ⟨client, none⟩ }
  | (some descriptor, client) =>
      match client.sockets descriptor with
      | none => none
      | some sock =>
          let waiting := recvBuffSize.map fun size => ⟨descriptor, size, s.requests.length⟩
          some { s with
            processes := Function.update s.processes process ⟨client, waiting⟩
            requests := s.requests ++ [⟨sock.address, portNum, payload⟩] }

/-- One socket replaced, and the process's wait with it. -/
def Network.setSock (s : Network) (process : Nat) (descriptor : Int) (sock : Sock)
    (waiting : Option Waiting) : Network :=
  let client := (s.processes process).client
  { s with
    processes := Function.update s.processes process
      ⟨{ client with sockets := Function.update client.sockets descriptor (some sock) },
        waiting⟩ }

inductive Event where
  | broadcastSend (process : Nat) (portNum : Int) (payload : List UInt8) (answers : Answers)
  | broadcastSendRecv (process : Nat) (portNum timeOut : Int) (payload : List UInt8)
      (recvBuffSize : Nat) (answers : Answers)
  | serve (request : Nat) (loop : MsgLoop) (stores : HandlerStores)
  | deliver (reply : Nat)
  | receive (process : Nat)
  | timeOut (process : Nat)

def step (s : Network) : Event → Option Network
  | .broadcastSend process portNum payload answers =>
      if s.Ready process answers then
        s.request process portNum payload none answers
          (udpIpcBroadcastSend portNum answers (s.processes process).client)
      else none
  | .broadcastSendRecv process portNum timeOut payload recvBuffSize answers =>
      if s.Ready process answers then
        s.request process portNum payload (some recvBuffSize) answers
          (udpIpcBroadcastSendRecv portNum timeOut answers (s.processes process).client)
      else none
  | .serve request loop stores =>
      match s.requests[request]? with
      | none => none
      | some received =>
          if loop.loopArg.portNum = received.portNum then
            let reply := (loop.handle (some ⟨received.address, received.payload⟩) stores).2
            let sent := reply.map fun datagram : Datagram =>
              (⟨request, datagram.peer, datagram.payload⟩ : Reply)
            some { s with replies := s.replies ++ sent.toList }
          else none
  | .deliver reply =>
      match s.replies[reply]? with
      | none => none
      | some datagram =>
          match s.owner datagram.peer with
          | none => none
          | some (process, descriptor) =>
              match s.sock? process descriptor with
              | none => none
              | some sock =>
                  if sock.address = datagram.peer then
                    some (s.setSock process descriptor
                      { sock with queue := sock.queue ++ [datagram] } (s.processes process).waiting)
                  else none
  | .receive process =>
      match (s.processes process).waiting with
      | none => none
      | some waiting =>
          match s.sock? process waiting.descriptor with
          | none => none
          | some sock =>
              match sock.queue with
              | [] => none
              | _ :: rest =>
                  some (s.setSock process waiting.descriptor { sock with queue := rest } none)
  | .timeOut process =>
      match (s.processes process).waiting with
      | none => none
      | some waiting =>
          match s.sock? process waiting.descriptor with
          | none => none
          | some sock =>
              -- a timeout of 0 waits for ever
              if sock.queue = [] ∧ sock.rcvtimeo ≠ 0 then
                some (s.setSock process waiting.descriptor sock none)
              else none

/-- What `recvfrom` puts into a buffer of the given size; its length is the value returned. -/
def returned (size : Nat) (reply : Reply) : List UInt8 := reply.payload.take size

/-! ## The sockets after a step -/

variable {s next : Network} {process : Nat} {descriptor : Int}

theorem sock?_setSock (process' : Nat) (descriptor' : Int) (sock : Sock)
    (waiting : Option Waiting) :
    (s.setSock process' descriptor' sock waiting).sock? process descriptor =
      if process = process' ∧ descriptor = descriptor' then some sock
      else s.sock? process descriptor := by
  unfold Network.sock? Network.setSock
  by_cases hprocess : process = process'
  · by_cases hdescriptor : descriptor = descriptor'
    · simp [hprocess, hdescriptor]
    · simp [hprocess, hdescriptor]
  · simp [hprocess]

theorem waiting_setSock (process' : Nat) (sock : Sock) (waiting : Option Waiting) :
    ((s.setSock process' descriptor sock waiting).processes process).waiting =
      if process = process' then waiting else (s.processes process).waiting := by
  unfold Network.setSock
  by_cases hprocess : process = process' <;> simp [hprocess]

/-- What a call up to its `recvfrom` changes: its own process, the owners and, if the
request goes out by an open socket, the requests. -/
structure Requested (s next : Network) (process : Nat) (answers : Answers)
    (recvBuffSize : Option Nat) (result : Option Int × Client.State) : Prop where
  owner : next.owner = s.assign process answers
  replies : next.replies = s.replies
  sockets : ∀ other descriptor, next.sock? other descriptor =
    if other = process then result.2.sockets descriptor else s.sock? other descriptor
  others : ∀ other ≠ process, (next.processes other).waiting = (s.processes other).waiting
  sent : (next.requests = s.requests ∧ (next.processes process).waiting = none) ∨
    ∃ descriptor sock request, result.2.sockets descriptor = some sock ∧
      request.address = sock.address ∧ next.requests = s.requests ++ [request] ∧
      (next.processes process).waiting =
        recvBuffSize.map fun size => ⟨descriptor, size, s.requests.length⟩

theorem request_requested {portNum : Int} {payload : List UInt8} {recvBuffSize : Option Nat}
    {answers : Answers} {result : Option Int × Client.State}
    (hnext : s.request process portNum payload recvBuffSize answers result = some next) :
    Requested s next process answers recvBuffSize result := by
  rcases result with ⟨_ | descriptor, client⟩
  · cases hnext
    constructor
    · rfl
    · rfl
    · intro other descriptor
      by_cases hother : other = process <;> simp [Network.sock?, hother]
    · intro other hother
      simp [hother]
    · exact Or.inl ⟨rfl, by simp⟩
  · cases hsock : client.sockets descriptor with
    | none => simp [Network.request, hsock] at hnext
    | some sock =>
        simp only [Network.request, hsock] at hnext
        cases hnext
        constructor
        · rfl
        · rfl
        · intro other descriptor
          by_cases hother : other = process <;> simp [Network.sock?, hother]
        · intro other hother
          simp [hother]
        · exact Or.inr ⟨descriptor, sock, _, hsock, rfl, rfl, by simp⟩

end MdsFormal.Ipc.Exchange
