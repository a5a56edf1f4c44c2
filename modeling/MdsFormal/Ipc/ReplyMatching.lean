import MdsFormal.Ipc.Exchange
import MdsFormal.Library.LabelledRun

/-!
# Which request a returned reply answers

Nothing in a datagram says which request it belongs to, and a cached socket
keeps its queue from one call to the next.  What a call returns is a reply to
some request that left the local address of its socket, now or before.
-/

namespace MdsFormal.Ipc.ReplyMatching

open Library.LabelledRun Client Exchange
open Server (MsgLoop HandlerStores Datagram maxMsgLoopCnt_pos)

/-- `claim` holds of the bytes of every receive that returns a positive size. -/
def EachReturned (claim : Waiting → Sock → List UInt8 → Prop) (s : Network) : Event → Prop
  | .receive process =>
      ∀ waiting ∈ (s.processes process).waiting, ∀ sock ∈ s.sock? process waiting.descriptor,
        ∀ reply ∈ sock.queue.head?, returned waiting.recvBuffSize reply ≠ [] →
          claim waiting sock (returned waiting.recvBuffSize reply)
  | _ => True

instance (claim : Waiting → Sock → List UInt8 → Prop)
    [∀ waiting sock bytes, Decidable (claim waiting sock bytes)] (s : Network) :
    (event : Event) → Decidable (EachReturned claim s event)
  | .receive process =>
      inferInstanceAs (Decidable (∀ waiting ∈ (s.processes process).waiting,
        ∀ sock ∈ s.sock? process waiting.descriptor, ∀ reply ∈ sock.queue.head?, _))
  | .broadcastSend .. => .isTrue trivial
  | .broadcastSendRecv .. => .isTrue trivial
  | .serve .. => .isTrue trivial
  | .deliver _ => .isTrue trivial
  | .timeOut _ => .isTrue trivial

/-- The bytes are a reply that some server produced for the request of that very call. -/
def AnswersOwn (s : Network) (waiting : Waiting) (_ : Sock) (bytes : List UInt8) : Prop :=
  ∃ reply ∈ s.replies, reply.request = waiting.request ∧
    bytes = returned waiting.recvBuffSize reply

instance (s : Network) (waiting : Waiting) (sock : Sock) (bytes : List UInt8) :
    Decidable (AnswersOwn s waiting sock bytes) :=
  inferInstanceAs (Decidable (∃ reply ∈ s.replies, _))

/-- The bytes are a reply that some server produced for a request that left the socket's
address no later than the call's own, which is that very request when it was the first. -/
def AnswersAddress (s : Network) (waiting : Waiting) (sock : Sock) (bytes : List UInt8) : Prop :=
  ∃ reply ∈ s.replies, bytes = returned waiting.recvBuffSize reply ∧
    reply.request ≤ waiting.request ∧
    (∃ request ∈ s.requests[reply.request]?, request.address = sock.address) ∧
    ((∀ number < waiting.request, ∀ request ∈ s.requests[number]?,
      request.address ≠ sock.address) → reply.request = waiting.request)

/-- What every state of a run records about its sockets, replies and waiting calls. -/
structure Traceable (s : Network) : Prop where
  owned : ∀ process descriptor sock, s.sock? process descriptor = some sock →
    s.owner sock.address = some (process, descriptor)
  queued : ∀ process descriptor sock, s.sock? process descriptor = some sock →
    ∀ reply ∈ sock.queue, reply ∈ s.replies ∧ reply.peer = sock.address
  produced : ∀ reply ∈ s.replies, ∃ request ∈ s.requests[reply.request]?,
    request.address = reply.peer
  latest : ∀ process waiting, (s.processes process).waiting = some waiting →
    ∃ sock, s.sock? process waiting.descriptor = some sock ∧
      ∀ number, ∀ request ∈ s.requests[number]?, request.address = sock.address →
        number ≤ waiting.request

theorem traceable_boot : Traceable Network.boot := by
  constructor
  · intro process descriptor sock hsock
    cases hsock
  · intro process descriptor sock hsock
    cases hsock
  · intro reply hreply
    exact absurd hreply List.not_mem_nil
  · intro process waiting hwaiting
    cases hwaiting

variable {s next : Network}

/-- A socket after the change is the changed one or was there before. -/
theorem sock?_setSock_cases {process process' : Nat} {descriptor descriptor' : Int}
    {sock after : Sock} {waiting : Option Waiting}
    (hafter : (s.setSock process descriptor sock waiting).sock? process' descriptor' =
      some after) :
    (process' = process ∧ descriptor' = descriptor ∧ after = sock) ∨
      s.sock? process' descriptor' = some after := by
  rw [sock?_setSock] at hafter
  by_cases hsame : process' = process ∧ descriptor' = descriptor
  · rw [if_pos hsame] at hafter
    exact Or.inl ⟨hsame.1, hsame.2, (Option.some.inj hafter).symm⟩
  · rw [if_neg hsame] at hafter
    exact Or.inr hafter

/-- Who waits after the change has waited before it. -/
theorem waiting_of_setSock {process process' : Nat} {descriptor : Int} {sock : Sock}
    {waiting : Option Waiting} {current : Waiting}
    (hwaiting : waiting = none ∨ waiting = (s.processes process).waiting)
    (hcurrent : ((s.setSock process descriptor sock waiting).processes process').waiting =
      some current) : (s.processes process').waiting = some current := by
  rw [waiting_setSock] at hcurrent
  by_cases hsame : process' = process
  · rw [if_pos hsame] at hcurrent
    rcases hwaiting with hnone | hkept
    · rw [hnone] at hcurrent
      cases hcurrent
    · rw [hsame, ← hkept, hcurrent]
  · rwa [if_neg hsame] at hcurrent

/-- Changing a socket's queue within what was sent to it keeps the record. -/
theorem traceable_setSock (hs : Traceable s) {process : Nat} {descriptor : Int} {sock : Sock}
    (hsock : s.sock? process descriptor = some sock) {queue : List Reply}
    (hqueue : ∀ reply ∈ queue, reply ∈ s.replies ∧ reply.peer = sock.address)
    {waiting : Option Waiting}
    (hwaiting : waiting = none ∨ waiting = (s.processes process).waiting) :
    Traceable (s.setSock process descriptor { sock with queue := queue } waiting) := by
  constructor
  · intro process' descriptor' after hafter
    rcases sock?_setSock_cases hafter with ⟨rfl, rfl, rfl⟩ | hold
    · exact hs.owned process' descriptor' sock hsock
    · exact hs.owned process' descriptor' after hold
  · intro process' descriptor' after hafter
    rcases sock?_setSock_cases hafter with ⟨rfl, rfl, rfl⟩ | hold
    · exact hqueue
    · exact hs.queued process' descriptor' after hold
  · exact hs.produced
  · intro process' current hcurrent
    have hbefore := waiting_of_setSock hwaiting hcurrent
    obtain ⟨before, hopen, hlatest⟩ := hs.latest process' current hbefore
    by_cases hsame : process' = process ∧ current.descriptor = descriptor
    · obtain ⟨rfl, rfl⟩ := hsame
      cases hsock.symm.trans hopen
      exact ⟨{ sock with queue := queue }, by rw [sock?_setSock, if_pos ⟨rfl, rfl⟩], hlatest⟩
    · exact ⟨before, by rw [sock?_setSock, if_neg hsame, hopen], hlatest⟩

/-- The kernel gives no address in use to a second socket. -/
theorem assign_of_bound (hs : Traceable s) {process : Nat} {answers : Answers}
    (hready : s.Ready process answers) {holder : Nat} {descriptor : Int} {sock : Sock}
    (hsock : s.sock? holder descriptor = some sock) :
    s.assign process answers sock.address = some (holder, descriptor) := by
  have howner := hs.owned holder descriptor sock hsock
  unfold Network.assign
  cases hcreated : answers.created with
  | none => exact howner
  | some created =>
      have hne : sock.address ≠ created.address := by
        intro heq
        refine hready.2.2 created hcreated ⟨(holder, descriptor), heq ▸ howner, ?_⟩
        rw [hsock, ← heq]
        rfl
      dsimp only
      rw [Function.update_of_ne hne, howner]

section

variable {process : Nat} {portNum recvTimeout : Int} {payload : List UInt8}
  {recvBuffSize : Option Nat} {answers : Answers}

/-- An open socket was open before the call, or is the one the call created. -/
theorem request_open
    (hnext : s.request process portNum payload recvBuffSize answers
      (sendRequest recvTimeout portNum answers (s.processes process).client) = some next)
    {holder : Nat} {descriptor : Int} {sock : Sock}
    (hsock : next.sock? holder descriptor = some sock) :
    s.sock? holder descriptor = some sock ∨
      holder = process ∧ ∃ created ∈ answers.created, descriptor = created.descriptor ∧
        sock = ⟨recvTimeout, created.address, []⟩ := by
  rw [(request_requested hnext).sockets] at hsock
  by_cases hholder : holder = process
  · rw [if_pos hholder] at hsock
    rcases sendRequest_sockets hsock with hold | hnew
    · exact Or.inl (hholder ▸ hold)
    · exact Or.inr ⟨hholder, hnew⟩
  · rw [if_neg hholder] at hsock
    exact Or.inl hsock

theorem request_owned (hs : Traceable s) (hready : s.Ready process answers)
    (hnext : s.request process portNum payload recvBuffSize answers
      (sendRequest recvTimeout portNum answers (s.processes process).client) = some next)
    {holder : Nat} {descriptor : Int} {sock : Sock}
    (hsock : next.sock? holder descriptor = some sock) :
    next.owner sock.address = some (holder, descriptor) := by
  rw [(request_requested hnext).owner]
  rcases request_open hnext hsock with hold | ⟨rfl, created, hcreated, rfl, rfl⟩
  · exact assign_of_bound hs hready hold
  · rw [Network.assign, Option.mem_def.mp hcreated]
    exact Function.update_self ..

/-- The call itself waits for the request it has just appended. -/
theorem request_latest_self
    (hnext : s.request process portNum payload recvBuffSize answers
      (sendRequest recvTimeout portNum answers (s.processes process).client) = some next)
    {waiting : Waiting} (hwaiting : (next.processes process).waiting = some waiting) :
    ∃ sock, next.sock? process waiting.descriptor = some sock ∧
      ∀ number, ∀ request ∈ next.requests[number]?, request.address = sock.address →
        number ≤ waiting.request := by
  have hrequested := request_requested hnext
  rcases hrequested.sent with ⟨_, hnone⟩ | ⟨descriptor, sock, _, hsock, _, hadded, hwait⟩
  · rw [hnone] at hwaiting
    cases hwaiting
  · rw [hwait] at hwaiting
    obtain ⟨size, _, rfl⟩ := Option.map_eq_some_iff.mp hwaiting
    refine ⟨sock, by rw [hrequested.sockets, if_pos rfl, hsock], ?_⟩
    intro number request hrequest _
    obtain ⟨hlength, _⟩ := List.getElem?_eq_some_iff.mp (Option.mem_def.mp hrequest)
    rw [hadded, List.length_append] at hlength
    exact Nat.le_of_lt_succ hlength

/-- Another waiting call has its own address, which the new request is not from. -/
theorem request_latest_other (hs : Traceable s) (hready : s.Ready process answers)
    (hnext : s.request process portNum payload recvBuffSize answers
      (sendRequest recvTimeout portNum answers (s.processes process).client) = some next)
    {holder : Nat} (hholder : holder ≠ process) {waiting : Waiting}
    (hwaiting : (next.processes holder).waiting = some waiting) :
    ∃ sock, next.sock? holder waiting.descriptor = some sock ∧
      ∀ number, ∀ request ∈ next.requests[number]?, request.address = sock.address →
        number ≤ waiting.request := by
  have hrequested := request_requested hnext
  rw [hrequested.others holder hholder] at hwaiting
  obtain ⟨sock, hsock, hlatest⟩ := hs.latest holder waiting hwaiting
  have hnext_sock : next.sock? holder waiting.descriptor = some sock := by
    rw [hrequested.sockets, if_neg hholder, hsock]
  refine ⟨sock, hnext_sock, ?_⟩
  intro number request hrequest haddress
  rcases hrequested.sent with ⟨hsame, _⟩ | ⟨descriptor, used, added, hused, hfrom, hadded, _⟩
  · exact hlatest number request (hsame ▸ hrequest) haddress
  · rw [hadded] at hrequest
    by_cases hlength : number < s.requests.length
    · rw [List.getElem?_append_left hlength] at hrequest
      exact hlatest number request hrequest haddress
    · rw [List.getElem?_append_right (Nat.not_lt.mp hlength)] at hrequest
      have hrequest_eq : request = added :=
        List.mem_singleton.mp (List.mem_of_getElem? hrequest)
      have hnext_used : next.sock? process descriptor = some used := by
        rw [hrequested.sockets, if_pos rfl, hused]
      have hown := request_owned hs hready hnext hnext_used
      rw [← hfrom, ← hrequest_eq, haddress, request_owned hs hready hnext hnext_sock] at hown
      exact absurd (congrArg Prod.fst (Option.some.inj hown)) hholder

/-- A call up to its `recvfrom` keeps the record. -/
theorem traceable_request (hs : Traceable s) (hready : s.Ready process answers)
    (hnext : s.request process portNum payload recvBuffSize answers
      (sendRequest recvTimeout portNum answers (s.processes process).client) = some next) :
    Traceable next := by
  have hrequested := request_requested hnext
  constructor
  · exact fun holder descriptor sock => request_owned hs hready hnext
  · intro holder descriptor sock hsock reply hreply
    rw [hrequested.replies]
    rcases request_open hnext hsock with hold | ⟨rfl, created, hcreated, rfl, rfl⟩
    · exact hs.queued holder descriptor sock hold reply hreply
    · exact absurd hreply List.not_mem_nil
  · intro reply hreply
    rw [hrequested.replies] at hreply
    obtain ⟨request, hrequest, haddress⟩ := hs.produced reply hreply
    refine ⟨request, ?_, haddress⟩
    rcases hrequested.sent with ⟨hsame, _⟩ | ⟨_, _, added, _, _, hadded, _⟩
    · rw [hsame]
      exact hrequest
    · obtain ⟨hlength, _⟩ := List.getElem?_eq_some_iff.mp (Option.mem_def.mp hrequest)
      rw [hadded, List.getElem?_append_left hlength]
      exact hrequest
  · intro holder waiting hwaiting
    by_cases hholder : holder = process
    · subst hholder
      exact request_latest_self hnext hwaiting
    · exact request_latest_other hs hready hnext hholder hwaiting

end

theorem handle_peer {loop : MsgLoop} {request reply : Datagram} {stores : HandlerStores}
    (hreply : (loop.handle (some request) stores).2 = some reply) :
    reply.peer = request.peer := by
  unfold MsgLoop.handle at hreply
  cases hreceived : Server.received (some request) with
  | none =>
      rw [hreceived] at hreply
      cases hreply
  | some datagram =>
      rw [hreceived] at hreply
      obtain ⟨payload, _, rfl⟩ := Option.map_eq_some_iff.mp hreply
      obtain ⟨hsame, _⟩ := Option.filter_eq_some_iff.mp hreceived
      rw [Option.some.inj hsame]

theorem traceable_serve (hs : Traceable s) {number : Nat} {loop : MsgLoop}
    {stores : HandlerStores} (hnext : step s (.serve number loop stores) = some next) :
    Traceable next := by
  simp only [step] at hnext
  cases hreceived : s.requests[number]? with
  | none => simp [hreceived] at hnext
  | some received =>
      simp only [hreceived] at hnext
      obtain ⟨_, rfl⟩ := Option.ite_some_none_eq_some.mp hnext
      constructor
      · exact hs.owned
      · intro process descriptor sock hsock reply hreply
        obtain ⟨hsent, hpeer⟩ := hs.queued process descriptor sock hsock reply hreply
        exact ⟨List.mem_append_left _ hsent, hpeer⟩
      · intro reply hreply
        rcases List.mem_append.mp hreply with hold | hnew
        · exact hs.produced reply hold
        · obtain ⟨datagram, hhandle, rfl⟩ := Option.map_eq_some_iff.mp (Option.mem_toList.mp hnew)
          exact ⟨received, hreceived, (handle_peer hhandle).symm⟩
      · exact hs.latest

theorem traceable_deliver (hs : Traceable s) {number : Nat}
    (hnext : step s (.deliver number) = some next) : Traceable next := by
  simp only [step] at hnext
  cases hdatagram : s.replies[number]? with
  | none => simp [hdatagram] at hnext
  | some datagram =>
      simp only [hdatagram] at hnext
      rcases howner : s.owner datagram.peer with _ | ⟨process, descriptor⟩
      · simp [howner] at hnext
      · simp only [howner] at hnext
        cases hsock : s.sock? process descriptor with
        | none => simp [hsock] at hnext
        | some sock =>
            simp only [hsock] at hnext
            obtain ⟨haddress, rfl⟩ := Option.ite_some_none_eq_some.mp hnext
            refine traceable_setSock hs hsock (fun reply hreply => ?_) (Or.inr rfl)
            rcases List.mem_append.mp hreply with hold | hnew
            · exact hs.queued process descriptor sock hsock reply hold
            · cases List.mem_singleton.mp hnew
              exact ⟨List.mem_of_getElem? hdatagram, haddress.symm⟩

theorem traceable_receive (hs : Traceable s) {process : Nat}
    (hnext : step s (.receive process) = some next) : Traceable next := by
  simp only [step] at hnext
  cases hwaiting : (s.processes process).waiting with
  | none => simp [hwaiting] at hnext
  | some waiting =>
      simp only [hwaiting] at hnext
      cases hsock : s.sock? process waiting.descriptor with
      | none => simp [hsock] at hnext
      | some sock =>
          simp only [hsock] at hnext
          have hqueued := hs.queued process waiting.descriptor sock hsock
          cases hqueue : sock.queue with
          | nil => simp [hqueue] at hnext
          | cons first rest =>
              simp only [hqueue] at hnext
              cases hnext
              refine traceable_setSock hs hsock (fun reply hreply => ?_) (Or.inl rfl)
              exact hqueued reply (hqueue ▸ List.mem_cons_of_mem first hreply)

theorem traceable_timeOut (hs : Traceable s) {process : Nat}
    (hnext : step s (.timeOut process) = some next) : Traceable next := by
  simp only [step] at hnext
  cases hwaiting : (s.processes process).waiting with
  | none => simp [hwaiting] at hnext
  | some waiting =>
      simp only [hwaiting] at hnext
      cases hsock : s.sock? process waiting.descriptor with
      | none => simp [hsock] at hnext
      | some sock =>
          simp only [hsock] at hnext
          obtain ⟨_, rfl⟩ := Option.ite_some_none_eq_some.mp hnext
          exact traceable_setSock hs hsock (hs.queued process waiting.descriptor sock hsock)
            (Or.inl rfl)

theorem traceable_step (hs : Traceable s) {event : Event} (hnext : step s event = some next) :
    Traceable next := by
  cases event with
  | broadcastSend process portNum payload answers =>
      obtain ⟨hready, hrequest⟩ := Option.ite_none_right_eq_some.mp hnext
      exact traceable_request hs hready hrequest
  | broadcastSendRecv process portNum timeOut payload recvBuffSize answers =>
      obtain ⟨hready, hrequest⟩ := Option.ite_none_right_eq_some.mp hnext
      exact traceable_request hs hready hrequest
  | serve number loop stores => exact traceable_serve hs hnext
  | deliver number => exact traceable_deliver hs hnext
  | receive process => exact traceable_receive hs hnext
  | timeOut process => exact traceable_timeOut hs hnext

/-- The reply at the head of a waiting call's queue came to its socket's address. -/
theorem Traceable.answersAddress (hs : Traceable s) (event : Event) :
    EachReturned (AnswersAddress s) s event := by
  cases event with
  | receive process =>
      intro waiting hwaiting sock hsock reply hreply _
      obtain ⟨hsent, hpeer⟩ := hs.queued process _ sock hsock reply (List.mem_of_head? hreply)
      obtain ⟨request, hrequest, haddress⟩ := hs.produced reply hsent
      obtain ⟨current, hcurrent, hlatest⟩ := hs.latest process waiting hwaiting
      cases hcurrent.symm.trans hsock
      have hleaves : request.address = sock.address := haddress.trans hpeer
      have hnumber := hlatest reply.request request hrequest hleaves
      refine ⟨reply, hsent, rfl, hnumber, ⟨request, hrequest, hleaves⟩, fun hfirst => ?_⟩
      rcases Nat.lt_or_eq_of_le hnumber with hlt | heq
      · exact absurd hleaves (hfirst _ hlt request hrequest)
      · exact heq
  | broadcastSend | broadcastSendRecv | serve | deliver | timeOut => trivial

/-- Whatever a call returns answers a request from its socket's address, its own or an
earlier one. -/
theorem received_answersAddress (events : List Event) :
    EachStep step (fun s => EachReturned (AnswersAddress s) s) Network.boot events := by
  refine eachStep_of_kept Traceable ?_ ?_ traceable_boot
  · intro s event next hs hnext
    exact traceable_step hs hnext
  · intro s event hs
    exact hs.answersAddress event

/-- A loop of the port the requests go to. -/
def answering : MsgLoop :=
  ⟨30995, ⟨0, maxMsgLoopCnt_pos⟩, .receiving, ⟨30995, ⟨0, maxMsgLoopCnt_pos⟩, some 1⟩, 0, false⟩

/-- The reply to a call that timed out is returned by the next call on the cached socket,
whose own request no server has answered. -/
theorem received_late_reply :
    ¬ EachStep step (fun s => EachReturned (AnswersOwn s) s) Network.boot
      [.broadcastSendRecv 0 30995 3 [1] 1024 ⟨some ⟨4, 50000⟩, true⟩, .timeOut 0,
        .serve 0 answering ⟨[7], some 1⟩, .deliver 0,
        .broadcastSendRecv 0 30995 7 [2] 1024 ⟨none, true⟩, .receive 0] := by
  decide

end MdsFormal.Ipc.ReplyMatching
