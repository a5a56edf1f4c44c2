import MdsFormal.Ipc.Server

/-!
# What a message loop answers

`buff_resp` is cleared for every datagram, `buff_resp_len` only once, before the
loop: a handler that leaves `*resp_msg_len` alone answers with the length of
some earlier answer.  A reply is called the handler's own when it is what the
stores of the same pass ask for.
-/

namespace MdsFormal.Ipc.Server

/-- One pass of the loop: `behind` is the memory that follows `buff_resp` at the time. -/
structure Pass where
  request : Option Datagram
  stores : HandlerStores
  behind : Nat → UInt8

/-- What `sendto` reads for a length beyond the buffer. -/
def overread (behind : Nat → UInt8) (buffRespLen : Int) : List UInt8 :=
  (List.range (buffRespLen.toNat - ipcBuffSize)).map behind

/-- The loop after the pass, and the reply it has sent. -/
def MsgLoop.pass (loop : MsgLoop) (p : Pass) : MsgLoop × Option Datagram :=
  match loop.handle p.request p.stores with
  | (after, reply) =>
      (after, reply.map fun datagram =>
        { datagram with payload := datagram.payload ++ overread p.behind after.buffRespLen })

/-- The datagram that the handler gets. -/
def Pass.received (p : Pass) : Option Datagram := Server.received p.request

/-- The replies of a sequence of passes, one entry a pass. -/
def replies : MsgLoop → List Pass → List (Option Datagram)
  | _, [] => []
  | loop, p :: rest => (loop.pass p).2 :: replies (loop.pass p).1 rest

/-! ## The handler's own reply -/

/-- The payload that the stores of one call ask for; of the buffer's bytes, no more exist. -/
def ownPayload (stores : HandlerStores) : Option (List UInt8) :=
  match stores.respMsgLen with
  | none => none
  | some respMsgLen =>
      if respMsgLen > 0 then
        some (((stores.respMsg ++ List.replicate ipcBuffSize 0).take ipcBuffSize).take
          respMsgLen.toNat)
      else none

def Pass.ownReply (p : Pass) : Option Datagram :=
  p.received.bind fun datagram => (ownPayload p.stores).map fun payload => ⟨datagram.peer, payload⟩

/-- The length that is left in `buff_resp_len`; a timeout does not hand it out. -/
def Pass.lengthAfter (buffRespLen : Int) (p : Pass) : Int :=
  match p.received with
  | none => buffRespLen
  | some _ => p.stores.respMsgLen.getD buffRespLen

/-- A handler that answers a datagram assigns a length the buffer has, and one that assigns
none finds no length left over. -/
def Pass.LengthIsOwn (buffRespLen : Int) (p : Pass) : Prop :=
  p.received = none ∨
    match p.stores.respMsgLen with
    | none => buffRespLen ≤ 0
    | some respMsgLen => respMsgLen ≤ ipcBuffSize

/-- Every pass of the sequence meets the condition on lengths. -/
def LengthsAreOwn : Int → List Pass → Prop
  | _, [] => True
  | buffRespLen, p :: rest =>
      p.LengthIsOwn buffRespLen ∧ LengthsAreOwn (p.lengthAfter buffRespLen) rest

/-! ## One pass -/

theorem MsgLoop.pass_timeout (loop : MsgLoop) {p : Pass} (hreceived : p.received = none) :
    (loop.pass p).2 = none ∧ (loop.pass p).1.buffRespLen = loop.buffRespLen := by
  rw [Pass.received] at hreceived
  simp [MsgLoop.pass, MsgLoop.handle, hreceived]

/-- The reply to a datagram, by the length found in `buff_resp_len` after the handler ran. -/
theorem MsgLoop.pass_datagram (loop : MsgLoop) {p : Pass} {datagram : Datagram}
    (hreceived : p.received = some datagram) :
    (loop.pass p).1.buffRespLen = p.lengthAfter loop.buffRespLen ∧
      (loop.pass p).2 =
        if p.lengthAfter loop.buffRespLen > 0 then
          some ⟨datagram.peer,
            ((p.stores.respMsg ++ List.replicate ipcBuffSize 0).take ipcBuffSize).take
                (p.lengthAfter loop.buffRespLen).toNat ++
              overread p.behind (p.lengthAfter loop.buffRespLen)⟩
        else none := by
  have hlength : p.lengthAfter loop.buffRespLen =
      p.stores.respMsgLen.getD loop.buffRespLen := by
    rw [Pass.lengthAfter, hreceived]
  rw [hlength]
  rw [Pass.received] at hreceived
  refine ⟨?_, ?_⟩
  · simp only [MsgLoop.pass, MsgLoop.handle, hreceived, respond]
  · simp only [MsgLoop.pass, MsgLoop.handle, hreceived, respond]
    split <;> rfl

theorem MsgLoop.pass_buffRespLen (loop : MsgLoop) (p : Pass) :
    (loop.pass p).1.buffRespLen = p.lengthAfter loop.buffRespLen := by
  cases hreceived : p.received with
  | none =>
      rw [(loop.pass_timeout hreceived).2, Pass.lengthAfter, hreceived]
  | some datagram => exact (loop.pass_datagram hreceived).1

theorem overread_eq_nil_iff (behind : Nat → UInt8) (buffRespLen : Int) :
    overread behind buffRespLen = [] ↔ buffRespLen ≤ ipcBuffSize := by
  rw [overread, List.map_eq_nil_iff, List.range_eq_nil]
  omega

/-- A pass sends the handler's own reply exactly when its length is the handler's own. -/
theorem MsgLoop.pass_ownReply_iff (loop : MsgLoop) (p : Pass) :
    (loop.pass p).2 = p.ownReply ↔ p.LengthIsOwn loop.buffRespLen := by
  cases hreceived : p.received with
  | none =>
      rw [(loop.pass_timeout hreceived).1, Pass.ownReply, hreceived]
      exact iff_of_true rfl (Or.inl hreceived)
  | some datagram =>
      rw [(loop.pass_datagram hreceived).2, Pass.ownReply, Pass.LengthIsOwn, Pass.lengthAfter,
        hreceived, ownPayload]
      cases hassigned : p.stores.respMsgLen with
      | none =>
          -- the length left over decides
          by_cases hleft : loop.buffRespLen > 0
          · simp [hleft]
          · simp [hleft]
            omega
      | some respMsgLen =>
          by_cases hpositive : respMsgLen > 0
          · have hown := overread_eq_nil_iff p.behind respMsgLen
            simpa [hpositive] using hown
          · simp [hpositive]
            omega

theorem overread_injective {behind other : Nat → UInt8} {buffRespLen : Int}
    (hlong : buffRespLen > ipcBuffSize)
    (heq : overread behind buffRespLen = overread other buffRespLen) : behind 0 = other 0 := by
  obtain ⟨count, hcount⟩ : ∃ count, buffRespLen.toNat - ipcBuffSize = count + 1 :=
    ⟨buffRespLen.toNat - ipcBuffSize - 1, by omega⟩
  rw [overread, overread, hcount, List.range_succ_eq_map] at heq
  exact (List.cons.inj heq).1

/-- With a length beyond the buffer no function of the stores gives the reply: it shows the
memory behind the buffer. -/
theorem MsgLoop.pass_long_shows_memory (loop : MsgLoop) {p : Pass} {datagram : Datagram}
    (hreceived : p.received = some datagram) {respMsgLen : Int}
    (hassigned : p.stores.respMsgLen = some respMsgLen) (hlong : respMsgLen > ipcBuffSize)
    {behind : Nat → UInt8} (hbehind : behind 0 ≠ p.behind 0) :
    (loop.pass { p with behind := behind }).2 ≠ (loop.pass p).2 := by
  intro heq
  have hlength : p.lengthAfter loop.buffRespLen = respMsgLen := by
    simp [Pass.lengthAfter, hreceived, hassigned]
  have hlength' : Pass.lengthAfter loop.buffRespLen { p with behind := behind } = respMsgLen :=
    hlength
  have hpositive : respMsgLen > 0 := by omega
  rw [(loop.pass_datagram hreceived).2,
    (loop.pass_datagram (p := { p with behind := behind }) hreceived).2, hlength, hlength',
    if_pos hpositive, if_pos hpositive] at heq
  have hpayload := congrArg Datagram.payload (Option.some.inj heq)
  exact hbehind (overread_injective hlong (List.append_cancel_left hpayload))

/-! ## Every sequence of passes -/

/-- A loop sends nothing but its handler's own replies exactly when no length is carried
over into a pass that assigns none, and none goes beyond the buffer. -/
theorem replies_own_iff_of_loop (loop : MsgLoop) (passes : List Pass) :
    replies loop passes = passes.map Pass.ownReply ↔ LengthsAreOwn loop.buffRespLen passes := by
  induction passes generalizing loop with
  | nil => exact iff_of_true rfl trivial
  | cons p rest ih =>
      rw [replies, List.map_cons, List.cons.injEq, loop.pass_ownReply_iff, ih,
        loop.pass_buffRespLen]
      rfl

/-- A loop starts with `buff_resp_len` at 0. -/
theorem replies_own_iff (portNum : Int) (slot : Fin maxMsgLoopCnt) (passes : List Pass) :
    replies (.create portNum slot) passes = passes.map Pass.ownReply ↔
      LengthsAreOwn 0 passes :=
  replies_own_iff_of_loop (.create portNum slot) passes

/-- After an answer of two bytes, a datagram that the handler leaves unanswered is answered
with two zero bytes. -/
theorem replies_left_over_length :
    ¬ ∀ passes, replies (.create 5000 ⟨0, maxMsgLoopCnt_pos⟩) passes =
        passes.map Pass.ownReply := by
  intro hall
  have hown := (replies_own_iff_of_loop _ _).mp (hall
    [⟨some ⟨1, [63]⟩, ⟨[111, 107], some 2⟩, fun _ => 0⟩,
      ⟨some ⟨2, [63]⟩, ⟨[], none⟩, fun _ => 0⟩])
  rcases hown with ⟨_, hcarried | hcarried, _⟩
  · cases hcarried
  · exact absurd hcarried (by decide)

end MdsFormal.Ipc.Server
