import Mathlib.Logic.Function.Basic
import MdsFormal.Library.SlotTable
import MdsFormal.Library.LabelledRun

/-!
# The UDP message server

The table of message loops, the two calls that start and stop a loop, and the
loop itself cut into the steps at which other threads can interleave: it takes
its argument and binds, tests its run flag, receives, and calls its handler.
-/

namespace MdsFormal.Ipc.Server

open Library.SlotTable

/-- The source's `MAX_MSG_LOOP_CNT`. -/
def maxMsgLoopCnt : Nat := 20

theorem maxMsgLoopCnt_pos : 0 < maxMsgLoopCnt := by decide

/-- The source's `IPC_BUFF_SIZE`. -/
def ipcBuffSize : Nat := 1024

/-- A handler's address; `none` is the null pointer. -/
abbrev MsgRecvProc := Option Nat

/-- `MSG_LOOP_ARG_T`. -/
structure MsgLoopArg where
  portNum : Int
  threadIndex : Fin maxMsgLoopCnt
  msgRecvProc : MsgRecvProc
  deriving DecidableEq

/-- `MGR_MSG_LOOP_T`, without the thread handle that nothing reads. -/
structure MgrMsgLoop where
  portNum : Int
  threadRun : Int
  loopArg : MsgLoopArg
  deriving DecidableEq

/-- An entry as `memset` leaves it. -/
def MgrMsgLoop.zero : MgrMsgLoop := ⟨0, 0, ⟨0, ⟨0, maxMsgLoopCnt_pos⟩, none⟩⟩

/-- `g_mgr_msg_loop`. -/
abbrev Table := Fin maxMsgLoopCnt → MgrMsgLoop

/-- A datagram with the address of the socket at its other end. -/
structure Datagram where
  peer : Nat
  payload : List UInt8
  deriving DecidableEq

/-- Where a loop stands between two of its steps. -/
inductive Phase where
  | created
  | testing
  | receiving
  | handling (request : Option Datagram)
  | finished
  deriving DecidableEq

/-- One thread running `_svr_msg_loop`.  `portNum` and `stopped` record the call that
started it and whether that port has been ended since; the code itself keeps neither. -/
structure MsgLoop where
  portNum : Int
  slot : Fin maxMsgLoopCnt
  phase : Phase
  loopArg : MsgLoopArg
  buffRespLen : Int
  stopped : Bool
  deriving DecidableEq

structure State where
  table : Table
  initFlag : Bool
  loops : List MsgLoop
  sent : List Datagram
  crashed : Bool

/-- The state at process start: static storage is zero. -/
def State.boot : State := ⟨fun _ => MgrMsgLoop.zero, false, [], [], false⟩

/-! ## The table calls -/

/-- `_loop_mgr_init`: clears the table the first time it is called. -/
def loopMgrInit (s : State) : State :=
  if s.initFlag then s else { s with table := fun _ => MgrMsgLoop.zero, initFlag := true }

/-- The index part of `_get_thread_idx`; `none` is -1. -/
def threadIdx (portNum : Int) (table : Table) : Option (Fin maxMsgLoopCnt) :=
  claimSlot (·.portNum = portNum) (·.portNum = 0) table

/-- `_get_thread_idx`: a free entry that it picks is marked with the port. -/
def getThreadIdx (portNum : Int) (table : Table) : Option (Fin maxMsgLoopCnt) × Table :=
  match threadIdx portNum table with
  | some idx => (some idx, Function.update table idx { table idx with portNum := portNum })
  | none => (none, table)

/-- A thread that has not read its argument yet. -/
def MsgLoop.create (portNum : Int) (slot : Fin maxMsgLoopCnt) : MsgLoop :=
  ⟨portNum, slot, .created, MgrMsgLoop.zero.loopArg, 0, false⟩

/-- `udp_ipc_server_start`.  The table is cleared after the entry has been picked. -/
def udpIpcServerStart (portNum : Int) (msgRecvProc : MsgRecvProc) (threadCreated : Bool)
    (s : State) : State :=
  let (msgLoopIdx, table) := getThreadIdx portNum s.table
  let s := loopMgrInit { s with table := table }
  match msgLoopIdx with
  | none => { s with crashed := true }    -- writes to entry -1
  | some idx =>
      let entry : MgrMsgLoop :=
        { s.table idx with threadRun := 1, loopArg := ⟨portNum, idx, msgRecvProc⟩ }
      { s with
        table := Function.update s.table idx entry
        loops := if threadCreated then s.loops ++ [.create portNum idx] else s.loops }

/-- The record that a loop of this port has been stopped. -/
def MsgLoop.markStopped (portNum : Int) (loop : MsgLoop) : MsgLoop :=
  if loop.portNum = portNum then { loop with stopped := true } else loop

/-- `udp_ipc_server_end`. -/
def udpIpcServerEnd (portNum : Int) (s : State) : State :=
  let (msgLoopIdx, table) := getThreadIdx portNum s.table
  match msgLoopIdx with
  | none => { s with crashed := true }    -- clears entry -1
  | some idx =>
      { s with
        table := Function.update table idx MgrMsgLoop.zero
        loops := s.loops.map (MsgLoop.markStopped portNum) }

/-! ## The message loop -/

/-- What a handler stores through its last two arguments; `none` leaves
`*resp_msg_len` as it was. -/
structure HandlerStores where
  respMsg : List UInt8
  respMsgLen : Option Int
  deriving DecidableEq

/-- The reply of one pass of the loop: `buff_resp` is cleared before the handler runs,
`buff_resp_len` is not.  The stack behind the buffer is not modelled. -/
def respond (buffRespLen : Int) (stores : HandlerStores) : Int × Option (List UInt8) :=
  let buffRespLen := stores.respMsgLen.getD buffRespLen
  let buffResp := (stores.respMsg ++ List.replicate ipcBuffSize 0).take ipcBuffSize
  (buffRespLen, if buffRespLen > 0 then some (buffResp.take buffRespLen.toNat) else none)

/-- The copy of the argument, the socket and its binding. -/
def MsgLoop.enter (table : Table) (bound : Bool) (loop : MsgLoop) : MsgLoop :=
  { loop with
    loopArg := (table loop.slot).loopArg
    phase := if bound then .testing else .finished }

/-- The test of `thread_run` at the head of the `while`. -/
def MsgLoop.test (table : Table) (loop : MsgLoop) : MsgLoop :=
  { loop with
    phase := if (table loop.loopArg.threadIndex).threadRun ≠ 0 then .receiving else .finished }

/-- The datagram for which `recvfrom` returns a positive size; an empty one is taken for a
timeout. -/
def received (request : Option Datagram) : Option Datagram :=
  request.filter fun datagram => datagram.payload ≠ []

/-- One call of the handler, with or without a datagram, and the reply to send. -/
def MsgLoop.handle (request : Option Datagram) (stores : HandlerStores) (loop : MsgLoop) :
    MsgLoop × Option Datagram :=
  match received request with
  | none => ({ loop with phase := .testing }, none)
  | some datagram =>
      let (buffRespLen, reply) := respond loop.buffRespLen stores
      ({ loop with phase := .testing, buffRespLen := buffRespLen },
        reply.map fun payload => ⟨datagram.peer, payload⟩)

/-! ## Interleaved steps -/

/-- One call of the table functions, or one step of the thread with the given number. -/
inductive Event where
  | serverStart (portNum : Int) (msgRecvProc : MsgRecvProc) (threadCreated : Bool)
  | serverEnd (portNum : Int)
  | enter (thread : Nat) (bound : Bool)
  | test (thread : Nat)
  | receive (thread : Nat) (request : Option Datagram)
  | handle (thread : Nat) (stores : HandlerStores)
  deriving DecidableEq

/-- Replace the state of one thread. -/
def State.setLoop (s : State) (thread : Nat) (loop : MsgLoop) : State :=
  { s with loops := s.loops.set thread loop }

/-- A step of one thread, possible only in its phase. -/
def threadStep (s : State) (thread : Nat) (loop : MsgLoop) : Event → Option State
  | .enter _ bound =>
      if loop.phase = .created then some (s.setLoop thread (loop.enter s.table bound)) else none
  | .test _ =>
      if loop.phase = .testing then some (s.setLoop thread (loop.test s.table)) else none
  | .receive _ request =>
      if loop.phase = .receiving then
        some (s.setLoop thread { loop with phase := .handling request })
      else none
  | .handle _ stores =>
      match loop.phase with
      | .handling request =>
          if loop.loopArg.msgRecvProc = none then some { s with crashed := true }
          else
            let (loop, reply) := loop.handle request stores
            some { s.setLoop thread loop with sent := s.sent ++ reply.toList }
      | _ => none
  | _ => none

/-- The thread an event belongs to. -/
def Event.thread? : Event → Option Nat
  | .serverStart .. => none
  | .serverEnd .. => none
  | .enter thread _ => some thread
  | .test thread => some thread
  | .receive thread _ => some thread
  | .handle thread _ => some thread

/-- One event of the process.  After a crash nothing more is said about it. -/
def step (s : State) (event : Event) : Option State :=
  if s.crashed then none
  else
    match event with
    | .serverStart portNum msgRecvProc threadCreated =>
        some (udpIpcServerStart portNum msgRecvProc threadCreated s)
    | .serverEnd portNum => some (udpIpcServerEnd portNum s)
    | event =>
        match event.thread? with
        | none => none
        | some thread =>
            match s.loops[thread]? with
            | none => none
            | some loop => threadStep s thread loop event

/-! ## What each operation does to the table -/

variable {portNum : Int} {table : Table} {s : State} {idx : Fin maxMsgLoopCnt}

/-- An entry that is picked carries the port already, or is free. -/
theorem threadIdx_portNum (hidx : threadIdx portNum table = some idx) :
    (table idx).portNum = portNum ∨ (table idx).portNum = 0 := by
  rcases claimSlot_cases hidx with hmine | hfree
  · exact Or.inl hmine
  · exact Or.inr hfree.2

/-- No entry is picked for another port's entry. -/
theorem threadIdx_ne_of_portNum (hidx : threadIdx portNum table = some idx)
    {other : Fin maxMsgLoopCnt} (hne : (table other).portNum ≠ portNum)
    (hused : (table other).portNum ≠ 0) : idx ≠ other := by
  rintro rfl
  rcases threadIdx_portNum hidx with hport | hzero
  · exact hne hport
  · exact hused hzero

@[simp]
theorem getThreadIdx_fst : (getThreadIdx portNum table).1 = threadIdx portNum table := by
  unfold getThreadIdx
  cases threadIdx portNum table <;> rfl

theorem getThreadIdx_snd (hidx : threadIdx portNum table = some idx) :
    (getThreadIdx portNum table).2 =
      Function.update table idx { table idx with portNum := portNum } := by
  unfold getThreadIdx
  rw [hidx]

/-- A start that finds an entry, once the table has been cleared before. -/
theorem udpIpcServerStart_initialized (hidx : threadIdx portNum s.table = some idx)
    (hinit : s.initFlag = true) (msgRecvProc : MsgRecvProc) (threadCreated : Bool) :
    udpIpcServerStart portNum msgRecvProc threadCreated s =
      { s with
        table := Function.update s.table idx ⟨portNum, 1, ⟨portNum, idx, msgRecvProc⟩⟩
        loops := if threadCreated then s.loops ++ [.create portNum idx] else s.loops } := by
  unfold udpIpcServerStart loopMgrInit
  simp [getThreadIdx_snd hidx, hidx, hinit]

/-- The first start clears the table and with it the port of the entry it has just picked. -/
theorem udpIpcServerStart_first (hidx : threadIdx portNum s.table = some idx)
    (hinit : s.initFlag = false) (msgRecvProc : MsgRecvProc) (threadCreated : Bool) :
    udpIpcServerStart portNum msgRecvProc threadCreated s =
      { s with
        table := Function.update (fun _ => MgrMsgLoop.zero) idx
          ⟨0, 1, ⟨portNum, idx, msgRecvProc⟩⟩
        initFlag := true
        loops := if threadCreated then s.loops ++ [.create portNum idx] else s.loops } := by
  unfold udpIpcServerStart loopMgrInit
  simp [getThreadIdx_fst, hidx, hinit, MgrMsgLoop.zero]

/-- An end that finds an entry clears it. -/
theorem udpIpcServerEnd_eq (hidx : threadIdx portNum s.table = some idx) :
    udpIpcServerEnd portNum s =
      { s with
        table := Function.update s.table idx MgrMsgLoop.zero
        loops := s.loops.map (MsgLoop.markStopped portNum) } := by
  unfold udpIpcServerEnd
  simp [getThreadIdx_snd hidx, hidx]

@[simp]
theorem MsgLoop.markStopped_slot (loop : MsgLoop) :
    (loop.markStopped portNum).slot = loop.slot := by
  unfold MsgLoop.markStopped
  split <;> rfl

@[simp]
theorem MsgLoop.markStopped_portNum (loop : MsgLoop) :
    (loop.markStopped portNum).portNum = loop.portNum := by
  unfold MsgLoop.markStopped
  split <;> rfl

@[simp]
theorem MsgLoop.markStopped_phase (loop : MsgLoop) :
    (loop.markStopped portNum).phase = loop.phase := by
  unfold MsgLoop.markStopped
  split <;> rfl

@[simp]
theorem MsgLoop.markStopped_loopArg (loop : MsgLoop) :
    (loop.markStopped portNum).loopArg = loop.loopArg := by
  unfold MsgLoop.markStopped
  split <;> rfl

/-- A loop is marked exactly when it was marked before or is of the ended port. -/
@[simp]
theorem MsgLoop.markStopped_stopped (loop : MsgLoop) :
    (loop.markStopped portNum).stopped = true ↔
      loop.stopped = true ∨ loop.portNum = portNum := by
  unfold MsgLoop.markStopped
  split <;> simp [*]

/-- A start leaves no other entry running that was not. -/
theorem udpIpcServerStart_threadRun {slot : Fin maxMsgLoopCnt} (msgRecvProc : MsgRecvProc)
    (threadCreated : Bool) (hidle : (s.table slot).threadRun = 0)
    (hother : ∀ idx ∈ threadIdx portNum s.table, slot ≠ idx) :
    ((udpIpcServerStart portNum msgRecvProc threadCreated s).table slot).threadRun = 0 := by
  cases hidx : threadIdx portNum s.table with
  | none =>
      unfold udpIpcServerStart loopMgrInit getThreadIdx
      rw [hidx]
      cases hinit : s.initFlag
      · simp [MgrMsgLoop.zero]
      · simpa [hinit] using hidle
  | some idx =>
      have hne : slot ≠ idx := hother idx hidx
      cases hinit : s.initFlag with
      | false =>
          simp [udpIpcServerStart_first hidx hinit, Function.update_of_ne hne, MgrMsgLoop.zero]
      | true =>
          simpa [udpIpcServerStart_initialized hidx hinit, Function.update_of_ne hne] using hidle

/-- A start adds at most its own thread. -/
theorem udpIpcServerStart_loops (msgRecvProc : MsgRecvProc) (threadCreated : Bool) :
    ∃ added, (udpIpcServerStart portNum msgRecvProc threadCreated s).loops = s.loops ++ added ∧
      ∀ loop ∈ added, ∃ idx, loop = .create portNum idx := by
  cases hidx : threadIdx portNum s.table with
  | none =>
      refine ⟨[], ?_, by simp⟩
      unfold udpIpcServerStart loopMgrInit getThreadIdx
      rw [hidx]
      cases s.initFlag <;> simp
  | some idx =>
      refine ⟨if threadCreated then [.create portNum idx] else [], ?_, ?_⟩
      · cases hinit : s.initFlag with
        | false =>
            rw [udpIpcServerStart_first hidx hinit]
            cases threadCreated <;> simp
        | true =>
            rw [udpIpcServerStart_initialized hidx hinit]
            cases threadCreated <;> simp
      · intro loop hloop
        cases threadCreated with
        | false => exact absurd hloop List.not_mem_nil
        | true => exact ⟨idx, List.mem_singleton.mp hloop⟩

/-! ## What a step of a thread does -/

/-- The state of one thread before and after one of its steps. -/
structure ThreadMove (table : Table) (before after : MsgLoop) : Prop where
  portNum : after.portNum = before.portNum
  stopped : after.stopped = before.stopped
  loopArg : before.phase ≠ .created → after.loopArg = before.loopArg
  entered : after.phase ≠ .created
  unfinished : before.phase ≠ .finished
  received : after.phase = .receiving →
    (table before.loopArg.threadIndex).threadRun ≠ 0 ∧ before.phase = .testing

/-- The handler is called for a thread that has received a request; a null one ends the
process there. -/
theorem threadStep_handle_move {thread index : Nat} {loop : MsgLoop} {stores : HandlerStores}
    {next : State} (hloop : s.loops[thread]? = some loop)
    (hstep : threadStep s thread loop (.handle index stores) = some next) :
    next.table = s.table ∧
      ∃ after, next.loops = s.loops.set thread after ∧ ThreadMove s.table loop after := by
  unfold threadStep at hstep
  cases hphase : loop.phase with
  | handling request =>
      simp only [hphase] at hstep
      by_cases hproc : loop.loopArg.msgRecvProc = none
      · rw [if_pos hproc] at hstep
        cases hstep
        refine ⟨rfl, loop, ?_, ?_⟩
        · obtain ⟨hlength, hget⟩ := List.getElem?_eq_some_iff.mp hloop
          exact hget ▸ (List.set_getElem_self hlength).symm
        · constructor <;> simp [hphase]
      · rw [if_neg hproc] at hstep
        cases hstep
        refine ⟨rfl, (loop.handle request stores).1, rfl, ?_⟩
        unfold MsgLoop.handle
        cases received request <;> constructor <;> simp [hphase]
  | created => simp [hphase] at hstep
  | testing => simp [hphase] at hstep
  | receiving => simp [hphase] at hstep
  | finished => simp [hphase] at hstep

theorem threadStep_move {thread : Nat} {loop : MsgLoop} {event : Event} {next : State}
    (hloop : s.loops[thread]? = some loop)
    (hstep : threadStep s thread loop event = some next) :
    next.table = s.table ∧
      ∃ after, next.loops = s.loops.set thread after ∧ ThreadMove s.table loop after := by
  cases event with
  | serverStart portNum msgRecvProc threadCreated => cases hstep
  | serverEnd portNum => cases hstep
  | enter _ bound =>
      obtain ⟨hphase, rfl⟩ := Option.ite_some_none_eq_some.mp hstep
      refine ⟨rfl, loop.enter s.table bound, rfl, ?_⟩
      cases bound <;> constructor <;> simp [MsgLoop.enter, hphase]
  | test _ =>
      obtain ⟨hphase, rfl⟩ := Option.ite_some_none_eq_some.mp hstep
      refine ⟨rfl, loop.test s.table, rfl, ?_⟩
      by_cases hrun : (s.table loop.loopArg.threadIndex).threadRun = 0 <;>
        constructor <;> simp [MsgLoop.test, hphase, hrun]
  | receive _ request =>
      obtain ⟨hphase, rfl⟩ := Option.ite_some_none_eq_some.mp hstep
      refine ⟨rfl, { loop with phase := .handling request }, rfl, ?_⟩
      constructor <;> simp [hphase]
  | handle _ stores => exact threadStep_handle_move hloop hstep

/-- A step is one of the two table calls or a move of one thread. -/
theorem step_cases {event : Event} {next : State} (hstep : step s event = some next) :
    (∃ portNum msgRecvProc threadCreated,
      event = .serverStart portNum msgRecvProc threadCreated ∧
        next = udpIpcServerStart portNum msgRecvProc threadCreated s) ∨
    (∃ portNum, event = .serverEnd portNum ∧ next = udpIpcServerEnd portNum s) ∨
    (∃ thread before after, s.loops[thread]? = some before ∧ next.table = s.table ∧
      next.loops = s.loops.set thread after ∧ ThreadMove s.table before after) := by
  unfold step at hstep
  cases hcrashed : s.crashed with
  | true => simp [hcrashed] at hstep
  | false =>
      simp only [hcrashed, Bool.false_eq_true, if_false] at hstep
      cases event with
      | serverStart portNum msgRecvProc threadCreated =>
          exact Or.inl ⟨portNum, msgRecvProc, threadCreated, rfl, (Option.some.inj hstep).symm⟩
      | serverEnd portNum => exact Or.inr (Or.inl ⟨portNum, rfl, (Option.some.inj hstep).symm⟩)
      | enter thread _ | test thread | receive thread _ | handle thread _ =>
          right; right
          simp only [Event.thread?] at hstep
          cases hloop : s.loops[thread]? with
          | none => simp [hloop] at hstep
          | some before =>
              simp only [hloop] at hstep
              obtain ⟨htable, after, hloops, hmove⟩ := threadStep_move hloop hstep
              exact ⟨thread, before, after, hloop, htable, hloops, hmove⟩

end MdsFormal.Ipc.Server
