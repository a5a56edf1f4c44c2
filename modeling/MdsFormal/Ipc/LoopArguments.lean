import Mathlib.Data.List.Forall2
import MdsFormal.Ipc.Server

/-!
# Which argument a loop reads

`pthread_create` is given a pointer into the table, and the thread copies what is there when
it runs for the first time.  Until then a start or an end that picks the same entry replaces
the port, the index and the handler.  When none does, every loop serves its own start, and
no loop calls a null handler.
-/

namespace MdsFormal.Ipc.LoopArguments

open Library.LabelledRun Library.SlotTable Server

/-- The port and the handler of a start. -/
abbrev Start := Int × MsgRecvProc

/-- The start of the thread that an event creates. -/
def started : Event → List Start
  | .serverStart portNum msgRecvProc true => [(portNum, msgRecvProc)]
  | _ => []

/-- The starts of the threads of a run, in the order of the threads. -/
def starts (events : List Event) : List Start := events.flatMap started

/-- What a thread goes by: its copy of the argument, or what it will copy. -/
def argument (table : Table) (loop : MsgLoop) : MsgLoopArg :=
  if loop.phase = .created then (table loop.slot).loopArg else loop.loopArg

/-- The entry exists, and no thread has its argument in it still to read. -/
def FreeOfArguments (s : State) (portNum : Int) : Prop :=
  ∃ idx ∈ threadIdx portNum s.table, ∀ loop ∈ s.loops, loop.phase = .created → loop.slot ≠ idx

instance (s : State) (portNum : Int) : Decidable (FreeOfArguments s portNum) :=
  inferInstanceAs (Decidable (∃ idx ∈ threadIdx portNum s.table, ∀ loop ∈ s.loops, _))

/-- A call waits until the threads have read the argument in the entry it picks, and a start
gives a handler. -/
def WaitsForEntry (s : State) : Event → Prop
  | .serverStart portNum msgRecvProc _ => msgRecvProc ≠ none ∧ FreeOfArguments s portNum
  | .serverEnd portNum => FreeOfArguments s portNum
  | _ => True

instance (s : State) : (event : Event) → Decidable (WaitsForEntry s event)
  | .serverStart portNum msgRecvProc _ =>
      inferInstanceAs (Decidable (msgRecvProc ≠ none ∧ FreeOfArguments s portNum))
  | .serverEnd portNum => inferInstanceAs (Decidable (FreeOfArguments s portNum))
  | .enter .. => .isTrue trivial
  | .test _ => .isTrue trivial
  | .receive .. => .isTrue trivial
  | .handle .. => .isTrue trivial

/-! ## One step of a thread -/

section

variable {s next : State} {thread : Nat} {loop : MsgLoop} {event : Event}

/-- A step of a thread keeps what it goes by; it ends the process only by a null handler. -/
structure Reads (s next : State) (thread : Nat) (before : MsgLoop) : Prop where
  table_eq : next.table = s.table
  initFlag_eq : next.initFlag = s.initFlag
  loops_eq : ∃ after, next.loops = s.loops.set thread after ∧ after.slot = before.slot ∧
    after.phase ≠ .created ∧ argument s.table after = argument s.table before
  crashed_of : next.crashed = true →
    s.crashed = true ∨ (argument s.table before).msgRecvProc = none

theorem reads_handle {index : Nat} {stores : HandlerStores}
    (hloop : s.loops[thread]? = some loop)
    (hstep : threadStep s thread loop (.handle index stores) = some next) :
    Reads s next thread loop := by
  unfold threadStep at hstep
  cases hphase : loop.phase with
  | handling request =>
      have hread : argument s.table loop = loop.loopArg := by simp [argument, hphase]
      simp only [hphase] at hstep
      by_cases hproc : loop.loopArg.msgRecvProc = none
      · rw [if_pos hproc] at hstep
        cases hstep
        refine ⟨rfl, rfl, ⟨loop, ?_, rfl, by simp [hphase], rfl⟩, fun _ => .inr (hread ▸ hproc)⟩
        obtain ⟨hlength, hget⟩ := List.getElem?_eq_some_iff.mp hloop
        exact hget ▸ (List.set_getElem_self hlength).symm
      · rw [if_neg hproc] at hstep
        cases hstep
        refine ⟨rfl, rfl, ⟨(loop.handle request stores).1, rfl, ?_⟩, .inl⟩
        unfold MsgLoop.handle
        cases received request <;> simp [argument, hphase]
  | created => simp [hphase] at hstep
  | testing => simp [hphase] at hstep
  | receiving => simp [hphase] at hstep
  | finished => simp [hphase] at hstep

theorem reads_threadStep (hloop : s.loops[thread]? = some loop)
    (hstep : threadStep s thread loop event = some next) : Reads s next thread loop := by
  cases event with
  | serverStart portNum msgRecvProc threadCreated => cases hstep
  | serverEnd portNum => cases hstep
  | enter _ bound =>
      obtain ⟨hphase, rfl⟩ := Option.ite_some_none_eq_some.mp hstep
      refine ⟨rfl, rfl, ⟨loop.enter s.table bound, rfl, rfl, ?_⟩, .inl⟩
      cases bound <;> simp [MsgLoop.enter, argument, hphase]
  | test _ =>
      obtain ⟨hphase, rfl⟩ := Option.ite_some_none_eq_some.mp hstep
      refine ⟨rfl, rfl, ⟨loop.test s.table, rfl, rfl, ?_⟩, .inl⟩
      by_cases hrun : (s.table loop.loopArg.threadIndex).threadRun = 0 <;>
        simp [MsgLoop.test, argument, hphase, hrun]
  | receive _ request =>
      obtain ⟨hphase, rfl⟩ := Option.ite_some_none_eq_some.mp hstep
      refine ⟨rfl, rfl, ⟨{ loop with phase := .handling request }, rfl, rfl, ?_⟩, .inl⟩
      simp [argument, hphase]
  | handle _ stores => exact reads_handle hloop hstep

end

/-! ## The invariant -/

section

variable {α β : Type} {R S : α → β → Prop} {first : List α} {second : List β}

theorem forall₂_of_mem (hall : List.Forall₂ R first second)
    (himp : ∀ b ∈ second, ∀ a, R a b → S a b) : List.Forall₂ S first second := by
  induction hall with
  | nil => exact .nil
  | cons hhead _ ih =>
      obtain ⟨hfirst, hrest⟩ := List.forall_mem_cons.mp himp
      exact .cons (hfirst _ hhead) (ih hrest)

theorem exists_of_mem (hall : List.Forall₂ R first second) {b : β} (hb : b ∈ second) :
    ∃ a ∈ first, R a b := by
  induction hall with
  | nil => exact absurd hb List.not_mem_nil
  | cons hhead _ ih =>
      rcases List.mem_cons.mp hb with rfl | hlater
      · exact ⟨_, List.mem_cons_self, hhead⟩
      · obtain ⟨a, ha, hrel⟩ := ih hlater
        exact ⟨a, List.mem_cons_of_mem _ ha, hrel⟩

/-- Another element at one place. -/
theorem forall₂_set (hall : List.Forall₂ R first second) {place : Nat} {old new : β}
    (hold : second[place]? = some old) (himp : ∀ a, R a old → R a new) :
    List.Forall₂ R first (second.set place new) := by
  induction hall generalizing place with
  | nil => exact .nil
  | cons hhead htail ih =>
      cases place with
      | zero =>
          cases hold
          exact .cons (himp _ hhead) htail
      | succ place => exact .cons hhead (ih hold)

end

/-- A thread goes by the argument of its start. -/
def Own (table : Table) (start : Start) (loop : MsgLoop) : Prop :=
  argument table loop = ⟨start.1, loop.slot, start.2⟩

/-- After the starts in `history`, each thread goes by the argument of its own start. -/
structure Serves (history : List Start) (s : State) : Prop where
  crashed_eq : s.crashed = false
  handlers : ∀ start ∈ history, start.2 ≠ none
  own : List.Forall₂ (Own s.table) history s.loops
  untouched : s.initFlag = false → s.loops = []

section

variable {s next : State} {history : List Start} {portNum : Int} {msgRecvProc : MsgRecvProc}
  {threadCreated : Bool} {event : Event} {idx : Fin maxMsgLoopCnt}

theorem serves_boot : Serves [] State.boot where
  crashed_eq := rfl
  handlers := List.forall_mem_nil _
  own := .nil
  untouched _ := rfl

/-- What an entry holds matters only to a thread that has not read it. -/
theorem argument_update {table : Table} {entry : MgrMsgLoop} {loop : MsgLoop}
    (hslot : loop.phase = .created → loop.slot ≠ idx) :
    argument (Function.update table idx entry) loop = argument table loop := by
  unfold argument
  split
  · next hcreated => rw [Function.update_of_ne (hslot hcreated)]
  · rfl

/-- What a start leaves, with the table that it found or has cleared. -/
theorem serverStart_eq (hs : Serves history s) (hidx : threadIdx portNum s.table = some idx) :
    ∃ entry table, entry.loopArg = ⟨portNum, idx, msgRecvProc⟩ ∧
      udpIpcServerStart portNum msgRecvProc threadCreated s =
        { s with
          table := Function.update table idx entry
          initFlag := true
          loops := if threadCreated then s.loops ++ [.create portNum idx] else s.loops } ∧
      ∀ loop ∈ s.loops, argument table loop = argument s.table loop := by
  cases hinit : s.initFlag with
  | false =>
      refine ⟨_, _, ?_, udpIpcServerStart_first hidx hinit msgRecvProc threadCreated, ?_⟩
      · rfl
      · rw [hs.untouched hinit]
        exact List.forall_mem_nil _
  | true =>
      refine ⟨⟨portNum, 1, ⟨portNum, idx, msgRecvProc⟩⟩, s.table, rfl, ?_, fun _ _ => rfl⟩
      rw [udpIpcServerStart_initialized hidx hinit, hinit]

theorem Serves.serverStart (hs : Serves history s)
    (hguard : WaitsForEntry s (.serverStart portNum msgRecvProc threadCreated)) :
    Serves (history ++ started (.serverStart portNum msgRecvProc threadCreated))
      (udpIpcServerStart portNum msgRecvProc threadCreated s) := by
  obtain ⟨hproc, idx, hidx, hfree⟩ := hguard
  obtain ⟨entry, table, hentry, hstart, hsame⟩ :=
    @serverStart_eq s history portNum msgRecvProc threadCreated idx hs hidx
  have hkept : List.Forall₂ (Own (Function.update table idx entry)) history s.loops := by
    refine forall₂_of_mem hs.own fun loop hloop start hown => ?_
    unfold Own at hown ⊢
    rw [argument_update (hfree loop hloop), hsame loop hloop, hown]
  rw [hstart]
  cases threadCreated with
  | false =>
      change Serves (history ++ []) _
      rw [List.append_nil]
      exact ⟨hs.crashed_eq, hs.handlers, hkept, fun hinit => nomatch hinit⟩
  | true =>
      refine ⟨hs.crashed_eq, ?_, ?_, fun hinit => nomatch hinit⟩
      · rw [started, List.forall_mem_append, List.forall_mem_singleton]
        exact ⟨hs.handlers, hproc⟩
      · have hnew : Own (Function.update table idx entry) (portNum, msgRecvProc)
            (.create portNum idx) := by
          change (Function.update table idx entry idx).loopArg = _
          rw [Function.update_self, hentry]
          rfl
        exact List.rel_append hkept (.cons hnew .nil)

theorem Serves.serverEnd (hs : Serves history s) (hguard : WaitsForEntry s (.serverEnd portNum)) :
    Serves history (udpIpcServerEnd portNum s) := by
  obtain ⟨idx, hidx, hfree⟩ := hguard
  rw [udpIpcServerEnd_eq hidx]
  refine ⟨hs.crashed_eq, hs.handlers, ?_, fun hinit => ?_⟩
  · rw [List.forall₂_map_right_iff]
    refine forall₂_of_mem hs.own fun loop hloop start hown => ?_
    have hmarked : argument (Function.update s.table idx MgrMsgLoop.zero)
        (loop.markStopped portNum) = argument s.table loop := by
      rw [← @argument_update idx s.table MgrMsgLoop.zero loop (hfree loop hloop)]
      simp only [argument, MsgLoop.markStopped_phase, MsgLoop.markStopped_slot,
        MsgLoop.markStopped_loopArg]
    unfold Own at hown ⊢
    rw [hmarked, MsgLoop.markStopped_slot, hown]
  · rw [hs.untouched hinit]
    rfl

theorem Serves.reads {thread : Nat} {loop : MsgLoop} (hs : Serves history s)
    (hloop : s.loops[thread]? = some loop) (hreads : Reads s next thread loop) :
    Serves history next := by
  obtain ⟨htable, hinit, ⟨after, hloops, hslot, -, hsame⟩, hcrashed⟩ := hreads
  refine ⟨?_, hs.handlers, ?_, fun huntouched => ?_⟩
  · rw [← Bool.not_eq_true]
    intro hcrash
    rcases hcrashed hcrash with hbefore | hnull
    · exact absurd hbefore (by rw [hs.crashed_eq]; decide)
    · obtain ⟨start, hstart, hown⟩ := exists_of_mem hs.own (List.mem_of_getElem? hloop)
      rw [hown] at hnull
      exact hs.handlers start hstart hnull
  · rw [htable, hloops]
    refine forall₂_set hs.own hloop fun start hown => ?_
    unfold Own at hown ⊢
    rw [hsame, hslot, hown]
  · rw [hloops, hs.untouched (hinit ▸ huntouched)]
    rfl

theorem step_thread (hs : Serves history s) {thread : Nat} (hthread : event.thread? = some thread) :
    Server.step s event = (s.loops[thread]?).bind fun loop => threadStep s thread loop event := by
  unfold Server.step
  rw [hs.crashed_eq]
  cases event with
  | serverStart portNum msgRecvProc threadCreated => cases hthread
  | serverEnd portNum => cases hthread
  | enter _ _ | test _ | receive _ _ | handle _ _ =>
      cases hthread
      cases hloop : s.loops[thread]? <;> simp [Event.thread?, hloop]

theorem Serves.threadStep (hs : Serves history s) {thread : Nat}
    (hthread : event.thread? = some thread) (hstep : Server.step s event = some next) :
    Serves history next := by
  rw [step_thread hs hthread] at hstep
  obtain ⟨loop, hloop, hmove⟩ := Option.bind_eq_some_iff.mp hstep
  exact hs.reads hloop (reads_threadStep hloop hmove)

theorem Serves.step (hs : Serves history s) (hguard : WaitsForEntry s event)
    (hstep : Server.step s event = some next) : Serves (history ++ started event) next := by
  cases event with
  | serverStart portNum msgRecvProc threadCreated =>
      rw [Server.step, hs.crashed_eq] at hstep
      cases hstep
      exact hs.serverStart hguard
  | serverEnd portNum =>
      rw [Server.step, hs.crashed_eq] at hstep
      cases hstep
      change Serves (history ++ []) _
      rw [List.append_nil]
      exact hs.serverEnd hguard
  | enter thread bound | test thread | receive thread request | handle thread stores =>
      change Serves (history ++ []) _
      rw [List.append_nil]
      exact hs.threadStep rfl hstep

theorem Serves.run {events : List Event} (hs : Serves history s)
    (hguard : EachStep Server.step WaitsForEntry s events)
    (hrun : Library.LabelledRun.run Server.step s events = some next) :
    Serves (history ++ starts events) next := by
  induction events generalizing history s with
  | nil =>
      cases hrun
      rw [starts, List.flatMap_nil, List.append_nil]
      exact hs
  | cons event rest ih =>
      obtain ⟨hhead, htail⟩ := eachStep_cons.mp hguard
      obtain ⟨middle, hmiddle, hrest⟩ := Option.bind_eq_some_iff.mp hrun
      rw [starts, List.flatMap_cons, ← List.append_assoc]
      exact ih (hs.step hhead hmiddle) (htail middle hmiddle) hrest

end

/-- A thread that has read its argument has that of its start. -/
def ReadItsOwn (start : Start) (loop : MsgLoop) : Prop :=
  loop.phase ≠ .created → loop.loopArg = ⟨start.1, loop.slot, start.2⟩

/--
While calls leave the arguments that are still to be read alone, no interleaving crashes the
process, and each thread serves the port and calls the handler of the start that created it.
-/
theorem loops_serve_their_starts (events : List Event) (s : State)
    (hguard : EachStep Server.step WaitsForEntry State.boot events)
    (hrun : run Server.step State.boot events = some s) :
    s.crashed = false ∧ List.Forall₂ ReadItsOwn (starts events) s.loops := by
  have hs := serves_boot.run hguard hrun
  refine ⟨hs.crashed_eq, hs.own.imp fun start loop hown hentered => ?_⟩
  rw [← hown, argument, if_neg hentered]

/-- Two servers, the second started when the first one's thread has read its argument. -/
theorem loops_serve_their_starts_two :
    ∃ s, run Server.step State.boot [.serverStart 30995 (some 1) true, .enter 0 true,
        .serverStart 30991 (some 2) true, .enter 1 true] = some s ∧
      s.crashed = false ∧ List.Forall₂ ReadItsOwn [(30995, some 1), (30991, some 2)] s.loops :=
  ⟨_, rfl, loops_serve_their_starts [.serverStart 30995 (some 1) true, .enter 0 true,
    .serverStart 30991 (some 2) true, .enter 1 true] _ (by decide) rfl⟩

/-- The second start finds the first entry unmarked, and the first thread reads its argument. -/
example : (run Server.step State.boot [.serverStart 30995 (some 1) true,
    .serverStart 30991 (some 2) true, .enter 0 true]).map
      (fun s => s.loops.map fun loop => (loop.portNum, loop.loopArg.portNum)) =
    some [(30995, 30991), (30991, 0)] := by
  decide

end MdsFormal.Ipc.LoopArguments
