import MdsFormal.Ipc.Server

/-!
# Who owns an entry of the server table

Sequences of `udp_ipc_server_start` and `udp_ipc_server_end`, with every thread
created.  The first start clears the table after it has picked its entry, so
the entry of the very first server never carries its port.  Once the table has
been cleared, ownership is kept by every call that finds an entry.
-/

namespace MdsFormal.Ipc.SlotOwnership

open Library.SlotTable Library.LabelledRun Server

/-- A port that `htons` may be given; 0 is the mark of a free entry. -/
abbrev Port := { portNum : Int // portNum ≠ 0 }

inductive Call where
  | serverStart (port : Port) (msgRecvProc : MsgRecvProc)
  | serverEnd (port : Port)
  deriving DecidableEq

def Call.port : Call → Port
  | .serverStart port _ => port
  | .serverEnd port => port

def Call.event : Call → Event
  | .serverStart port msgRecvProc => .serverStart port.1 msgRecvProc true
  | .serverEnd port => .serverEnd port.1

def Call.IsStart : Call → Prop
  | .serverStart .. => True
  | .serverEnd _ => False

def callStep (s : State) (call : Call) : Option State := step s call.event

/-- The entry at the loop's index carries the loop's port and tells it to run. -/
def Owns (table : Table) (loop : MsgLoop) : Prop :=
  (table loop.slot).portNum = loop.portNum ∧
    (table loop.slot).loopArg.portNum = loop.portNum ∧
    (table loop.slot).threadRun = 1

instance (table : Table) (loop : MsgLoop) : Decidable (Owns table loop) :=
  inferInstanceAs (Decidable (_ ∧ _ ∧ _))

/-- Every active loop owns its entry, no two share one, and no call has left the table. -/
def SlotsOwned (s : State) : Prop :=
  s.crashed = false ∧
    (∀ loop ∈ s.loops, loop.stopped = false → Owns s.table loop) ∧
    s.loops.Pairwise fun first second =>
      first.stopped = false → second.stopped = false → first.slot ≠ second.slot

instance (s : State) : Decidable (SlotsOwned s) :=
  inferInstanceAs (Decidable (_ ∧ _ ∧ _))

/-- Ownership in the state after a call. -/
def OwnershipAfter (s : State) (call : Call) : Prop :=
  ∀ next ∈ callStep s call, SlotsOwned next

instance (s : State) (call : Call) : Decidable (OwnershipAfter s call) :=
  inferInstanceAs (Decidable (∀ next ∈ callStep s call, SlotsOwned next))

theorem callStep_serverStart {s : State} (hcrashed : s.crashed = false) (port : Port)
    (msgRecvProc : MsgRecvProc) :
    callStep s (.serverStart port msgRecvProc) =
      some (udpIpcServerStart port.1 msgRecvProc true s) := by
  simp [callStep, step, Call.event, hcrashed]

theorem callStep_serverEnd {s : State} (hcrashed : s.crashed = false) (port : Port) :
    callStep s (.serverEnd port) = some (udpIpcServerEnd port.1 s) := by
  simp [callStep, step, Call.event, hcrashed]

/-! ## From process start -/

/-- No server has been started: the table is as the loader left it. -/
structure Untouched (s : State) : Prop where
  table : s.table = fun _ => MgrMsgLoop.zero
  initFlag : s.initFlag = false
  loops : s.loops = []
  crashed : s.crashed = false

theorem untouched_boot : Untouched State.boot := ⟨rfl, rfl, rfl, rfl⟩

theorem threadIdx_zero (portNum : Int) :
    ∃ idx, threadIdx portNum (fun _ => MgrMsgLoop.zero) = some idx := by
  refine Option.ne_none_iff_exists'.mp fun hnone => ?_
  exact (claimSlot_eq_none_iff.mp hnone).2 ⟨0, by decide⟩ rfl

/-- An end before any start marks an entry and clears it again. -/
theorem untouched_serverEnd {s : State} (hs : Untouched s) (port : Port) :
    ∃ next, callStep s (.serverEnd port) = some next ∧ Untouched next := by
  obtain ⟨idx, hidx⟩ := threadIdx_zero port.1
  rw [← hs.table] at hidx
  refine ⟨_, callStep_serverEnd hs.crashed port, ?_⟩
  rw [udpIpcServerEnd_eq hidx]
  constructor
  · change Function.update s.table idx MgrMsgLoop.zero = _
    rw [hs.table]
    exact Function.update_eq_self idx _
  · exact hs.initFlag
  · change s.loops.map _ = []
    rw [hs.loops]
    rfl
  · exact hs.crashed

theorem Untouched.slotsOwned {s : State} (hs : Untouched s) : SlotsOwned s := by
  refine ⟨hs.crashed, ?_, ?_⟩
  · rw [hs.loops]
    exact fun loop hloop => absurd hloop List.not_mem_nil
  · rw [hs.loops]
    exact List.Pairwise.nil

/-- The first start leaves its entry without the port. -/
theorem untouched_serverStart {s : State} (hs : Untouched s) (port : Port)
    (msgRecvProc : MsgRecvProc) :
    ¬ OwnershipAfter s (.serverStart port msgRecvProc) := by
  obtain ⟨idx, hidx⟩ := threadIdx_zero port.1
  rw [← hs.table] at hidx
  intro hafter
  have hstep := callStep_serverStart hs.crashed port msgRecvProc
  rw [udpIpcServerStart_first hidx hs.initFlag] at hstep
  obtain ⟨_, howns, _⟩ := hafter _ hstep
  have hfirst := (howns (.create port.1 idx) (by simp) rfl).1
  dsimp only [MsgLoop.create] at hfirst
  rw [Function.update_self] at hfirst
  exact port.2 hfirst.symm

/-- From process start, ownership holds after every call exactly when no server is started. -/
theorem slotOwnership_iff_no_start (calls : List Call) :
    EachStep callStep OwnershipAfter State.boot calls ↔ ∀ call ∈ calls, ¬ call.IsStart := by
  refine eachStep_iff_forall_label Untouched ?_ ?_ untouched_boot
  · intro s call hs hcall
    cases call with
    | serverStart port msgRecvProc => exact absurd trivial hcall
    | serverEnd port => exact untouched_serverEnd hs port
  · intro s call hs
    cases call with
    | serverStart port msgRecvProc =>
        exact iff_of_false (untouched_serverStart hs port msgRecvProc) fun h => h trivial
    | serverEnd port =>
        refine iff_of_true (fun next hnext => ?_) id
        obtain ⟨after, hafter, hkeep⟩ := untouched_serverEnd hs port
        cases hafter.symm.trans hnext
        exact hkeep.slotsOwned

/-- One start: the loop runs, and entry 0 carries port 0. -/
theorem slotOwnership_lost :
    ¬ EachStep callStep OwnershipAfter State.boot
      [.serverStart ⟨30995, by decide⟩ (some 1)] := by
  decide

/-! ## Once the table has been cleared -/

/-- Ownership among non-zero ports after the table has been cleared. -/
structure Settled (s : State) : Prop where
  initFlag : s.initFlag = true
  ports : ∀ loop ∈ s.loops, loop.portNum ≠ 0
  owned : SlotsOwned s

/-- The call finds an entry, and a start is for a port with no active loop. -/
def Served (s : State) (call : Call) : Prop :=
  (∃ idx, threadIdx call.port.1 s.table = some idx) ∧
    (call.IsStart → ∀ loop ∈ s.loops, loop.stopped = false → loop.portNum ≠ call.port.1)

/-- The entry picked for a port is not one of another port's active loop. -/
theorem Settled.idx_ne {s : State} (hs : Settled s) {portNum : Int} {idx : Fin maxMsgLoopCnt}
    (hidx : threadIdx portNum s.table = some idx) {loop : MsgLoop} (hloop : loop ∈ s.loops)
    (hactive : loop.stopped = false) (hne : loop.portNum ≠ portNum) : loop.slot ≠ idx := by
  obtain ⟨hport, _, _⟩ := hs.owned.2.1 loop hloop hactive
  refine (threadIdx_ne_of_portNum hidx ?_ ?_).symm
  · rw [hport]
    exact hne
  · rw [hport]
    exact hs.ports loop hloop

theorem Owns.update {table : Table} {loop : MsgLoop} (howns : Owns table loop)
    {idx : Fin maxMsgLoopCnt} (hne : loop.slot ≠ idx) (entry : MgrMsgLoop) :
    Owns (Function.update table idx entry) loop := by
  unfold Owns
  rw [Function.update_of_ne hne]
  exact howns

theorem settled_serverStart {s : State} (hs : Settled s) {port : Port}
    {msgRecvProc : MsgRecvProc} (hserved : Served s (.serverStart port msgRecvProc)) :
    Settled (udpIpcServerStart port.1 msgRecvProc true s) := by
  obtain ⟨⟨idx, hidx⟩, hfresh⟩ := hserved
  change threadIdx port.1 s.table = some idx at hidx
  have hne : ∀ loop ∈ s.loops, loop.stopped = false → loop.slot ≠ idx := fun loop hloop hactive =>
    hs.idx_ne hidx hloop hactive (hfresh trivial loop hloop hactive)
  obtain ⟨hcrashed, howns, hdistinct⟩ := hs.owned
  rw [udpIpcServerStart_initialized hidx hs.initFlag]
  constructor
  · exact hs.initFlag
  · intro loop hloop
    rcases List.mem_append.mp hloop with hold | hnew
    · exact hs.ports loop hold
    · cases List.mem_singleton.mp hnew
      exact port.2
  · refine ⟨hcrashed, ?_, ?_⟩
    · intro loop hloop hactive
      rcases List.mem_append.mp hloop with hold | hnew
      · exact (howns loop hold hactive).update (hne loop hold hactive) _
      · cases List.mem_singleton.mp hnew
        simp [Owns, MsgLoop.create]
    · refine List.pairwise_append.mpr ⟨hdistinct, List.pairwise_singleton _ _, ?_⟩
      intro first hfirst second hsecond hactive _
      cases List.mem_singleton.mp hsecond
      exact hne first hfirst hactive

theorem settled_serverEnd {s : State} (hs : Settled s) {port : Port}
    (hserved : Served s (.serverEnd port)) : Settled (udpIpcServerEnd port.1 s) := by
  obtain ⟨⟨idx, hidx⟩, _⟩ := hserved
  change threadIdx port.1 s.table = some idx at hidx
  obtain ⟨hcrashed, howns, hdistinct⟩ := hs.owned
  have hactive : ∀ loop : MsgLoop, (loop.markStopped port.1).stopped = false →
      loop.stopped = false ∧ loop.portNum ≠ port.1 := by
    intro loop hloop
    rw [← Bool.not_eq_true, MsgLoop.markStopped_stopped, not_or, Bool.not_eq_true] at hloop
    exact hloop
  rw [udpIpcServerEnd_eq hidx]
  constructor
  · exact hs.initFlag
  · intro loop hloop
    obtain ⟨before, hbefore, rfl⟩ := List.mem_map.mp hloop
    rw [MsgLoop.markStopped_portNum]
    exact hs.ports before hbefore
  · refine ⟨hcrashed, ?_, ?_⟩
    · intro loop hloop hrunning
      obtain ⟨before, hbefore, rfl⟩ := List.mem_map.mp hloop
      obtain ⟨hbefore_active, hother⟩ := hactive before hrunning
      have hkept := (howns before hbefore hbefore_active).update
        (hs.idx_ne hidx hbefore hbefore_active hother) MgrMsgLoop.zero
      simpa [Owns] using hkept
    · refine List.pairwise_map.mpr (hdistinct.imp ?_)
      intro first second hne hfirst hsecond
      rw [MsgLoop.markStopped_slot, MsgLoop.markStopped_slot]
      exact hne (hactive first hfirst).1 (hactive second hsecond).1

/-- Once the table has been cleared, ownership is kept by every run of served calls. -/
theorem settled_ownership {s : State} (hs : Settled s) {calls : List Call}
    (hserved : EachStep callStep Served s calls) : EachStep callStep OwnershipAfter s calls := by
  have hkeep : ∀ (s : State) (call : Call) (next : State), Settled s → Served s call →
      callStep s call = some next → Settled next := by
    intro s call next hs hserved hnext
    cases call with
    | serverStart port msgRecvProc =>
        rw [callStep_serverStart hs.owned.1] at hnext
        cases hnext
        exact settled_serverStart hs hserved
    | serverEnd port =>
        rw [callStep_serverEnd hs.owned.1] at hnext
        cases hnext
        exact settled_serverEnd hs hserved
  refine eachStep_of_invariant Settled hkeep ?_ hs hserved
  intro s call hs hserved next hnext
  exact (hkeep s call next hs hserved hnext).owned

/-- Starting and ending one server settles the table: the next one owns its entry. -/
example : ∃ s ∈ run callStep State.boot
    [.serverStart ⟨30995, by decide⟩ none, .serverEnd ⟨30995, by decide⟩,
      .serverStart ⟨30991, by decide⟩ none],
    s.initFlag = true ∧ SlotsOwned s ∧ s.loops.length = 2 := by
  decide

end MdsFormal.Ipc.SlotOwnership
