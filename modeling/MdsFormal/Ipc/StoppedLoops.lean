import MdsFormal.Ipc.Server

/-!
# Stopping a message loop

A loop learns that it has been stopped from `thread_run` of the entry it was
given, and `udp_ipc_server_end` frees that entry at once.  A later start may
take the entry and set the flag again before the old loop has tested it.
-/

namespace MdsFormal.Ipc.StoppedLoops

open Library.LabelledRun Server

/-- No stopped loop of the port begins a receive in this step. -/
def StaysStopped (portNum : Int) (s : State) (event : Event) : Prop :=
  ∀ next ∈ step s event, ∀ pair ∈ s.loops.zip next.loops,
    pair.1.portNum = portNum → pair.1.stopped = true →
      pair.1.phase ≠ .receiving → pair.2.phase ≠ .receiving

instance (portNum : Int) (s : State) (event : Event) :
    Decidable (StaysStopped portNum s event) :=
  inferInstanceAs (Decidable (∀ next ∈ step s event, ∀ pair ∈ s.loops.zip next.loops, _))

/-- The events that start a server of the port. -/
def startsPort (portNum : Int) : Event → Bool
  | .serverStart other _ _ => other == portNum
  | _ => false

/-- A loop that has been stopped and has not noticed yet. -/
def Lingering (loop : MsgLoop) : Prop := loop.stopped = true ∧ loop.phase ≠ .finished

instance (loop : MsgLoop) : Decidable (Lingering loop) := inferInstanceAs (Decidable (_ ∧ _))

/-- The condition on the calls.  A start does not take the entry of a loop that was
stopped and still runs; an end clears the entry that the running loops of its port
have taken over from their arguments. -/
def HeedsStop (s : State) : Event → Prop
  | .serverStart portNum _ _ =>
      ∀ idx ∈ threadIdx portNum s.table, ∀ loop ∈ s.loops,
        Lingering loop → loop.loopArg.threadIndex ≠ idx
  | .serverEnd portNum =>
      (threadIdx portNum s.table).isSome ∧
        ∀ idx ∈ threadIdx portNum s.table, ∀ loop ∈ s.loops,
          loop.portNum = portNum → loop.stopped = false → loop.phase ≠ .finished →
            loop.phase ≠ .created ∧ loop.loopArg.threadIndex = idx
  | _ => True

instance (s : State) : (event : Event) → Decidable (HeedsStop s event)
  | .serverStart portNum _ _ =>
      inferInstanceAs (Decidable (∀ idx ∈ threadIdx portNum s.table, ∀ loop ∈ s.loops, _))
  | .serverEnd portNum =>
      inferInstanceAs (Decidable (_ ∧ ∀ idx ∈ threadIdx portNum s.table, ∀ loop ∈ s.loops, _))
  | .enter .. => .isTrue trivial
  | .test _ => .isTrue trivial
  | .receive .. => .isTrue trivial
  | .handle .. => .isTrue trivial

/-- Every lingering loop has read its argument and will find its flag at 0. -/
def StopVisible (s : State) : Prop :=
  ∀ loop ∈ s.loops, Lingering loop →
    loop.phase ≠ .created ∧ (s.table loop.loopArg.threadIndex).threadRun = 0

variable {s next : State}

theorem stopVisible_serverStart (hs : StopVisible s) {portNum : Int} {msgRecvProc : MsgRecvProc}
    {threadCreated : Bool} (hguard : HeedsStop s (.serverStart portNum msgRecvProc threadCreated)) :
    StopVisible (udpIpcServerStart portNum msgRecvProc threadCreated s) := by
  intro loop hloop hlingering
  obtain ⟨added, hloops, hadded⟩ := udpIpcServerStart_loops msgRecvProc threadCreated
  rw [hloops] at hloop
  rcases List.mem_append.mp hloop with hold | hnew
  · obtain ⟨hentered, hidle⟩ := hs loop hold hlingering
    refine ⟨hentered, udpIpcServerStart_threadRun msgRecvProc threadCreated hidle ?_⟩
    intro idx hidx
    exact hguard idx hidx loop hold hlingering
  · -- the thread just created is not stopped
    obtain ⟨idx, rfl⟩ := hadded loop hnew
    exact absurd hlingering.1 (by simp [MsgLoop.create])

theorem stopVisible_serverEnd (hs : StopVisible s) {portNum : Int}
    (hguard : HeedsStop s (.serverEnd portNum)) :
    StopVisible (udpIpcServerEnd portNum s) := by
  obtain ⟨hsome, hheld⟩ := hguard
  obtain ⟨idx, hidx⟩ := Option.isSome_iff_exists.mp hsome
  rw [udpIpcServerEnd_eq hidx]
  intro loop hloop hlingering
  obtain ⟨before, hbefore, rfl⟩ := List.mem_map.mp hloop
  rw [Lingering, MsgLoop.markStopped_stopped, MsgLoop.markStopped_phase] at hlingering
  rw [MsgLoop.markStopped_phase, MsgLoop.markStopped_loopArg]
  obtain ⟨hstopped, hphase⟩ := hlingering
  by_cases hearlier : before.stopped = true
  · -- stopped before: its flag is 0 already, cleared again or not
    obtain ⟨hentered, hidle⟩ := hs before hbefore ⟨hearlier, hphase⟩
    refine ⟨hentered, ?_⟩
    change (Function.update s.table idx MgrMsgLoop.zero _).threadRun = 0
    by_cases hidx_eq : before.loopArg.threadIndex = idx
    · rw [hidx_eq, Function.update_self]
      rfl
    · rw [Function.update_of_ne hidx_eq]
      exact hidle
  · -- stopped by this call: the entry it tests has just been cleared
    obtain ⟨hentered, hindex⟩ := hheld idx hidx before hbefore
      (hstopped.resolve_left hearlier) (by simpa using hearlier) hphase
    refine ⟨hentered, ?_⟩
    change (Function.update s.table idx MgrMsgLoop.zero _).threadRun = 0
    rw [hindex, Function.update_self]
    rfl

theorem stopVisible_move (hs : StopVisible s) {thread : Nat} {before after : MsgLoop}
    (hbefore : s.loops[thread]? = some before) (htable : next.table = s.table)
    (hloops : next.loops = s.loops.set thread after) (hmove : ThreadMove s.table before after) :
    StopVisible next := by
  intro loop hloop hlingering
  rw [htable]
  rw [hloops] at hloop
  rcases List.mem_or_eq_of_mem_set hloop with hold | rfl
  · exact hs loop hold hlingering
  · have hstopped : before.stopped = true := hmove.stopped ▸ hlingering.1
    obtain ⟨hentered, hidle⟩ :=
      hs before (List.mem_of_getElem? hbefore) ⟨hstopped, hmove.unfinished⟩
    refine ⟨hmove.entered, ?_⟩
    rw [hmove.loopArg hentered]
    exact hidle

theorem stopVisible_step (hs : StopVisible s) {event : Event} (hguard : HeedsStop s event)
    (hstep : step s event = some next) : StopVisible next := by
  rcases step_cases hstep with ⟨portNum, msgRecvProc, threadCreated, rfl, rfl⟩ |
    ⟨portNum, rfl, rfl⟩ | ⟨thread, before, after, hbefore, htable, hloops, hmove⟩
  · exact stopVisible_serverStart hs hguard
  · exact stopVisible_serverEnd hs hguard
  · exact stopVisible_move hs hbefore htable hloops hmove

/-- A loop that a step finds and leaves in its place either keeps its phase or moves. -/
theorem step_phase {event : Event} (hstep : step s event = some next) {before after : MsgLoop}
    (hpair : (before, after) ∈ s.loops.zip next.loops) :
    after.phase = before.phase ∨ before ∈ s.loops ∧ ThreadMove s.table before after := by
  obtain ⟨place, hget⟩ := List.mem_iff_getElem?.mp hpair
  obtain ⟨hbefore, hafter⟩ := List.getElem?_zip_eq_some.mp hget
  dsimp only at hbefore hafter
  rcases step_cases hstep with ⟨portNum, msgRecvProc, threadCreated, rfl, rfl⟩ |
    ⟨portNum, rfl, rfl⟩ | ⟨thread, moving, moved, hmoving, _, hloops, hmove⟩
  · left
    obtain ⟨added, hloops, _⟩ := udpIpcServerStart_loops msgRecvProc threadCreated
    obtain ⟨hlength, _⟩ := List.getElem?_eq_some_iff.mp hbefore
    rw [hloops, List.getElem?_append_left hlength] at hafter
    cases hbefore.symm.trans hafter
    rfl
  · left
    unfold udpIpcServerEnd at hafter
    cases hidx : threadIdx portNum s.table with
    | none =>
        simp only [getThreadIdx_fst, hidx] at hafter
        cases hbefore.symm.trans hafter
        rfl
    | some idx =>
        simp only [getThreadIdx_fst, hidx, List.getElem?_map, hbefore] at hafter
        cases hafter
        exact MsgLoop.markStopped_phase before
  · rw [hloops] at hafter
    by_cases hplace : thread = place
    · right
      subst hplace
      obtain ⟨hlength, _⟩ := List.getElem?_eq_some_iff.mp hbefore
      rw [List.getElem?_set_self hlength] at hafter
      cases hafter
      cases hbefore.symm.trans hmoving
      exact ⟨List.mem_of_getElem? hbefore, hmove⟩
    · left
      rw [List.getElem?_set_ne hplace, hbefore] at hafter
      cases hafter
      rfl

/-- A lingering loop whose flag is at 0 does not begin a receive. -/
theorem StopVisible.staysStopped (hs : StopVisible s) (portNum : Int) (event : Event) :
    StaysStopped portNum s event := by
  rintro next hstep ⟨before, after⟩ hpair _ hstopped hphase hreceiving
  rcases step_phase hstep hpair with hkept | ⟨hbefore, hmove⟩
  · exact hphase (hkept.symm.trans hreceiving)
  · obtain ⟨hrun, _⟩ := hmove.received hreceiving
    exact hrun (hs before hbefore ⟨hstopped, hmove.unfinished⟩).2

/-- While every call meets the condition, a stopped loop begins no other receive. -/
theorem stopped_stays_stopped (portNum : Int) (events : List Event)
    (hguard : EachStep step HeedsStop State.boot events) :
    EachStep step (StaysStopped portNum) State.boot events := by
  refine eachStep_of_invariant StopVisible
    (fun s event next hs hguard hstep => stopVisible_step hs hguard hstep)
    (fun s event hs _ => hs.staysStopped portNum event) ?_ hguard
  exact fun loop hloop => absurd hloop List.not_mem_nil

/-- The old loop tests its flag before the next server is started. -/
theorem stopped_stays_stopped_tested :
    EachStep step (StaysStopped 30995) State.boot
      [.serverStart 30995 (some 1) true, .enter 0 true, .test 0, .serverEnd 30995,
        .receive 0 none, .handle 0 ⟨[], none⟩, .test 0, .serverStart 30991 (some 2) true] :=
  stopped_stays_stopped 30995 _ (by decide)

/-- A run in which the next server is started while the old loop waits in its last receive. -/
def reusedEntry : List Event :=
  [.serverStart 30995 (some 1) true, .enter 0 true, .test 0, .serverEnd 30995,
    .serverStart 30991 (some 2) true, .receive 0 none, .handle 0 ⟨[], none⟩, .test 0]

/-- The new server takes the freed entry, and the old loop finds its flag set again. -/
theorem reusedEntry_receives_again :
    reusedEntry.countP (startsPort 30995) = 1 ∧
      ¬ EachStep step (StaysStopped 30995) State.boot reusedEntry := by
  decide

end MdsFormal.Ipc.StoppedLoops
