import MdsFormal.Library.Fifo
import MdsFormal.Library.LabelledRun
import MdsFormal.Queue.FifoChain

/-!
# Threads that share a list

Any number of threads call the functions of `mds_list.c` on one instance.  What a function
does between lock and unlock is one step.  `mds_api_list_add` allocates its node before it
takes the lock, so that other calls can come in between.
-/

namespace MdsFormal.Queue

open Library Library.LabelledRun Heap

/-- `pending` is the node and the datum of a thread that waits for the lock in
`mds_api_list_add`; `added` and `removed` say what the calls have put in and taken out. -/
structure State (Thread Addr Data : Type) where
  world : World Addr Data
  pending : Thread → Option (Addr × Data)
  added : List Data
  removed : List (Removal Data)

/-- `alloc` and `link` are the two parts of `mds_api_list_add`.  An allocation fails or gives
an address and what happens to stand there. -/
inductive Label (Thread Addr Data : Type) where
  | alloc (t : Thread) (data : Data) (newList : Option (Addr × DataList Addr Data))
  | link (t : Thread)
  | pop (t : Thread) (data : Bool)
  | delAll (t : Thread)

section

variable {Thread Addr Data : Type}

/-- A zeroed instance, whatever else the memory holds. -/
def State.start (heap : Heap Addr (DataList Addr Data)) : State Thread Addr Data where
  world := ⟨⟨none, none, 0⟩, heap, false, false⟩
  pending := fun _ => none
  added := []
  removed := []

variable [DecidableEq Thread] [DecidableEq Addr]

def step (s : State Thread Addr Data) : Label Thread Addr Data → Option (State Thread Addr Data)
  | .alloc t data newList =>
      match s.pending t, newList with
      | some _, _ => none
      | none, none => some s
      | none, some (a, node) =>
          if a ∈ s.world.heap.live then none
          else
            some { s with
              world := { s.world with heap := (s.world.heap.alloc a).write a node }
              pending := Function.update s.pending t (some (a, data)) }
  | .link t =>
      match s.pending t with
      | none => none
      | some (newList, data) =>
          some { s with
            world := mdsApiListAdd s.world newList data
            pending := Function.update s.pending t none
            added := s.added ++ [data] }
  | .pop t data =>
      match s.pending t with
      | some _ => none
      | none =>
          let (world, popped) := mdsApiListPop s.world data
          some { s with
            world := world
            removed := s.removed ++ popped.out.toList.map .popped }
  | .delAll t =>
      match s.pending t with
      | some _ => none
      | none =>
          let (world, freed) := mdsApiListDelAll s.world
          some { s with
            world := world
            removed := s.removed ++ freed.map .dropped }

/-! ## Threads that wait for the lock -/

/-- Every waiting thread has a live node of its own outside the chain. -/
structure Waiting (pending : Thread → Option (Addr × Data)) (live : Finset Addr)
    (addrs : List Addr) : Prop where
  mem_live : ∀ t a data, pending t = some (a, data) → a ∈ live
  out : ∀ t a data, pending t = some (a, data) → a ∉ addrs
  own : ∀ t t' a data data', pending t = some (a, data) → pending t' = some (a, data') → t = t'

omit [DecidableEq Addr] in
theorem update_eq_some_iff {pending : Thread → Option (Addr × Data)} {t t' : Thread}
    {mine : Option (Addr × Data)} {node : Addr × Data} :
    Function.update pending t mine t' = some node ↔
      (t' = t ∧ mine = some node) ∨ (t' ≠ t ∧ pending t' = some node) := by
  rcases eq_or_ne t' t with rfl | ht
  · simp
  · simp [ht]

omit [DecidableEq Thread] [DecidableEq Addr] in
theorem waiting_none {live : Finset Addr} {addrs : List Addr} :
    Waiting (fun _ : Thread => (none : Option (Addr × Data))) live addrs := by
  refine ⟨?_, ?_, ?_⟩
  · rintro t a data ⟨⟩
  · rintro t a data ⟨⟩
  · rintro t t' a data data' ⟨⟩

namespace Waiting

variable {pending : Thread → Option (Addr × Data)} {live live' : Finset Addr}
  {addrs addrs' : List Addr} {t : Thread} {a : Addr} {data : Data}

omit [DecidableEq Thread] [DecidableEq Addr] in
theorem mono (hwait : Waiting pending live addrs) (hlive : ∀ a ∈ live, a ∉ addrs → a ∈ live')
    (hsub : ∀ a ∈ addrs', a ∈ addrs) : Waiting pending live' addrs' where
  mem_live t a data hpending :=
    hlive a (hwait.mem_live t a data hpending) (hwait.out t a data hpending)
  out t a data hpending hmem := hwait.out t a data hpending (hsub a hmem)
  own := hwait.own

/-- A fresh node belongs to the thread that asked for it. -/
theorem alloc (hwait : Waiting pending live addrs) (ha : a ∉ live)
    (haddrs : ∀ b ∈ addrs, b ∈ live) :
    Waiting (Function.update pending t (some (a, data))) (insert a live) addrs := by
  refine ⟨?_, ?_, ?_⟩
  · intro t' b data' hpending
    rcases update_eq_some_iff.mp hpending with ⟨_, hnode⟩ | ⟨_, hold⟩
    · cases hnode
      exact Finset.mem_insert_self a live
    · exact Finset.mem_insert_of_mem (hwait.mem_live t' b data' hold)
  · intro t' b data' hpending
    rcases update_eq_some_iff.mp hpending with ⟨_, hnode⟩ | ⟨_, hold⟩
    · cases hnode
      exact fun hmem => ha (haddrs a hmem)
    · exact hwait.out t' b data' hold
  · intro t' t'' b data' data'' hpending hpending'
    rcases update_eq_some_iff.mp hpending with ⟨ht, hnode⟩ | ⟨_, hold⟩ <;>
      rcases update_eq_some_iff.mp hpending' with ⟨ht', hnode'⟩ | ⟨_, hold'⟩
    · exact ht.trans ht'.symm
    · cases hnode
      exact absurd (hwait.mem_live t'' a data'' hold') ha
    · cases hnode'
      exact absurd (hwait.mem_live t' a data' hold) ha
    · exact hwait.own t' t'' b data' data'' hold hold'

omit [DecidableEq Addr] in
/-- A thread that has put its node into the chain waits no more. -/
theorem link (hwait : Waiting pending live addrs) (hmine : pending t = some (a, data))
    (hlive : ∀ b ∈ live, b ∉ addrs → b ∈ live') :
    Waiting (Function.update pending t none) live' (addrs ++ [a]) := by
  have hold : ∀ t' node, Function.update pending t none t' = some node →
      t' ≠ t ∧ pending t' = some node := by
    intro t' node hpending
    rcases update_eq_some_iff.mp hpending with ⟨_, hnode⟩ | hother
    · cases hnode
    · exact hother
  refine ⟨?_, ?_, ?_⟩
  · intro t' b data' hpending
    obtain ⟨_, hpending⟩ := hold t' _ hpending
    exact hlive b (hwait.mem_live t' b data' hpending) (hwait.out t' b data' hpending)
  · intro t' b data' hpending hmem
    obtain ⟨ht, hpending⟩ := hold t' _ hpending
    rcases List.mem_append.mp hmem with hmem | hmem
    · exact hwait.out t' b data' hpending hmem
    · rw [List.mem_singleton.mp hmem] at hpending
      exact ht (hwait.own t' t a data' data hpending hmine)
  · intro t' t'' b data' data'' hpending hpending'
    exact hwait.own t' t'' b data' data'' (hold t' _ hpending).2 (hold t'' _ hpending').2

end Waiting

/-! ## The simulation -/

/-- What a step does to the queue. -/
def effect (s : State Thread Addr Data) (fifo : Fifo Data) : Label Thread Addr Data → Fifo Data
  | .alloc _ _ _ => fifo
  | .link t =>
      match s.pending t with
      | none => fifo
      | some (_, data) => fifo.add data
  | .pop _ data => if data then fifo.pop else fifo
  | .delAll _ => fifo.clear

/-- The state stands for the queue, with the chain of the nodes at `addrs`. -/
structure StandsFor (s : State Thread Addr Data) (addrs : List Addr) (fifo : Fifo Data) :
    Prop where
  chained : Chained s.world addrs
  queue : queued s.world addrs = fifo.queue
  added : s.added = fifo.added
  removed : s.removed = fifo.removed
  waiting : Waiting s.pending s.world.heap.live addrs

variable {s : State Thread Addr Data} {addrs : List Addr} {fifo : Fifo Data}

omit [DecidableEq Thread] [DecidableEq Addr] in
theorem standsFor_start (heap : Heap Addr (DataList Addr Data)) :
    StandsFor (State.start heap : State Thread Addr Data) [] Fifo.empty where
  chained := ⟨.nil, rfl, rfl, rfl, rfl⟩
  queue := rfl
  added := rfl
  removed := rfl
  waiting := waiting_none

/-- An allocation leaves the queue as it is. -/
theorem StandsFor.alloc (hs : StandsFor s addrs fifo) {t : Thread} {a : Addr} {data : Data}
    {node : DataList Addr Data} (ha : a ∉ s.world.heap.live) :
    StandsFor { s with
      world := { s.world with heap := (s.world.heap.alloc a).write a node }
      pending := Function.update s.pending t (some (a, data)) } addrs fifo := by
  have hkept : ∀ b ∈ addrs,
      ((s.world.heap.alloc a).write a node).cell b = s.world.heap.cell b := by
    intro b hb
    refine cell_write_of_ne ?_
    rintro rfl
    exact ha (hs.chained.mem_live hb)
  have hlive : ∀ b ∈ addrs, b ∈ ((s.world.heap.alloc a).write a node).live :=
    fun b hb => Finset.mem_insert_of_mem (hs.chained.mem_live hb)
  obtain ⟨hchained, hqueue⟩ := hs.chained.frame hlive hkept
  exact ⟨hchained, hqueue.trans hs.queue, hs.added, hs.removed,
    hs.waiting.alloc ha fun b hb => hs.chained.mem_live hb⟩

/-- A thread that gets the lock puts its datum behind the others. -/
theorem StandsFor.link (hs : StandsFor s addrs fifo) {t : Thread} {newList : Addr} {data : Data}
    (hmine : s.pending t = some (newList, data)) :
    StandsFor { s with
      world := mdsApiListAdd s.world newList data
      pending := Function.update s.pending t none
      added := s.added ++ [data] } (addrs ++ [newList]) (fifo.add data) := by
  have hserves : Serves s.world addrs (mdsApiListAdd s.world newList data) (addrs ++ [newList])
      (queued s.world addrs ++ [data]) :=
    hs.chained.add (hs.waiting.mem_live t _ _ hmine) (hs.waiting.out t _ _ hmine)
  refine ⟨hserves.chained, ?_, ?_, hs.removed, hs.waiting.link hmine hserves.others⟩
  · rw [hserves.queued_eq, hs.queue]
    rfl
  · rw [hs.added]
    rfl

omit [DecidableEq Thread] [DecidableEq Addr] in
/-- The functions that only take nodes out. -/
theorem StandsFor.serve (hs : StandsFor s addrs fifo) {w : World Addr Data} {addrs' : List Addr}
    {taken : List (Removal Data)} {fifo' : Fifo Data}
    (hserves : Serves s.world addrs w addrs' fifo'.queue) (hsub : ∀ a ∈ addrs', a ∈ addrs)
    (hadded : fifo'.added = fifo.added) (hremoved : fifo'.removed = fifo.removed ++ taken) :
    StandsFor { s with world := w, removed := s.removed ++ taken } addrs' fifo' where
  chained := hserves.chained
  queue := hserves.queued_eq
  added := hs.added.trans hadded.symm
  removed := by rw [hremoved, hs.removed]
  waiting := hs.waiting.mono hserves.others hsub

theorem StandsFor.step_alloc (hs : StandsFor s addrs fifo) {t : Thread} {data : Data}
    {newList : Option (Addr × DataList Addr Data)} {next : State Thread Addr Data}
    (hstep : step s (.alloc t data newList) = some next) : StandsFor next addrs fifo := by
  cases hmine : s.pending t with
  | some mine => simp [Queue.step, hmine] at hstep
  | none =>
      cases newList with
      | none =>
          simp only [Queue.step, hmine, Option.some.injEq] at hstep
          subst hstep
          exact hs
      | some new =>
          simp only [Queue.step, hmine, Option.ite_none_left_eq_some,
            Option.some.injEq] at hstep
          obtain ⟨hfresh, rfl⟩ := hstep
          exact hs.alloc hfresh

theorem StandsFor.step_link (hs : StandsFor s addrs fifo) {t : Thread}
    {next : State Thread Addr Data} (hstep : step s (.link t) = some next) :
    ∃ addrs', StandsFor next addrs' (effect s fifo (.link t)) := by
  cases hmine : s.pending t with
  | none => simp [Queue.step, hmine] at hstep
  | some mine =>
      simp only [Queue.step, hmine, Option.some.injEq] at hstep
      subst hstep
      rw [effect, hmine]
      exact ⟨_, hs.link hmine⟩

theorem StandsFor.step_pop (hs : StandsFor s addrs fifo) {t : Thread} {data : Bool}
    {next : State Thread Addr Data} (hstep : step s (.pop t data) = some next) :
    ∃ addrs', StandsFor next addrs' (effect s fifo (.pop t data)) := by
  cases hmine : s.pending t with
  | some mine => simp [Queue.step, hmine] at hstep
  | none =>
      simp only [Queue.step, hmine, Option.some.injEq] at hstep
      subst hstep
      cases data with
      | false =>
          refine ⟨addrs, hs.serve ⟨hs.chained, hs.queue, fun a ha _ => ha⟩ ?_ rfl ?_⟩
          · exact fun a ha => ha
          · exact (List.append_nil fifo.removed).symm
      | true =>
          obtain ⟨hout, _, hserves⟩ := hs.chained.pop
          rw [hs.queue] at hout hserves
          refine ⟨addrs.tail, hs.serve hserves ?_ rfl ?_⟩
          · exact fun a ha => List.mem_of_mem_tail ha
          · rw [hout]
            rfl

theorem StandsFor.step_delAll (hs : StandsFor s addrs fifo) {t : Thread}
    {next : State Thread Addr Data} (hstep : step s (.delAll t) = some next) :
    ∃ addrs', StandsFor next addrs' fifo.clear := by
  cases hmine : s.pending t with
  | some mine => simp [Queue.step, hmine] at hstep
  | none =>
      simp only [Queue.step, hmine, Option.some.injEq] at hstep
      subst hstep
      obtain ⟨hfreed, hserves⟩ := hs.chained.delAll
      refine ⟨[], hs.serve hserves ?_ rfl ?_⟩
      · rintro a ⟨⟩
      · rw [hfreed, hs.queue]
        rfl

/-- Each step of the threads is one step of the queue. -/
theorem StandsFor.step (hs : StandsFor s addrs fifo) {label : Label Thread Addr Data}
    {next : State Thread Addr Data} (hstep : step s label = some next) :
    ∃ addrs', StandsFor next addrs' (effect s fifo label) := by
  cases label with
  | alloc t data newList => exact ⟨addrs, hs.step_alloc hstep⟩
  | link t => exact hs.step_link hstep
  | pop t data => exact hs.step_pop hstep
  | delAll t => exact hs.step_delAll hstep

theorem standsFor_run {heap : Heap Addr (DataList Addr Data)}
    {labels : List (Label Thread Addr Data)} (hrun : run step (State.start heap) labels = some s) :
    ∃ addrs fifo, StandsFor s addrs fifo := by
  refine inv_of_run (fun s => ∃ addrs fifo, StandsFor s addrs fifo) ?_
    ⟨[], Fifo.empty, standsFor_start heap⟩ hrun
  rintro s label next ⟨addrs, fifo, hs⟩ hstep
  obtain ⟨addrs', hnext⟩ := hs.step hstep
  exact ⟨addrs', _, hnext⟩

/-! ## The list is a queue -/

/-- The chain from `headList` is `addrs`, all its nodes are live, and it ends at `tailList`. -/
structure WellLinked (inst : ListInstance Addr) (heap : Heap Addr (DataList Addr Data))
    (addrs : List Addr) : Prop where
  visits : Segment DataList.next heap inst.headList addrs none
  live : ∀ a ∈ addrs, a ∈ heap.live
  distinct : addrs.Nodup
  num : inst.num = addrs.length
  ends : inst.tailList = addrs.getLast?
  tail_iff : inst.tailList = none ↔ inst.headList = none

omit [DecidableEq Addr] in
theorem Chained.wellLinked {w : World Addr Data} (hw : Chained w addrs) :
    WellLinked w.inst w.heap addrs where
  visits := hw.chain
  live := fun _ ha => hw.mem_live ha
  distinct := hw.chain.nodup
  num := hw.num
  ends := hw.tail
  tail_iff := hw.tail_eq_none_iff

/-- A call of `mds_api_list_pop` now would fail exactly if nothing is queued. -/
def PopFailsOnEmpty (w : World Addr Data) (addrs : List Addr) (data : Bool) : Prop :=
  (mdsApiListPop w data).2.ret = -1 ↔ queued w addrs = []

/-- Every run keeps the list linked, loses and repeats no datum and keeps their order, and
never meets a missing tail or a dead node; a call of `mds_api_list_pop` that has somewhere
to store the datum fails exactly on the empty queue, and one without always fails. -/
theorem sharedList_fifo {heap : Heap Addr (DataList Addr Data)}
    {labels : List (Label Thread Addr Data)} (hrun : run step (State.start heap) labels = some s) :
    ∃ addrs, WellLinked s.world.inst s.world.heap addrs ∧
      s.added = s.removed.map Removal.value ++ queued s.world addrs ∧
      PopFailsOnEmpty s.world addrs true ∧
      mdsApiListPop s.world false = (s.world, ⟨none, -1⟩) ∧
      s.world.reported = false ∧ s.world.faulted = false := by
  obtain ⟨addrs, fifo, hs⟩ := standsFor_run hrun
  refine ⟨addrs, hs.chained.wellLinked, ?_, hs.chained.pop.2.1, mdsApiListPop_null,
    hs.chained.quiet, hs.chained.sound⟩
  rw [hs.added, hs.removed, hs.queue]
  exact fifo.balanced

end

/-- Two threads add, one of them before the other has linked its node, and one datum is taken. -/
def twoAdders : Option (State Nat Nat Nat) :=
  run step (State.start ⟨∅, fun _ => ⟨0, none⟩⟩)
    [.alloc 0 7 (some (1, ⟨0, none⟩)), .alloc 1 8 (some (2, ⟨0, some 1⟩)), .link 1, .link 0,
      .pop 0 true]

theorem twoAdders_eq : ∃ s, twoAdders = some s ∧ s.added = [8, 7] ∧ s.removed = [.popped 8] := by
  have hbooks : twoAdders.map (fun s => (s.added, s.removed)) = some ([8, 7], [.popped 8]) := rfl
  obtain ⟨s, hs, hbooks⟩ := Option.map_eq_some_iff.mp hbooks
  exact ⟨s, hs, congrArg Prod.fst hbooks, congrArg Prod.snd hbooks⟩

theorem sharedList_fifo_twoAdders :
    ∃ s, twoAdders = some s ∧ s.added = [8, 7] ∧ s.removed = [.popped 8] ∧
      ∃ addrs, WellLinked s.world.inst s.world.heap addrs ∧
        s.added = s.removed.map Removal.value ++ queued s.world addrs ∧
        PopFailsOnEmpty s.world addrs true ∧
        mdsApiListPop s.world false = (s.world, ⟨none, -1⟩) ∧
        s.world.reported = false ∧ s.world.faulted = false := by
  obtain ⟨s, hs, hadded, hremoved⟩ := twoAdders_eq
  exact ⟨s, hs, hadded, hremoved, sharedList_fifo hs⟩

/-- A call with NULL for `data` fails although a datum is queued. -/
theorem popFailsOnEmpty_violated :
    ∃ s addrs, twoAdders = some s ∧ WellLinked s.world.inst s.world.heap addrs ∧
      queued s.world addrs = [7] ∧ ¬ PopFailsOnEmpty s.world addrs false := by
  obtain ⟨s, hs, hadded, hremoved⟩ := twoAdders_eq
  obtain ⟨addrs, fifo, hfifo⟩ := standsFor_run hs
  have hqueue : queued s.world addrs = [7] := by
    have hbalanced := fifo.balanced
    rw [← hfifo.added, ← hfifo.removed, ← hfifo.queue, hadded, hremoved] at hbalanced
    exact (List.cons.inj hbalanced).2.symm
  refine ⟨s, addrs, hs, hfifo.chained.wellLinked, hqueue, fun hfails => ?_⟩
  have hempty : queued s.world addrs = [] := hfails.mp rfl
  cases hqueue.symm.trans hempty

end MdsFormal.Queue
