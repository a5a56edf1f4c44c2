import MdsFormal.Queue.MdsList

/-!
# The list as a chain

The invariant of an instance, and what each function of `mds_list.c` does to the chain
and to the data in it.
-/

namespace MdsFormal.Queue

open Library Heap

/-- The instance holds the chain of the nodes at `addrs`. -/
structure Chained {Addr Data : Type} (w : World Addr Data) (addrs : List Addr) : Prop where
  chain : Segment DataList.next w.heap w.inst.headList addrs none
  tail : w.inst.tailList = addrs.getLast?
  num : w.inst.num = addrs.length
  quiet : w.reported = false
  sound : w.faulted = false

section

variable {Addr Data : Type} {w : World Addr Data} {addrs : List Addr}

/-- The data in the order of the chain. -/
def queued (w : World Addr Data) (addrs : List Addr) : List Data :=
  addrs.map fun a => (w.heap.cell a).data

/-- `w'` holds `addrs'` with the given data, and no live node outside `addrs` was freed. -/
structure Serves (w : World Addr Data) (addrs : List Addr) (w' : World Addr Data)
    (addrs' : List Addr) (queue : List Data) : Prop where
  chained : Chained w' addrs'
  queued_eq : queued w' addrs' = queue
  others : ∀ a ∈ w.heap.live, a ∉ addrs → a ∈ w'.heap.live

namespace Chained

theorem head?_eq (hw : Chained w addrs) : w.inst.headList = addrs.head? :=
  hw.chain.head?_eq.symm

theorem mem_live (hw : Chained w addrs) {a : Addr} (ha : a ∈ addrs) : a ∈ w.heap.live :=
  hw.chain.mem_live ha

theorem tail_eq_none_iff (hw : Chained w addrs) :
    w.inst.tailList = none ↔ w.inst.headList = none := by
  rw [hw.tail, hw.head?_eq, List.getLast?_eq_none_iff, List.head?_eq_none_iff]

/-- A change of the heap that leaves the nodes of the chain as they are keeps the chain. -/
theorem frame {heap : Heap Addr (DataList Addr Data)} (hw : Chained w addrs)
    (hlive : ∀ a ∈ addrs, a ∈ heap.live) (hcell : ∀ a ∈ addrs, heap.cell a = w.heap.cell a) :
    Chained { w with heap := heap } addrs ∧
      queued { w with heap := heap } addrs = queued w addrs := by
  constructor
  · refine { hw with chain := hw.chain.frame hlive fun a ha => ?_ }
    rw [hcell a ha]
  · exact List.map_congr_left fun a ha => congrArg DataList.data (hcell a ha)

variable [DecidableEq Addr] {newList t : Addr} {data : Data} {front : List Addr}

theorem add_empty (hw : Chained w []) (hlive : newList ∈ w.heap.live) :
    Serves w [] (mdsApiListAdd w newList data) [newList] [data] := by
  rw [mdsApiListAdd_empty hlive hw.head?_eq]
  refine ⟨⟨.cons hlive ?_, rfl, ?_, hw.quiet, hw.sound⟩, ?_, fun a ha _ => ha⟩
  · simp only [cell_write_self]
    exact .nil
  · simp [hw.num]
  · simp only [queued, List.map_cons, List.map_nil, cell_write_self]

theorem add_linked (hw : Chained w (front ++ [t])) (hlive : newList ∈ w.heap.live)
    (hnew : newList ∉ front ++ [t]) :
    Serves w (front ++ [t]) (mdsApiListAdd w newList data) (front ++ [t] ++ [newList])
      (queued w (front ++ [t]) ++ [data]) := by
  have ht : t ∈ w.heap.live := hw.mem_live (by simp)
  have htail : w.inst.tailList = some t := hw.tail.trans (by simp)
  have hne : t ≠ newList := by
    rintro rfl
    exact hnew (by simp)
  have hfront : ∀ c ∈ front, ∀ node node', ((w.heap.write newList node).write t node').cell c =
      w.heap.cell c := by
    intro c hc node node'
    have hcnew : c ≠ newList := by
      rintro rfl
      exact hnew (by simp [hc])
    rw [cell_write_of_ne (hw.chain.nodup_last c hc), cell_write_of_ne hcnew]
  obtain ⟨head, hhead⟩ : ∃ head, w.inst.headList = some head := by
    rw [hw.head?_eq]
    cases front <;> simp
  rw [mdsApiListAdd_linked hlive hhead htail ht hne]
  refine ⟨⟨?_, by simp, ?_, hw.quiet, hw.sound⟩, ?_, fun a ha _ => ha⟩
  · rw [← hhead]
    refine hw.chain.link (fun c hc => hw.mem_live hc) (fun c hc => ?_) ?_ hlive ?_
    · rw [hfront c hc]
    · simp only [cell_write_self]
    · simp only [cell_write_of_ne hne.symm, cell_write_self]
  · simp only [hw.num, List.length_append, List.length_singleton]
    rfl
  · have hdata := List.map_congr_left fun c hc => congrArg DataList.data
      (hfront c hc ⟨data, none⟩ { w.heap.cell t with next := some newList })
    simp only [queued, List.map_append, List.map_cons, List.map_nil, cell_write_self,
      cell_write_of_ne hne.symm, hdata]

/-- A new node that is not in the chain is put at its end. -/
theorem add (hw : Chained w addrs) (hlive : newList ∈ w.heap.live) (hnew : newList ∉ addrs) :
    Serves w addrs (mdsApiListAdd w newList data) (addrs ++ [newList])
      (queued w addrs ++ [data]) := by
  rcases addrs.eq_nil_or_concat' with rfl | ⟨front, t, rfl⟩
  · exact hw.add_empty hlive
  · exact hw.add_linked hlive hnew

theorem pop_empty (hw : Chained w []) : mdsApiListPop w true = (w, ⟨none, -1⟩) :=
  mdsApiListPop_empty hw.head?_eq hw.tail

theorem mem_of_ne_head {a b : Addr} {rest : List Addr} (hw : Chained w (a :: rest))
    (hb : b ∈ rest) : b ∈ (w.heap.free a).live := by
  refine Finset.mem_erase.mpr ⟨?_, hw.mem_live (List.mem_cons_of_mem a hb)⟩
  rintro rfl
  exact (List.nodup_cons.mp hw.chain.nodup).1 hb

theorem pop_cons {a : Addr} {rest : List Addr} (hw : Chained w (a :: rest)) :
    (mdsApiListPop w true).2 = ⟨some (w.heap.cell a).data, 0⟩ ∧
      Serves w (a :: rest) (mdsApiListPop w true).1 rest (queued w rest) := by
  have ha : a ∈ w.heap.live := hw.mem_live List.mem_cons_self
  rw [mdsApiListPop_live hw.head?_eq ha]
  refine ⟨rfl, ?_, rfl, fun b hb hout => ?_⟩
  · have hchain := hw.chain
    rw [show w.inst.headList = some a from hw.head?_eq] at hchain
    cases hchain with
    | cons _ tail =>
        have hrest : Segment DataList.next (w.heap.free a) (w.heap.cell a).next rest none :=
          tail.frame (fun b hb => hw.mem_of_ne_head hb) fun b _ => rfl
        refine ⟨hrest, ?_, ?_, hw.quiet, hw.sound⟩
        · cases rest with
          | nil =>
              rw [show (w.heap.cell a).next = none from tail.head?_eq.symm]
              rfl
          | cons b rest =>
              rw [show (w.heap.cell a).next = some b from tail.head?_eq.symm, hw.tail]
              rfl
        · simp [hw.num]
  · refine Finset.mem_erase.mpr ⟨?_, hb⟩
    rintro rfl
    exact hout List.mem_cons_self

/-- `pop` hands out the oldest datum, and fails when there is none. -/
theorem pop (hw : Chained w addrs) :
    (mdsApiListPop w true).2.out = (queued w addrs).head? ∧
      ((mdsApiListPop w true).2.ret = -1 ↔ queued w addrs = []) ∧
      Serves w addrs (mdsApiListPop w true).1 addrs.tail (queued w addrs).tail := by
  cases addrs with
  | nil =>
      rw [hw.pop_empty]
      exact ⟨rfl, iff_of_true rfl rfl, hw, rfl, fun a ha _ => ha⟩
  | cons a rest =>
      obtain ⟨hpopped, hserves⟩ := hw.pop_cons
      rw [hpopped]
      refine ⟨rfl, iff_of_false (by simp) ?_, hserves⟩
      exact List.cons_ne_nil _ _

theorem delAll (hw : Chained w addrs) :
    (mdsApiListDelAll w).2 = queued w addrs ∧
      Serves w addrs (mdsApiListDelAll w).1 [] [] := by
  rw [mdsApiListDelAll, delAllLoop_chain hw.chain]
  refine ⟨rfl, ⟨.nil, rfl, rfl, hw.quiet, hw.sound⟩, rfl, fun a ha hout => ?_⟩
  exact mem_live_freeAll.mpr ⟨ha, hout⟩

end Chained

end

end MdsFormal.Queue
