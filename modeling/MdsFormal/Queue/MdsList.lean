import Mathlib.Data.Finset.Card
import MdsFormal.Library.ListSegment

/-!
# The shared list

`mds_list.c` over a heap of its nodes.  A function is the part between lock and unlock,
together with the checks of its arguments before it.
-/

namespace MdsFormal.Queue

open Library Heap

/-- `mds_dataList_t`; `Data` is the type of the caller's pointers. -/
structure DataList (Addr Data : Type) where
  data : Data
  next : Option Addr

/-- `mds_listInstance_t` without its mutex. -/
structure ListInstance (Addr : Type) where
  headList : Option Addr
  tailList : Option Addr
  num : Int

/-- The instance and the memory of the nodes.  `reported` says that a missing or left-over
tail was printed, `faulted` that a pointer to no live node was followed or freed. -/
structure World (Addr Data : Type) where
  inst : ListInstance Addr
  heap : Heap Addr (DataList Addr Data)
  reported : Bool
  faulted : Bool

section

variable {Addr Data : Type} [DecidableEq Addr]

/-- Assign to a field of the node behind a pointer. -/
def World.assign (w : World Addr Data) (p : Option Addr)
    (field : DataList Addr Data → DataList Addr Data) : World Addr Data :=
  match p with
  | none => { w with faulted := true }
  | some a =>
      if a ∈ w.heap.live then { w with heap := w.heap.write a (field (w.heap.cell a)) }
      else { w with faulted := true }

def mdsApiListFree (w : World Addr Data) : Option Addr → World Addr Data
  | none => w
  | some a =>
      if a ∈ w.heap.live then { w with heap := w.heap.free a } else { w with faulted := true }

/-- `mds_api_list_add` once it has the lock; it then returns 0. -/
def mdsApiListAdd (w : World Addr Data) (newList : Addr) (data : Data) : World Addr Data :=
  let w := w.assign (some newList) fun node => { node with data := data }
  let w := w.assign (some newList) fun node => { node with next := none }
  let w :=
    match w.inst.headList with
    | none => { w with inst := { w.inst with headList := some newList } }
    | some _ =>
        let w := if w.inst.tailList.isNone then { w with reported := true } else w
        w.assign w.inst.tailList fun node => { node with next := some newList }
  { w with inst := { w.inst with tailList := some newList, num := w.inst.num + 1 } }

/-- What was stored through `data`, and the value returned. -/
structure Popped (Data : Type) where
  out : Option Data
  ret : Int

/-- `data` says whether the caller's pointer is other than NULL. -/
def mdsApiListPop (w : World Addr Data) (data : Bool) : World Addr Data × Popped Data :=
  if data then
    match w.inst.headList with
    | none =>
        (if w.inst.tailList.isSome then { w with reported := true } else w, ⟨none, -1⟩)
    | some head =>
        if head ∈ w.heap.live then
          let node := w.heap.cell head
          let w := { w with inst := { w.inst with headList := node.next } }
          let w := mdsApiListFree w (some head)
          let w :=
            if w.inst.headList.isNone then { w with inst := { w.inst with tailList := none } }
            else w
          ({ w with inst := { w.inst with num := w.inst.num - 1 } }, ⟨some node.data, 0⟩)
        else ({ w with faulted := true }, ⟨none, 0⟩)
  else (w, ⟨none, -1⟩)

/-- The loop of `mds_api_list_del_all`, with the data it has freed in order. -/
def delAllLoop (w : World Addr Data) (freed : List Data) : World Addr Data × List Data :=
  match w.inst.headList with
  | none => (w, freed)
  | some head =>
      if head ∈ w.heap.live then
        let node := w.heap.cell head
        let w' := { w with inst := { w.inst with headList := node.next } }
        delAllLoop (mdsApiListFree w' (some head)) (freed ++ [node.data])
      else ({ w with faulted := true }, freed)
-- each pass frees one more live node
termination_by w.heap.live.card
decreasing_by
  simp only [mdsApiListFree, if_pos ‹head ∈ w.heap.live›]
  exact Finset.card_erase_lt_of_mem ‹_›

def mdsApiListDelAll (w : World Addr Data) : World Addr Data × List Data :=
  let (w, freed) := delAllLoop w []
  ({ w with inst := { w.inst with tailList := none, num := 0 } }, freed)

/-! ## The functions on a chain -/

variable {w : World Addr Data} {addrs : List Addr} {newList t : Addr} {data : Data}

theorem assign_live {a : Addr} (ha : a ∈ w.heap.live)
    (field : DataList Addr Data → DataList Addr Data) :
    w.assign (some a) field = { w with heap := w.heap.write a (field (w.heap.cell a)) } :=
  if_pos ha

theorem mdsApiListFree_live {a : Addr} (ha : a ∈ w.heap.live) :
    mdsApiListFree w (some a) = { w with heap := w.heap.free a } :=
  if_pos ha

/-- Both fields of the new node are set before it is linked. -/
theorem assign_new (hlive : newList ∈ w.heap.live) :
    ((w.assign (some newList) fun node => { node with data := data }).assign (some newList)
        fun node => { node with next := none }) =
      { w with heap := w.heap.write newList ⟨data, none⟩ } := by
  rw [assign_live hlive, assign_live (by exact hlive)]
  simp only [cell_write_self, write_write]

theorem mdsApiListAdd_empty (hlive : newList ∈ w.heap.live) (hhead : w.inst.headList = none) :
    mdsApiListAdd w newList data =
      { w with
        inst := ⟨some newList, some newList, w.inst.num + 1⟩
        heap := w.heap.write newList ⟨data, none⟩ } := by
  rw [mdsApiListAdd, assign_new hlive]
  simp only [hhead]

theorem mdsApiListAdd_linked {head : Addr} (hlive : newList ∈ w.heap.live)
    (hhead : w.inst.headList = some head) (htail : w.inst.tailList = some t)
    (ht : t ∈ w.heap.live) (hne : t ≠ newList) :
    mdsApiListAdd w newList data =
      { w with
        inst := ⟨some head, some newList, w.inst.num + 1⟩
        heap := (w.heap.write newList ⟨data, none⟩).write t
          { w.heap.cell t with next := some newList } } := by
  rw [mdsApiListAdd, assign_new hlive]
  simp only [hhead, htail, Option.isNone_some, Bool.false_eq_true, if_false]
  rw [assign_live (by exact ht)]
  simp only [cell_write_of_ne hne, hhead]

theorem mdsApiListPop_null : mdsApiListPop w false = (w, ⟨none, -1⟩) := rfl

theorem mdsApiListPop_empty (hhead : w.inst.headList = none) (htail : w.inst.tailList = none) :
    mdsApiListPop w true = (w, ⟨none, -1⟩) := by
  rw [mdsApiListPop, if_pos rfl]
  simp only [hhead, htail, Option.isSome_none, Bool.false_eq_true, if_false]

theorem mdsApiListPop_live {head : Addr} (hhead : w.inst.headList = some head)
    (hlive : head ∈ w.heap.live) :
    mdsApiListPop w true =
      ({ w with
          inst :=
            { headList := (w.heap.cell head).next
              tailList := if (w.heap.cell head).next.isNone then none else w.inst.tailList
              num := w.inst.num - 1 }
          heap := w.heap.free head },
        ⟨some (w.heap.cell head).data, 0⟩) := by
  rw [mdsApiListPop, if_pos rfl]
  simp only [hhead, if_pos hlive]
  rw [mdsApiListFree_live (by exact hlive)]
  split
  · rfl
  · rfl

/-- The loop frees the nodes of the chain, and their data in the order of the chain. -/
theorem delAllLoop_chain {freed : List Data}
    (hchain : Segment DataList.next w.heap w.inst.headList addrs none) :
    delAllLoop w freed =
      ({ w with
          inst := { w.inst with headList := none }
          heap := w.heap.freeAll addrs },
        freed ++ addrs.map fun a => (w.heap.cell a).data) := by
  induction addrs generalizing w freed with
  | nil =>
      have hhead : w.inst.headList = none := hchain.head?_eq.symm
      rw [delAllLoop, hhead]
      simp only [freeAll, List.map_nil, List.append_nil, ← hhead]
  | cons a rest ih =>
      have hhead : w.inst.headList = some a := hchain.head?_eq.symm
      have hnodup := List.nodup_cons.mp hchain.nodup
      have ha : a ∈ w.heap.live := hchain.mem_live List.mem_cons_self
      rw [hhead] at hchain
      cases hchain with
      | cons _ htail =>
          have hrest : Segment DataList.next (w.heap.free a) (w.heap.cell a).next rest none := by
            refine htail.frame (fun b hb => ?_) fun b _ => rfl
            refine Finset.mem_erase.mpr ⟨?_, htail.mem_live hb⟩
            rintro rfl
            exact hnodup.1 hb
          rw [delAllLoop, hhead]
          simp only [if_pos ha]
          rw [mdsApiListFree_live (by exact ha), ih hrest]
          simp only [freeAll, cell_free, List.map_cons, List.append_assoc, List.singleton_append]

end

end MdsFormal.Queue
