import Mathlib.Data.List.GetD
import Mathlib.Data.List.Nodup
import MdsFormal.Ipc.ClientTimeout

/-!
# Which port's socket a client call uses

The table of ports only grows: the ports take its ten entries in the order in
which they are first called, and every port after the tenth is given entry 0 by
the last line of `_get_sock_idx`.  Runs here carry the ports in that order and,
for each descriptor, the port of the call that created it.
-/

namespace MdsFormal.Ipc.PortSockets

open Library.SlotTable Library.LabelledRun Client ClientTimeout

/-! ## The table of ports -/

/-- The ports called so far, a new one at the end. -/
def note (ports : List Int) (portNum : Int) : List Int :=
  if portNum ∈ ports then ports else ports ++ [portNum]

/-- `g_sock_mgr` once these ports have been called. -/
def portTable (ports : List Int) (idx : Fin maxReuseSockCnt) : Int := ports.getD idx 0

theorem maxReuseSockCnt_pos : 0 < maxReuseSockCnt := by decide

/-- The entry of a port that has been called. -/
def entry (ports : List Int) (portNum : Int) : Fin maxReuseSockCnt :=
  if h : ports.idxOf portNum < maxReuseSockCnt then ⟨ports.idxOf portNum, h⟩
  else ⟨0, maxReuseSockCnt_pos⟩

/-- Different ports, none of them 0, which marks a free entry. -/
structure Distinct (ports : List Int) : Prop where
  nodup : ports.Nodup
  nonzero : (0 : Int) ∉ ports

variable {ports : List Int} {portNum other : Int}

theorem note_of_mem (hmem : portNum ∈ ports) : note ports portNum = ports := if_pos hmem

theorem note_of_new (hnew : portNum ∉ ports) : note ports portNum = ports ++ [portNum] :=
  if_neg hnew

theorem mem_note (ports : List Int) (portNum : Int) : portNum ∈ note ports portNum := by
  by_cases hmem : portNum ∈ ports
  · rwa [note_of_mem hmem]
  · simp [note_of_new hmem]

theorem mem_note_of_mem (hmem : other ∈ ports) (portNum : Int) : other ∈ note ports portNum := by
  by_cases hold : portNum ∈ ports
  · rwa [note_of_mem hold]
  · rw [note_of_new hold]
    exact List.mem_append_left _ hmem

/-- A port keeps its place in the order. -/
theorem idxOf_note (hmem : other ∈ ports) (portNum : Int) :
    (note ports portNum).idxOf other = ports.idxOf other := by
  by_cases hold : portNum ∈ ports
  · rw [note_of_mem hold]
  · rw [note_of_new hold, List.idxOf_append_of_mem hmem]

theorem idxOf_note_new (hnew : portNum ∉ ports) :
    (note ports portNum).idxOf portNum = ports.length := by
  rw [note_of_new hnew, List.idxOf_append_of_notMem hnew]
  simp

theorem Distinct.note (hports : Distinct ports) (hport : portNum ≠ 0) :
    Distinct (note ports portNum) := by
  by_cases hmem : portNum ∈ ports
  · rwa [note_of_mem hmem]
  · rw [note_of_new hmem]
    constructor
    · rw [List.nodup_append]
      refine ⟨hports.nodup, List.nodup_singleton portNum, ?_⟩
      intro first hfirst second hsecond heq
      rw [List.mem_singleton.mp hsecond] at heq
      exact hmem (heq ▸ hfirst)
    · intro hzero
      rcases List.mem_append.mp hzero with hold | hlast
      · exact hports.nonzero hold
      · exact hport (List.mem_singleton.mp hlast).symm

/-- The entry that carries a port is the port's place in the order. -/
theorem portTable_eq_iff (hports : Distinct ports) (hport : portNum ≠ 0)
    (idx : Fin maxReuseSockCnt) :
    portTable ports idx = portNum ↔ portNum ∈ ports ∧ ports.idxOf portNum = idx := by
  rw [portTable]
  constructor
  · intro heq
    by_cases hlt : (idx : Nat) < ports.length
    · rw [List.getD_eq_getElem _ _ hlt] at heq
      subst heq
      exact ⟨List.getElem_mem hlt, hports.nodup.idxOf_getElem _ hlt⟩
    · rw [List.getD_eq_default _ _ (Nat.not_lt.mp hlt)] at heq
      exact absurd heq.symm hport
  · rintro ⟨hmem, hidx⟩
    have hlt : (idx : Nat) < ports.length := hidx ▸ List.idxOf_lt_length_of_mem hmem
    rw [List.getD_eq_getElem _ _ hlt]
    simp only [← hidx, List.getElem_idxOf]

theorem portTable_eq_zero_iff (hports : Distinct ports) (idx : Fin maxReuseSockCnt) :
    portTable ports idx = 0 ↔ ports.length ≤ idx := by
  rw [portTable]
  constructor
  · intro heq
    apply Nat.not_lt.mp
    intro hlt
    rw [List.getD_eq_getElem _ _ hlt] at heq
    exact hports.nonzero (heq ▸ List.getElem_mem hlt)
  · intro hle
    exact List.getD_eq_default _ _ hle

theorem claimSlot_known (hports : Distinct ports) (hport : portNum ≠ 0)
    (hmem : portNum ∈ ports) :
    claimSlot (· = portNum) (· = 0) (portTable ports) =
      if h : ports.idxOf portNum < maxReuseSockCnt then some ⟨ports.idxOf portNum, h⟩
      else none := by
  by_cases hlt : ports.idxOf portNum < maxReuseSockCnt
  · have hmine : firstSlot (· = portNum) (portTable ports) =
        some ⟨ports.idxOf portNum, hlt⟩ := by
      apply firstSlot_eq_some_of_unique
      · exact (portTable_eq_iff hports hport _).mpr ⟨hmem, rfl⟩
      · intro slot hslot
        exact Fin.ext ((portTable_eq_iff hports hport slot).mp hslot).2.symm
    rw [dif_pos hlt, claimSlot, hmine]
  · rw [dif_neg hlt, claimSlot_eq_none_iff]
    have hlength := List.idxOf_lt_length_of_mem hmem
    constructor
    · intro slot hslot
      have hidx := ((portTable_eq_iff hports hport slot).mp hslot).2
      exact hlt (hidx ▸ slot.isLt)
    · intro slot hslot
      have hle := (portTable_eq_zero_iff hports slot).mp hslot
      have hbound := slot.isLt
      omega

theorem claimSlot_new (hports : Distinct ports) (hport : portNum ≠ 0)
    (hnew : portNum ∉ ports) :
    claimSlot (· = portNum) (· = 0) (portTable ports) =
      if h : ports.length < maxReuseSockCnt then some ⟨ports.length, h⟩ else none := by
  have hmine : firstSlot (· = portNum) (portTable ports) = none := by
    rw [firstSlot_eq_none_iff]
    intro slot hslot
    exact hnew ((portTable_eq_iff hports hport slot).mp hslot).1
  rw [claimSlot, hmine]
  dsimp only
  by_cases hlt : ports.length < maxReuseSockCnt
  · rw [dif_pos hlt, firstSlot_eq_some_iff]
    refine ⟨(portTable_eq_zero_iff hports _).mpr (Nat.le_refl _), ?_⟩
    intro earlier hearlier hzero
    have hle := (portTable_eq_zero_iff hports earlier).mp hzero
    exact absurd hearlier (Nat.not_lt.mpr hle)
  · rw [dif_neg hlt, firstSlot_eq_none_iff]
    intro slot hzero
    have hle := (portTable_eq_zero_iff hports slot).mp hzero
    have hbound := slot.isLt
    omega

/-- The two scans find a port's place in the order, the place after the last port for a
new one. -/
theorem claimSlot_portTable (hports : Distinct ports) (hport : portNum ≠ 0) :
    claimSlot (· = portNum) (· = 0) (portTable ports) =
      if h : (note ports portNum).idxOf portNum < maxReuseSockCnt then
        some ⟨(note ports portNum).idxOf portNum, h⟩
      else none := by
  by_cases hmem : portNum ∈ ports
  · rw [note_of_mem hmem]
    exact claimSlot_known hports hport hmem
  · rw [idxOf_note_new hmem]
    exact claimSlot_new hports hport hmem

theorem sockIdx_portTable (hports : Distinct ports) (hport : portNum ≠ 0) :
    sockIdx portNum (portTable ports) = entry (note ports portNum) portNum := by
  rw [sockIdx, claimSlot_portTable hports hport, entry]
  split <;> rfl

theorem portTable_note_of_ne {idx : Fin maxReuseSockCnt}
    (hne : (note ports portNum).idxOf portNum ≠ idx) :
    portTable (note ports portNum) idx = portTable ports idx := by
  by_cases hmem : portNum ∈ ports
  · rw [note_of_mem hmem]
  · rw [idxOf_note_new hmem] at hne
    rw [note_of_new hmem, portTable, portTable]
    by_cases hlt : (idx : Nat) < ports.length
    · rw [List.getD_append _ _ _ _ hlt]
    · rw [List.getD_eq_default _ _ (Nat.not_lt.mp hlt), List.getD_eq_default]
      rw [List.length_append, List.length_singleton]
      omega

/-- A call leaves the table of the ports that have been called then. -/
theorem getSockIdx_portTable (hports : Distinct ports) (hport : portNum ≠ 0) :
    (getSockIdx portNum (portTable ports)).2 = portTable (note ports portNum) := by
  unfold getSockIdx
  rw [claimSlot_portTable hports hport]
  funext idx
  by_cases hlt : (note ports portNum).idxOf portNum < maxReuseSockCnt
  · simp only [dif_pos hlt]
    by_cases hidx : idx = ⟨(note ports portNum).idxOf portNum, hlt⟩
    · subst hidx
      refine (Function.update_self _ _ _).trans ?_
      refine ((portTable_eq_iff (hports.note hport) hport _).mpr ⟨mem_note ports portNum, ?_⟩).symm
      rfl
    · rw [Function.update_of_ne hidx, portTable_note_of_ne]
      intro heq
      exact hidx (Fin.ext heq.symm)
  · rw [dif_neg hlt, portTable_note_of_ne]
    have hbound := idx.isLt
    omega

/-! ## Ports with the same entry -/

/-- The first port called, or one that was called after ten others. -/
def HasFirstEntry (ports : List Int) (portNum : Int) : Prop :=
  ports.idxOf portNum = 0 ∨ maxReuseSockCnt ≤ ports.idxOf portNum

theorem entry_note (hmem : other ∈ ports) (portNum : Int) :
    entry (note ports portNum) other = entry ports other := by
  unfold entry
  simp only [idxOf_note hmem]

/-- Two ports have one entry only as the first port and its late followers do. -/
theorem eq_or_hasFirstEntry (hmem : portNum ∈ ports)
    (hentry : entry ports portNum = entry ports other) :
    other = portNum ∨ HasFirstEntry ports portNum ∧ HasFirstEntry ports other := by
  unfold entry at hentry
  unfold HasFirstEntry
  split at hentry
  · split at hentry
    · left
      exact ((List.idxOf_inj hmem).mp (Fin.mk.inj hentry)).symm
    · have hzero := Fin.mk.inj hentry
      right
      omega
  · split at hentry
    · have hzero := Fin.mk.inj hentry
      right
      omega
    · right
      omega

/-! ## Runs of calls -/

/-- The client, the ports in the order of their first calls, and the port of the call that
created the socket of a descriptor. -/
structure Owned where
  client : State
  ports : List Int
  openedFor : Int → Option Int

def Owned.boot : Owned := ⟨State.boot, [], fun _ => none⟩

/-- The creators once the call has its socket. -/
def Owned.openedAfter (s : Owned) (call : Call) : Int → Option Int :=
  if 0 < s.client.sock (sockIdx call.portNum s.client.sockMgr) then s.openedFor
  else
    match call.answers.created with
    | none => s.openedFor
    | some created => Function.update s.openedFor created.descriptor (some call.portNum)

theorem Owned.openedAfter_cached {s : Owned} {call : Call}
    (hcached : 0 < s.client.sock (sockIdx call.portNum s.client.sockMgr)) :
    s.openedAfter call = s.openedFor :=
  if_pos hcached

theorem Owned.openedAfter_failed {s : Owned} {call : Call}
    (hcached : ¬ 0 < s.client.sock (sockIdx call.portNum s.client.sockMgr))
    (hcreated : call.answers.created = none) :
    s.openedAfter call = s.openedFor := by
  rw [Owned.openedAfter, if_neg hcached, hcreated]

theorem Owned.openedAfter_created {s : Owned} {call : Call} {created : Created}
    (hcached : ¬ 0 < s.client.sock (sockIdx call.portNum s.client.sockMgr))
    (hcreated : call.answers.created = some created) :
    s.openedAfter call =
      Function.update s.openedFor created.descriptor (some call.portNum) := by
  rw [Owned.openedAfter, if_neg hcached, hcreated]

/-- A call for a port other than 0, to which the kernel gives no open descriptor as new. -/
def step (s : Owned) (call : Call) : Option Owned :=
  if Fresh s.client call.answers ∧ call.portNum ≠ 0 then
    some ⟨(call.perform s.client).2, note s.ports call.portNum, s.openedAfter call⟩
  else none

/-- What a call of one port may do with the socket of another, given the ports called. -/
abbrev Access := List Int → Int → Int → Prop

/-- Only the port itself may use its socket. -/
def ownOnly : Access := fun _ portNum owner => owner = portNum

/-- So may ports that have the first entry among each other. -/
def ownOrFirstEntry : Access := fun ports portNum owner =>
  owner = portNum ∨ HasFirstEntry ports portNum ∧ HasFirstEntry ports owner

/-- The call has got a socket of an owner it may use. -/
def UsesSocketOf (may : Access) (s : Owned) (call : Call) : Prop :=
  ∀ sock after,
    initIpcSock call.timeOut call.portNum call.answers.created s.client = (sock, after) →
      0 ≤ sock →
        ∃ owner ∈ s.openedAfter call sock, may (note s.ports call.portNum) call.portNum owner

/-- The call leaves every socket as it was whose owner is one it may not use. -/
def LeavesOthers (may : Access) (s : Owned) (call : Call) : Prop :=
  ∀ descriptor, ∀ owner ∈ s.openedAfter call descriptor,
    ¬ may (note s.ports call.portNum) call.portNum owner →
      (call.perform s.client).2.sockets descriptor = s.client.sockets descriptor

def KeepsTo (may : Access) (s : Owned) (call : Call) : Prop :=
  Fresh s.client call.answers → call.portNum ≠ 0 →
    UsesSocketOf may s call ∧ LeavesOthers may s call

/-- Every cached descriptor is open and was created for a port that has this entry. -/
structure Filed (s : Owned) : Prop where
  distinct : Distinct s.ports
  table : s.client.sockMgr = portTable s.ports
  owner : ∀ idx, 0 < s.client.sock idx → s.client.sockets (s.client.sock idx) ≠ none ∧
    ∃ owner ∈ s.ports, s.openedFor (s.client.sock idx) = some owner ∧ entry s.ports owner = idx

theorem filed_boot : Filed Owned.boot := by
  constructor
  · exact ⟨List.nodup_nil, by simp [Owned.boot]⟩
  · rfl
  · intro idx hidx
    exact absurd hidx (Int.lt_irrefl 0)

/-- Two entries hold one descriptor only if they are the same. -/
theorem Filed.sock_inj {s : Owned} (hs : Filed s) {first second : Fin maxReuseSockCnt}
    (hfirst : 0 < s.client.sock first) (heq : s.client.sock first = s.client.sock second) :
    first = second := by
  obtain ⟨_, owner, _, hopened, hentry⟩ := hs.owner first hfirst
  obtain ⟨_, owner', _, hopened', hentry'⟩ := hs.owner second (heq ▸ hfirst)
  rw [heq, hopened', Option.some.injEq] at hopened
  rw [← hentry, ← hentry', hopened]

theorem Filed.sockIdx_eq {s : Owned} (hs : Filed s) {portNum : Int} (hport : portNum ≠ 0) :
    sockIdx portNum s.client.sockMgr = entry (note s.ports portNum) portNum := by
  rw [hs.table, sockIdx_portTable hs.distinct hport]

theorem Filed.getSockIdx_snd {s : Owned} (hs : Filed s) {portNum : Int} (hport : portNum ≠ 0) :
    (getSockIdx portNum s.client.sockMgr).2 = portTable (note s.ports portNum) := by
  rw [hs.table, getSockIdx_portTable hs.distinct hport]

/-- The state between `_init_ipc_sock` and `sendto`. -/
def Owned.afterInit (s : Owned) (call : Call) : Owned :=
  ⟨(initIpcSock call.timeOut call.portNum call.answers.created s.client).2,
    note s.ports call.portNum, s.openedAfter call⟩

/-- Entries that the call does not touch stay filed. -/
theorem Filed.owner_note {s : Owned} (hs : Filed s) {idx : Fin maxReuseSockCnt}
    (hidx : 0 < s.client.sock idx) (portNum : Int) :
    ∃ owner ∈ note s.ports portNum,
      s.openedFor (s.client.sock idx) = some owner ∧ entry (note s.ports portNum) owner = idx := by
  obtain ⟨_, owner, hmem, hopened, hentry⟩ := hs.owner idx hidx
  refine ⟨owner, mem_note_of_mem hmem portNum, hopened, ?_⟩
  rw [entry_note hmem, hentry]

theorem filed_afterInit {s : Owned} (hs : Filed s) {call : Call}
    (hfresh : Fresh s.client call.answers) (hport : call.portNum ≠ 0) :
    Filed (s.afterInit call) := by
  by_cases hcached : 0 < s.client.sock (sockIdx call.portNum s.client.sockMgr)
  · rw [Owned.afterInit, initIpcSock_cached _ hcached, Owned.openedAfter_cached hcached]
    refine ⟨hs.distinct.note hport, hs.getSockIdx_snd hport, ?_⟩
    intro idx hidx
    exact ⟨(hs.owner idx hidx).1, hs.owner_note hidx call.portNum⟩
  · cases hcreated : call.answers.created with
    | none =>
        rw [Owned.afterInit, hcreated, initIpcSock_failed hcached,
          Owned.openedAfter_failed hcached hcreated]
        refine ⟨hs.distinct.note hport, hs.getSockIdx_snd hport, ?_⟩
        intro idx hidx
        exact ⟨(hs.owner idx hidx).1, hs.owner_note hidx call.portNum⟩
    | some created =>
        rw [Owned.afterInit, hcreated, initIpcSock_created created hcached,
          Owned.openedAfter_created hcached hcreated]
        refine ⟨hs.distinct.note hport, hs.getSockIdx_snd hport, ?_⟩
        intro idx hidx
        dsimp only at hidx ⊢
        by_cases hmine : idx = sockIdx call.portNum s.client.sockMgr
        · rw [hmine, Function.update_self, Function.update_self, Function.update_self]
          refine ⟨by simp, call.portNum, mem_note _ _, rfl, ?_⟩
          rw [hs.sockIdx_eq hport]
        · rw [Function.update_of_ne hmine] at hidx ⊢
          obtain ⟨hopen, _⟩ := hs.owner idx hidx
          -- the new descriptor was not open, so it is no other entry's
          have hother : s.client.sock idx ≠ created.descriptor := by
            intro heq
            exact hopen (heq ▸ (hfresh created hcreated).2)
          rw [Function.update_of_ne hother, Function.update_of_ne hother]
          exact ⟨hopen, hs.owner_note hidx call.portNum⟩

theorem filed_closeIpcSock {s : Owned} (hs : Filed s) {portNum : Int}
    (hmem : portNum ∈ s.ports) (hport : portNum ≠ 0) :
    Filed ⟨closeIpcSock portNum s.client, s.ports, s.openedFor⟩ := by
  refine ⟨hs.distinct, ?_, ?_⟩
  · have htable := hs.getSockIdx_snd hport
    rwa [note_of_mem hmem] at htable
  · intro idx hidx
    by_cases hclosed : idx = sockIdx portNum s.client.sockMgr
    · simp [closeIpcSock, hclosed] at hidx
    · have hsame : (closeIpcSock portNum s.client).sock idx = s.client.sock idx := by
        simp [closeIpcSock, hclosed]
      dsimp only at hidx ⊢
      rw [hsame] at hidx ⊢
      obtain ⟨hopen, howner⟩ := hs.owner idx hidx
      refine ⟨?_, howner⟩
      unfold closeIpcSock
      by_cases hpos : 0 < s.client.sock (sockIdx portNum s.client.sockMgr)
      · have hother : s.client.sock idx ≠ s.client.sock (sockIdx portNum s.client.sockMgr) :=
          fun heq => hclosed (hs.sock_inj hidx heq)
        simpa [hpos, hother] using hopen
      · simpa [hpos] using hopen

theorem filed_step {s next : Owned} {call : Call} (hs : Filed s)
    (hstep : step s call = some next) : Filed next := by
  obtain ⟨⟨hfresh, hport⟩, rfl⟩ := Option.ite_some_none_eq_some.mp hstep
  have hinit := filed_afterInit hs hfresh hport
  rw [perform_eq]
  rcases sendRequest_snd call.answers with hsent | hclosed
  · rw [hsent]
    exact hinit
  · rw [hclosed]
    exact filed_closeIpcSock hinit (mem_note s.ports call.portNum) hport

/-! ## The sockets a call reaches -/

/-- The socket filed under a port's entry is the port's own or of the shared first entry. -/
theorem Filed.owner_of_entry {s : Owned} (hs : Filed s) {portNum : Int}
    (hmem : portNum ∈ s.ports) {idx : Fin maxReuseSockCnt} (hidx : 0 < s.client.sock idx)
    (hentry : entry s.ports portNum = idx) :
    ∃ owner ∈ s.openedFor (s.client.sock idx), ownOrFirstEntry s.ports portNum owner := by
  obtain ⟨_, owner, _, hopened, howner⟩ := hs.owner idx hidx
  exact ⟨owner, hopened, eq_or_hasFirstEntry hmem (hentry.trans howner.symm)⟩

theorem usesSocketOf_entry {s : Owned} (hs : Filed s) {call : Call}
    (hport : call.portNum ≠ 0) : UsesSocketOf ownOrFirstEntry s call := by
  intro sock after hinit hsock
  by_cases hcached : 0 < s.client.sock (sockIdx call.portNum s.client.sockMgr)
  · rw [initIpcSock_cached _ hcached, Prod.mk.injEq] at hinit
    obtain ⟨owner, _, howner, hentry⟩ := hs.owner_note hcached call.portNum
    rw [← hinit.1, Owned.openedAfter_cached hcached]
    refine ⟨owner, howner, eq_or_hasFirstEntry (mem_note s.ports call.portNum) ?_⟩
    rw [hentry, hs.sockIdx_eq hport]
  · cases hcreated : call.answers.created with
    | none =>
        rw [hcreated, initIpcSock_failed hcached, Prod.mk.injEq] at hinit
        rw [← hinit.1] at hsock
        exact absurd hsock (by decide)
    | some created =>
        rw [hcreated, initIpcSock_created created hcached, Prod.mk.injEq] at hinit
        rw [← hinit.1, Owned.openedAfter_created hcached hcreated]
        exact ⟨call.portNum, Function.update_self _ _ _, Or.inl rfl⟩

/-- A socket that another port created is still there when the call has its own. -/
theorem afterInit_sockets {s : Owned} {call : Call} {descriptor owner : Int}
    (howner : s.openedAfter call descriptor = some owner) (hother : owner ≠ call.portNum) :
    (s.afterInit call).client.sockets descriptor = s.client.sockets descriptor := by
  unfold Owned.afterInit
  by_cases hcached : 0 < s.client.sock (sockIdx call.portNum s.client.sockMgr)
  · rw [initIpcSock_cached _ hcached]
  · cases hcreated : call.answers.created with
    | none => rw [initIpcSock_failed hcached]
    | some created =>
        rw [initIpcSock_created created hcached]
        apply Function.update_of_ne
        rintro rfl
        rw [Owned.openedAfter_created hcached hcreated, Function.update_self,
          Option.some.injEq] at howner
        exact hother howner.symm

theorem leavesOthers_entry {s : Owned} (hs : Filed s) {call : Call}
    (hfresh : Fresh s.client call.answers) (hport : call.portNum ≠ 0) :
    LeavesOthers ownOrFirstEntry s call := by
  intro descriptor owner howner hnot
  have hinit := filed_afterInit hs hfresh hport
  have hkept := afterInit_sockets howner (fun heq => hnot (Or.inl heq))
  rw [← hkept, perform_eq]
  rcases sendRequest_snd call.answers with hsent | hclosed
  · rw [hsent]
    rfl
  · rw [hclosed]
    change (closeIpcSock call.portNum (s.afterInit call).client).sockets descriptor = _
    have hidx := hinit.sockIdx_eq hport
    rw [show note (s.afterInit call).ports call.portNum = (s.afterInit call).ports from
      note_of_mem (mem_note s.ports call.portNum)] at hidx
    unfold closeIpcSock
    simp only [getSockIdx_fst]
    split
    · next hpos =>
        apply Function.update_of_ne
        rintro rfl
        obtain ⟨owner', howner', haccess⟩ :=
          hinit.owner_of_entry (mem_note s.ports call.portNum) hpos hidx.symm
        rw [Option.mem_def] at howner
        cases howner.symm.trans howner'
        exact hnot haccess
    · rfl

/-- Every call uses and closes only sockets of its own port, but for ports that share the
first entry. -/
theorem keepsTo_entry (calls : List Call) :
    EachStep step (KeepsTo ownOrFirstEntry) Owned.boot calls := by
  refine eachStep_of_kept Filed (fun s call next hs hstep => filed_step hs hstep) ?_ filed_boot
  intro s call hs hfresh hport
  exact ⟨usesSocketOf_entry hs hport, leavesOthers_entry hs hfresh hport⟩

/-- A call for the port with this number, with the new descriptor the kernel has for it. -/
def sendTo (portNum descriptor : Int) : Call :=
  .broadcastSend portNum ⟨some ⟨descriptor, 0⟩, true⟩

/-- Eleven ports, one call each. -/
def elevenPorts : List Call := (List.range 11).map fun i => sendTo (101 + i) (3 + i)

/-- The eleventh port gets the socket of the first. -/
theorem keepsTo_own_eleventh :
    ¬ ∀ calls, EachStep step (KeepsTo ownOnly) Owned.boot calls := by
  intro hall
  have huses : EachStep step (fun s call => Fresh s.client call.answers → call.portNum ≠ 0 →
      0 ≤ (initIpcSock call.timeOut call.portNum call.answers.created s.client).1 →
        s.openedAfter call
          (initIpcSock call.timeOut call.portNum call.answers.created s.client).1 =
            some call.portNum) Owned.boot elevenPorts := by
    refine eachStep_of_invariant (fun _ => True) (fun _ _ _ _ _ _ => trivial) ?_ trivial
      (hall elevenPorts)
    intro s call _ hkeeps hfresh hport hsock
    obtain ⟨owner, howner, rfl⟩ := (hkeeps hfresh hport).1 _ _ rfl hsock
    exact howner
  exact absurd huses (by decide +kernel)

end MdsFormal.Ipc.PortSockets
