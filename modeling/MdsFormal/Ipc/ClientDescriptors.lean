import Mathlib.Data.Set.Card
import MdsFormal.Ipc.ClientTimeout

/-!
# The sockets that a client keeps open

A descriptor counts as cached when it is positive.  One that is 0, as a process gets that
has closed its standard input, is stored like any other, but never found again and never
closed.  All other open sockets are in the cache, so that no run has more of them than the
cache has entries.
-/

namespace MdsFormal.Ipc.ClientDescriptors

open Library.LabelledRun Client ClientTimeout

def Open (c : State) (descriptor : Int) : Prop := (c.sockets descriptor).isSome = true

/-- The descriptor is in the cache. -/
def Listed (c : State) (descriptor : Int) : Prop :=
  ∃ idx, 0 < c.sock idx ∧ c.sock idx = descriptor

/-- The call asks for a socket and gets descriptor 0. -/
def GivenZero (s : Traced) (call : Call) : Prop :=
  ¬s.Cached call ∧ ∃ created ∈ call.answers.created, created.descriptor = 0

/-- After the call the open sockets are those of the cache and, once it has been given,
the one with descriptor 0. -/
def OpenAccounted (s : Traced) (call : Call) : Prop :=
  ∀ next ∈ step s call,
    (∀ descriptor, descriptor ≠ 0 → (Open next.client descriptor ↔ Listed next.client descriptor)) ∧
      (Open next.client 0 ↔ Open s.client 0 ∨ GivenZero s call) ∧
      {descriptor | Open next.client descriptor}.ncard ≤ maxReuseSockCnt + 1

/-- Only descriptor 0 is open without being in the cache. -/
def Covered (c : State) : Prop :=
  ∀ descriptor, descriptor ≠ 0 → Open c descriptor → Listed c descriptor

section

variable {s next : Traced} {call : Call} {c : State} {portNum : Int} {created : Created}

/-- What is cached is open. -/
theorem open_of_listed (hs : Accounted s) {descriptor : Int}
    (hlisted : Listed s.client descriptor) : Open s.client descriptor := by
  obtain ⟨idx, hpos, rfl⟩ := hlisted
  have htimeout := hs.timeout idx hpos
  rw [Option.map_eq_some_iff] at htimeout
  obtain ⟨sock, hsock, -⟩ := htimeout
  rw [Open, hsock, Option.isSome_some]

theorem covered_boot : Covered State.boot := by
  intro descriptor _ hopen
  cases hopen

/-- There is an entry of the cache for each open socket but one. -/
theorem Covered.ncard_le (hc : Covered c) :
    {descriptor | Open c descriptor}.ncard ≤ maxReuseSockCnt + 1 := by
  have hsub : {descriptor | Open c descriptor} ⊆ insert 0 (c.sock '' Set.univ) := by
    intro descriptor hopen
    by_cases hzero : descriptor = 0
    · exact Or.inl hzero
    · obtain ⟨idx, -, hidx⟩ := hc descriptor hzero hopen
      exact Or.inr ⟨idx, Set.mem_univ idx, hidx⟩
  have hcache : (c.sock '' Set.univ).ncard ≤ maxReuseSockCnt := by
    calc (c.sock '' Set.univ).ncard
        ≤ (Set.univ : Set (Fin maxReuseSockCnt)).ncard := Set.ncard_image_le (Set.toFinite _)
      _ = maxReuseSockCnt := by rw [Set.ncard_univ, Nat.card_eq_fintype_card, Fintype.card_fin]
  calc {descriptor | Open c descriptor}.ncard
      ≤ (insert 0 (c.sock '' Set.univ)).ncard := Set.ncard_le_ncard hsub (Set.toFinite _)
    _ ≤ (c.sock '' Set.univ).ncard + 1 := Set.ncard_insert_le 0 _
    _ ≤ maxReuseSockCnt + 1 := Nat.add_le_add_right hcache 1

theorem Covered.close (hc : Covered c) (portNum : Int) : Covered (closeIpcSock portNum c) := by
  intro descriptor hzero hopen
  simp only [Open, closeIpcSock, getSockIdx_fst] at hopen
  have hstill : Open c descriptor ∧
      (0 < c.sock (sockIdx portNum c.sockMgr) →
        descriptor ≠ c.sock (sockIdx portNum c.sockMgr)) := by
    split at hopen
    · by_cases hclosed : descriptor = c.sock (sockIdx portNum c.sockMgr)
      · rw [hclosed, Function.update_self] at hopen
        cases hopen
      · rw [Function.update_of_ne hclosed] at hopen
        exact ⟨hopen, fun _ => hclosed⟩
    · exact ⟨hopen, fun hpos => absurd hpos ‹_›⟩
  obtain ⟨idx, hpos, rfl⟩ := hc descriptor hzero hstill.1
  have hne : idx ≠ sockIdx portNum c.sockMgr := by
    rintro rfl
    exact hstill.2 hpos rfl
  refine ⟨idx, ?_, ?_⟩ <;> simp only [closeIpcSock, getSockIdx_fst, Function.update_of_ne hne]
  exact hpos

/-- `_close_ipc_sock` closes no descriptor that is not positive. -/
theorem open_zero_close (portNum : Int) (c : State) :
    Open (closeIpcSock portNum c) 0 ↔ Open c 0 := by
  simp only [Open, closeIpcSock, getSockIdx_fst]
  split
  · have hne : (0 : Int) ≠ c.sock (sockIdx portNum c.sockMgr) := Int.ne_of_lt ‹_›
    rw [Function.update_of_ne hne]
  · exact Iff.rfl

theorem Covered.create (hc : Covered c) {idx : Fin maxReuseSockCnt} (hidx : ¬0 < c.sock idx)
    (hnonneg : 0 ≤ created.descriptor) (sock : Sock) (sockMgr : Fin maxReuseSockCnt → Int) :
    Covered
      { sockMgr := sockMgr
        sock := Function.update c.sock idx created.descriptor
        sockets := Function.update c.sockets created.descriptor (some sock) } := by
  intro descriptor hzero hopen
  dsimp only [Open] at hopen
  by_cases hnew : descriptor = created.descriptor
  · refine ⟨idx, ?_, ?_⟩ <;> dsimp only <;> rw [Function.update_self]
    · omega
    · exact hnew.symm
  · rw [Function.update_of_ne hnew] at hopen
    obtain ⟨entry, hentry, rfl⟩ := hc descriptor hzero hopen
    have hne : entry ≠ idx := by
      rintro rfl
      exact hidx hentry
    refine ⟨entry, ?_, ?_⟩ <;> dsimp only <;> rw [Function.update_of_ne hne]
    exact hentry

theorem Covered.init (hc : Covered s.client) (hfresh : Fresh s.client call.answers) :
    Covered (initIpcSock call.timeOut call.portNum call.answers.created s.client).2 := by
  by_cases hcached : s.Cached call
  · rw [initIpcSock_cached _ hcached]
    exact hc
  · cases hcreated : call.answers.created with
    | none =>
        rw [initIpcSock_failed hcached]
        exact hc
    | some created =>
        rw [initIpcSock_created created hcached]
        exact hc.create hcached (hfresh created hcreated).1 _ _

/-- `_init_ipc_sock` opens descriptor 0 when that is what it is given. -/
theorem open_zero_init :
    Open (initIpcSock call.timeOut call.portNum call.answers.created s.client).2 0 ↔
      Open s.client 0 ∨ GivenZero s call := by
  by_cases hcached : s.Cached call
  · rw [initIpcSock_cached _ hcached]
    constructor
    · exact Or.inl
    · rintro (hopen | ⟨hnew, -⟩)
      · exact hopen
      · exact absurd hcached hnew
  · cases hcreated : call.answers.created with
    | none =>
        rw [initIpcSock_failed hcached]
        simp only [GivenZero, hcreated, Option.not_mem_none, false_and, exists_false, and_false,
          or_false]
        exact Iff.rfl
    | some created =>
        rw [initIpcSock_created created hcached]
        simp only [GivenZero, hcreated, Option.mem_some_iff, exists_eq_left', hcached,
          not_false_eq_true, true_and]
        dsimp only [Open]
        by_cases hzero : created.descriptor = 0
        · rw [hzero, Function.update_self]
          exact iff_of_true rfl (Or.inr rfl)
        · rw [Function.update_of_ne (Ne.symm hzero)]
          exact ⟨Or.inl, fun hopen => hopen.resolve_right hzero⟩

theorem Covered.step (hc : Covered s.client) (hstep : ClientTimeout.step s call = some next) :
    Covered next.client := by
  obtain ⟨hfresh, rfl⟩ := Option.ite_some_none_eq_some.mp hstep
  have hinit := hc.init hfresh
  rw [perform_eq]
  rcases sendRequest_snd call.answers with hsent | hclosed
  · rwa [hsent]
  · rw [hclosed]
    exact hinit.close call.portNum

theorem open_zero_step (hstep : ClientTimeout.step s call = some next) :
    Open next.client 0 ↔ Open s.client 0 ∨ GivenZero s call := by
  obtain ⟨-, rfl⟩ := Option.ite_some_none_eq_some.mp hstep
  rw [perform_eq, ← open_zero_init]
  rcases sendRequest_snd call.answers with hsent | hclosed
  · rw [hsent]
  · rw [hclosed]
    exact open_zero_close call.portNum _

end

/-- In every run of calls, whatever fails in them, each socket that is still open is in the
cache, except the one whose descriptor is 0, which stays open for good. -/
theorem sockets_accounted (calls : List Call) :
    EachStep step OpenAccounted Traced.boot calls := by
  refine eachStep_of_kept (fun s => Accounted s ∧ Covered s.client) ?_ ?_
    ⟨accounted_boot, covered_boot⟩
  · rintro s call next ⟨haccounted, hcovered⟩ hstep
    exact ⟨accounted_step haccounted hstep, hcovered.step hstep⟩
  · rintro s call ⟨haccounted, hcovered⟩ next hstep
    have hcovered' := hcovered.step hstep
    refine ⟨fun descriptor hzero => ⟨hcovered' descriptor hzero, ?_⟩, open_zero_step hstep,
      hcovered'.ncard_le⟩
    exact open_of_listed (accounted_step haccounted hstep)

end MdsFormal.Ipc.ClientDescriptors
