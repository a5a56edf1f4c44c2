import MdsFormal.Library.SlotMap
import MdsFormal.Shm.PerApp

/-!
# The per-app shared memory as a bounded map

As long as no caller uses the marker of free slots as a name, the segment
stands for a map from names to what was last stored under them, with room for
`PER_APP_MAX_CNT` names.
-/

namespace MdsFormal.Shm.PerAppMap

open Library Library.SlotMap Library.CString PerApp

/-- What a record holds besides its name. -/
structure Payload where
  testInt : Int
  msgBuff : Buf 1024
  deriving DecidableEq

def payload (data : PerAppData) : Payload := ⟨data.testInt, data.msgBuff⟩

abbrev AppMap := BoundedMap (List UInt8) Payload perAppMaxCnt

/-- The array that a caller passes to be filled. -/
abbrev PerAppArray := { data : List PerAppData // data.length = perAppMaxCnt }

/-- One call on an attached segment with data that is not null. -/
inductive Call where
  | set (appName : AppName) (data : PerAppData)
  | get (appName : AppName) (data : PerAppData)
  | getAll (data : PerAppArray)

/-- The call does not use the marker as a name. -/
def Call.Unmarked : Call → Prop
  | .set appName _ => appName.1 ≠ emptyAppName
  | .get appName _ => appName.1 ≠ emptyAppName
  | .getAll _ => True

instance : (call : Call) → Decidable call.Unmarked
  | .set appName _ => inferInstanceAs (Decidable (appName.1 ≠ emptyAppName))
  | .get appName _ => inferInstanceAs (Decidable (appName.1 ≠ emptyAppName))
  | .getAll _ => .isTrue trivial

def perform (seg : Segment) : Call → Segment
  | .set appName data => (appShmSetPerAppData true appName (some data) seg).2.1
  | .get appName data => (appShmGetPerAppData true appName (some data) seg).2.2
  | .getAll data => (appShmGetPerAppDataAll true (some data.1) seg).2.2

/-- The same call on the map. -/
def mapStep (m : AppMap) : Call → AppMap
  | .set appName data => m.set appName.1 (payload data)
  | .get .. => m
  | .getAll _ => m

/-- A set of the name would find a slot with it, or a free one. -/
def FindsSlot (seg : Segment) (name : AppName) : Prop :=
  (findApp name.1 (initialized seg)).isSome ∨ (findApp emptyAppName (initialized seg)).isSome

instance (seg : Segment) (name : AppName) : Decidable (FindsSlot seg name) :=
  inferInstanceAs (Decidable (_ ∨ _))

/-- The latest stored payload of the name after one more call. -/
def storedNext (name : AppName) (seg : Segment) (last : Option Payload) : Call → Option Payload
  | .set appName data =>
      if appName = name ∧ FindsSlot seg appName then some (payload data) else last
  | .get .. => last
  | .getAll _ => last

/-- What the latest set of the name that found a slot had to store, if there was one. -/
def lastStored (name : AppName) : Segment → Option Payload → List Call → Option Payload
  | _, last, [] => last
  | seg, last, call :: rest =>
      lastStored name (perform seg call) (storedNext name seg last call) rest

/-! ## The relation between the segment and the map -/

/-- The name a slot carries; the marker is none. -/
def slotKey (seg : Segment) (i : Fin perAppMaxCnt) : Option (List UInt8) :=
  if (seg.appName i).str = emptyAppName then none else some (seg.appName i).str

structure StandsFor (seg : Segment) (m : AppMap) : Prop where
  represents : Represents (slotKey (initialized seg)) (payload ∘ (initialized seg).shmPerApp) m
  valid : ∀ i key, slotKey (initialized seg) i = some key → ∃ name : AppName, name.1 = key

variable {seg : Segment} {m : AppMap} {name : AppName} {i : Fin perAppMaxCnt}

theorem slotKey_eq_some_iff {key : List UInt8} (hkey : key ≠ emptyAppName) :
    slotKey seg i = some key ↔ (seg.appName i).str = key := by
  unfold slotKey
  split
  · rename_i hmarker
    refine iff_of_false (by simp) fun hsame => ?_
    exact hkey (hsame.symm.trans hmarker)
  · exact Option.some_inj

/-- No slot has the marker for its key. -/
theorem slotKey_ne_marker {key : List UInt8} (hkey : slotKey seg i = some key) :
    key ≠ emptyAppName := by
  unfold slotKey at hkey
  split at hkey
  · cases hkey
  · cases hkey
    assumption

theorem slotKey_eq_none_iff : slotKey seg i = none ↔ (seg.appName i).str = emptyAppName := by
  unfold slotKey
  split <;> simp [*]

theorem standsFor_of_initFlag (hflag : seg.initFlag ≠ 0)
    (hrepresents : Represents (slotKey seg) (payload ∘ seg.shmPerApp) m)
    (hvalid : ∀ i key, slotKey seg i = some key → ∃ name : AppName, name.1 = key) :
    StandsFor seg m := by
  constructor
  · rw [initialized_of_initFlag hflag]
    exact hrepresents
  · rw [initialized_of_initFlag hflag]
    exact hvalid

/-- Only the names of the slots and their payloads matter. -/
theorem StandsFor.congr (hm : StandsFor seg m) {after : Segment}
    (hflag : after.initFlag ≠ 0) (hname : after.appName = (initialized seg).appName)
    (hpayload : payload ∘ after.shmPerApp = payload ∘ (initialized seg).shmPerApp) :
    StandsFor after m := by
  have hkey : slotKey after = slotKey (initialized seg) := by
    funext i
    rw [slotKey, slotKey, hname]
  refine standsFor_of_initFlag hflag ?_ ?_
  · rw [hkey, hpayload]
    exact hm.represents
  · rw [hkey]
    exact hm.valid

theorem standsFor_zero : StandsFor Segment.zero BoundedMap.empty := by
  have hfree : ∀ i, slotKey (initialized Segment.zero) i = none := fun i =>
    slotKey_eq_none_iff.mpr (str_strcpy_appName (.zero 256) ⟨emptyAppName, by decide, by decide⟩)
  constructor
  · exact represents_empty hfree
  · intro i key hkey
    rw [hfree] at hkey
    cases hkey

/-- Naming a slot changes the key of that slot alone. -/
theorem slotKey_update (hmarker : name.1 ≠ emptyAppName)
    (shmPerApp : Fin perAppMaxCnt → PerAppData) :
    slotKey ⟨seg.initFlag, Function.update seg.appName i ((seg.appName i).strcpy name.1),
        shmPerApp⟩ =
      Function.update (slotKey seg) i (some name.1) := by
  funext j
  rcases eq_or_ne j i with rfl | hne
  · rw [Function.update_self, slotKey_eq_some_iff hmarker]
    change (Function.update seg.appName j _ j).str = name.1
    rw [Function.update_self, str_strcpy_appName]
  · rw [Function.update_of_ne hne]
    change (if (Function.update seg.appName i _ j).str = emptyAppName then none
      else some (Function.update seg.appName i _ j).str) = _
    rw [Function.update_of_ne hne]
    rfl

theorem findApp_some (hmarker : name.1 ≠ emptyAppName)
    (hfind : findApp name.1 seg = some i) : slotKey seg i = some name.1 :=
  (slotKey_eq_some_iff hmarker).mpr (findApp_str hfind)

theorem findApp_none (hmarker : name.1 ≠ emptyAppName) (hnone : findApp name.1 seg = none) :
    ∀ i, slotKey seg i ≠ some name.1 := by
  intro i hkey
  exact findApp_eq_none_iff.mp hnone i ((slotKey_eq_some_iff hmarker).mp hkey)

/-! ## One call -/

/-- A set does to the map what it does to the segment. -/
theorem standsFor_set (hm : StandsFor seg m) (hmarker : name.1 ≠ emptyAppName)
    (data : PerAppData) :
    StandsFor (perform seg (.set name data)) (m.set name.1 (payload data)) := by
  have hflag := initialized_initFlag seg
  cases hfind : findApp name.1 (initialized seg) with
  | some i =>
      have hkey := findApp_some hmarker hfind
      rw [perform, set_found hfind]
      refine standsFor_of_initFlag hflag ?_ hm.valid
      change Represents (slotKey (initialized seg))
        (payload ∘ Function.update (initialized seg).shmPerApp i data) _
      rw [Function.comp_update]
      exact hm.represents.overwrite hkey (payload data)
  | none =>
      have hnone := findApp_none hmarker hfind
      cases hfree : findApp emptyAppName (initialized seg) with
      | some i =>
          have hfree_key : slotKey (initialized seg) i = none :=
            slotKey_eq_none_iff.mpr (findApp_str hfree)
          rw [perform, set_free hfind hfree]
          refine standsFor_of_initFlag hflag ?_ ?_
          · rw [slotKey_update hmarker, Function.comp_update]
            exact hm.represents.fill hfree_key hnone (payload data)
          · rw [slotKey_update hmarker]
            intro j key hkey
            rcases eq_or_ne j i with rfl | hne
            · rw [Function.update_self] at hkey
              exact ⟨name, Option.some.inj hkey⟩
            · rw [Function.update_of_ne hne] at hkey
              exact hm.valid j key hkey
      | none =>
          rw [perform, set_full hfind hfree, hm.represents.set_full hnone ?_]
          · exact hm.congr hflag rfl rfl
          · intro i hkey
            exact findApp_eq_none_iff.mp hfree i (slotKey_eq_none_iff.mp hkey)

theorem standsFor_get (hm : StandsFor seg m) (name : AppName) (data : PerAppData) :
    StandsFor (perform seg (.get name data)) m := by
  have hflag := initialized_initFlag seg
  cases hfind : findApp name.1 (initialized seg) with
  | some i =>
      rw [perform, get_found hfind]
      refine hm.congr hflag rfl ?_
      rw [Function.comp_update]
      exact Function.update_eq_self i (payload ∘ (initialized seg).shmPerApp)
  | none =>
      rw [perform, get_absent hfind]
      exact hm.congr hflag rfl rfl

/-! ## Collecting every record -/

/-- The slot carries a name. -/
def Taken (seg : Segment) (i : Fin perAppMaxCnt) : Prop := (seg.appName i).str ≠ emptyAppName

instance (seg : Segment) : DecidablePred (Taken seg) := fun _ => instDecidableNot

theorem take_set_succ {α : Type} (entries : List α) {j : Nat} (hj : j < entries.length)
    (entry : α) : (entries.set j entry).take (j + 1) = entries.take j ++ [entry] := by
  rw [List.take_add_one, List.getElem?_set_self hj, List.take_set_of_le (Nat.le_refl j)]
  rfl

/-- What the loop has done after the given slots: names and payloads are as they were, and
the taken slots' records have been appended in order. -/
structure CollectedFrom (slots : List (Fin perAppMaxCnt)) (before after : Collected) : Prop where
  initFlag : after.seg.initFlag = before.seg.initFlag
  appName : after.seg.appName = before.seg.appName
  payloads : payload ∘ after.seg.shmPerApp = payload ∘ before.seg.shmPerApp
  count : after.count = before.count + (slots.filter (Taken before.seg ·)).length
  written : after.data.take after.count =
    before.data.take before.count ++ (slots.filter (Taken before.seg ·)).map (named before.seg)

/-- One taken slot. -/
theorem collectSlot_taken {c : Collected} (htaken : Taken c.seg i) :
    collectSlot c i =
      ⟨⟨c.seg.initFlag, c.seg.appName, Function.update c.seg.shmPerApp i (named c.seg i)⟩,
        c.data.set c.count (named c.seg i), c.count + 1⟩ :=
  if_pos htaken

/-- The slots that are still to come are not the one just renamed. -/
theorem named_collectSlot {c : Collected} {rest : List (Fin perAppMaxCnt)} (hfresh : i ∉ rest)
    (htaken : Taken c.seg i) :
    ∀ j ∈ rest.filter (Taken c.seg ·), named (collectSlot c i).seg j = named c.seg j := by
  intro j hj
  have hne : j ≠ i := by
    rintro rfl
    exact hfresh (List.mem_of_mem_filter hj)
  rw [collectSlot_taken htaken]
  simp only [named, Function.update_of_ne hne]

theorem CollectedFrom.cons_taken {c after : Collected} {rest : List (Fin perAppMaxCnt)}
    (htaken : Taken c.seg i) (hfresh : i ∉ rest) (hroom : c.count < c.data.length)
    (hlater : CollectedFrom rest (collectSlot c i) after) :
    CollectedFrom (i :: rest) c after := by
  have hnamed := named_collectSlot hfresh htaken
  rw [collectSlot_taken htaken] at hlater hnamed
  constructor
  · exact hlater.initFlag
  · exact hlater.appName
  · rw [hlater.payloads]
    change payload ∘ Function.update c.seg.shmPerApp i (named c.seg i) = _
    rw [Function.comp_update]
    exact Function.update_eq_self i (payload ∘ c.seg.shmPerApp)
  · rw [List.filter_cons_of_pos (by simpa using htaken), List.length_cons]
    exact hlater.count.trans (Nat.add_right_comm ..)
  · rw [List.filter_cons_of_pos (by simpa using htaken), List.map_cons]
    refine hlater.written.trans ?_
    change (c.data.set c.count (named c.seg i)).take (c.count + 1) ++
      (rest.filter (Taken c.seg ·)).map _ = _
    rw [take_set_succ c.data hroom, List.map_congr_left hnamed, List.append_assoc]
    rfl

theorem CollectedFrom.cons_free {c after : Collected} {rest : List (Fin perAppMaxCnt)}
    (hfree : ¬ Taken c.seg i) (hlater : CollectedFrom rest c after) :
    CollectedFrom (i :: rest) c after := by
  have hfilter : (i :: rest).filter (Taken c.seg ·) = rest.filter (Taken c.seg ·) :=
    List.filter_cons_of_neg (by simpa using hfree)
  constructor
  · exact hlater.initFlag
  · exact hlater.appName
  · exact hlater.payloads
  · rw [hfilter]
    exact hlater.count
  · rw [hfilter]
    exact hlater.written

theorem collectedFrom_foldl (slots : List (Fin perAppMaxCnt)) (hnodup : slots.Nodup)
    (c : Collected)
    (hroom : c.count + (slots.filter (Taken c.seg ·)).length ≤ c.data.length) :
    CollectedFrom slots c (slots.foldl collectSlot c) := by
  induction slots generalizing c with
  | nil => constructor <;> simp
  | cons i rest ih =>
      obtain ⟨hfresh, hrest⟩ := List.nodup_cons.mp hnodup
      rw [List.foldl_cons]
      by_cases htaken : Taken c.seg i
      · rw [List.filter_cons_of_pos (by simpa using htaken), List.length_cons] at hroom
        refine .cons_taken htaken hfresh (by omega) (ih hrest (collectSlot c i) ?_)
        rw [collectSlot_taken htaken]
        dsimp only
        rw [List.length_set]
        exact Nat.le_trans (Nat.le_of_eq (Nat.add_right_comm ..)) hroom
      · have hskip : collectSlot c i = c := if_neg htaken
        rw [List.filter_cons_of_neg (by simpa using htaken)] at hroom
        rw [hskip]
        exact .cons_free htaken (ih hrest c hroom)

/-- The taken slots in the order in which they are collected. -/
def takenSlots (seg : Segment) : List (Fin perAppMaxCnt) :=
  (List.finRange perAppMaxCnt).filter (Taken seg ·)

theorem length_takenSlots_le (seg : Segment) : (takenSlots seg).length ≤ perAppMaxCnt :=
  (List.length_filter_le _ _).trans (Nat.le_of_eq List.length_finRange)

/-- The whole of `app_shm_get_per_app_data_all`. -/
theorem getAll_collects (seg : Segment) (data : PerAppArray) :
    ∃ written after,
      appShmGetPerAppDataAll true (some data.1) seg =
        (((takenSlots (initialized seg)).length : Int), some written, after) ∧
      written.take (takenSlots (initialized seg)).length =
        (takenSlots (initialized seg)).map (named (initialized seg)) ∧
      after.initFlag = (initialized seg).initFlag ∧
      after.appName = (initialized seg).appName ∧
      payload ∘ after.shmPerApp = payload ∘ (initialized seg).shmPerApp := by
  have hroom : 0 + (takenSlots (initialized seg)).length ≤ data.1.length := by
    rw [data.2, Nat.zero_add]
    exact length_takenSlots_le (initialized seg)
  have hcollected := collectedFrom_foldl (List.finRange perAppMaxCnt) (List.nodup_finRange _)
    ⟨initialized seg, data.1, 0⟩ hroom
  have hget : appShmGetPerAppDataAll true (some data.1) seg =
      let c := (List.finRange perAppMaxCnt).foldl collectSlot ⟨initialized seg, data.1, 0⟩
      ((c.count : Int), some c.data, c.seg) := rfl
  rw [hget]
  generalize (List.finRange perAppMaxCnt).foldl collectSlot ⟨initialized seg, data.1, 0⟩ = c
    at hcollected
  have hcount : c.count = (takenSlots (initialized seg)).length :=
    hcollected.count.trans (Nat.zero_add _)
  refine ⟨c.data, c.seg, ?_, ?_, hcollected.initFlag, hcollected.appName, hcollected.payloads⟩
  · rw [← hcount]
  · rw [← hcount]
    exact hcollected.written

theorem standsFor_getAll (hm : StandsFor seg m) (data : PerAppArray) :
    StandsFor (perform seg (.getAll data)) m := by
  obtain ⟨written, after, hget, _, hflag, hname, hpayload⟩ := getAll_collects seg data
  rw [perform, hget]
  exact hm.congr (hflag ▸ initialized_initFlag seg) hname hpayload

/-! ## Runs -/

theorem standsFor_perform (hm : StandsFor seg m) {call : Call} (hcall : call.Unmarked) :
    StandsFor (perform seg call) (mapStep m call) := by
  cases call with
  | set name data => exact standsFor_set hm hcall data
  | get name data => exact standsFor_get hm name data
  | getAll data => exact standsFor_getAll hm data

theorem standsFor_run (hm : StandsFor seg m) {calls : List Call}
    (hcalls : ∀ call ∈ calls, call.Unmarked) :
    StandsFor (calls.foldl perform seg) (calls.foldl mapStep m) := by
  induction calls generalizing seg m with
  | nil => exact hm
  | cons call rest ih =>
      obtain ⟨hcall, hrest⟩ := List.forall_mem_cons.mp hcalls
      exact ih (standsFor_perform hm hcall) hrest

/-- A set finds a slot exactly when the map takes the name. -/
theorem StandsFor.accepts_iff (hm : StandsFor seg m) (hmarker : name.1 ≠ emptyAppName) :
    m.Accepts name.1 ↔ FindsSlot seg name := by
  unfold FindsSlot
  cases hfind : findApp name.1 (initialized seg) with
  | some i =>
      have hlookup := hm.represents.lookup_eq (findApp_some hmarker hfind)
      exact iff_of_true (BoundedMap.accepts_of_lookup hlookup) (Or.inl rfl)
  | none =>
      have hnone := findApp_none hmarker hfind
      cases hfree : findApp emptyAppName (initialized seg) with
      | some i =>
          have hkey := slotKey_eq_none_iff.mpr (findApp_str hfree)
          exact iff_of_true (hm.represents.accepts_of_free hkey name.1) (Or.inr rfl)
      | none =>
          refine iff_of_false (hm.represents.not_accepts hnone fun i hkey => ?_) (by simp)
          exact findApp_eq_none_iff.mp hfree i (slotKey_eq_none_iff.mp hkey)

/-- One call does to the map's value what it does to the latest stored one. -/
theorem lookup_mapStep (hm : StandsFor seg m) {call : Call} (hcall : call.Unmarked)
    (name : AppName) :
    (mapStep m call).lookup name.1 = storedNext name seg (m.lookup name.1) call := by
  cases call with
  | get other data => rfl
  | getAll data => rfl
  | set other data =>
      rw [storedNext, mapStep]
      rcases eq_or_ne other name with rfl | hne
      · by_cases haccepts : m.Accepts other.1
        · rw [if_pos ⟨rfl, (hm.accepts_iff hcall).mp haccepts⟩,
            BoundedMap.lookup_set_self haccepts]
        · rw [if_neg (fun h => haccepts ((hm.accepts_iff hcall).mpr h.2)),
            BoundedMap.set_of_not_accepts haccepts]
      · have hkey : name.1 ≠ other.1 := fun heq => hne (Subtype.ext heq.symm)
        rw [if_neg (fun h => hne h.1), BoundedMap.lookup_set_of_ne hkey]

/-- The map holds what the latest set that found a slot stored. -/
theorem lookup_run (hm : StandsFor seg m) {calls : List Call}
    (hcalls : ∀ call ∈ calls, call.Unmarked) (name : AppName) :
    (calls.foldl mapStep m).lookup name.1 = lastStored name seg (m.lookup name.1) calls := by
  induction calls generalizing seg m with
  | nil => rfl
  | cons call rest ih =>
      obtain ⟨hcall, hrest⟩ := List.forall_mem_cons.mp hcalls
      rw [List.foldl_cons, ih (standsFor_perform hm hcall) hrest, lookup_mapStep hm hcall,
        lastStored]

end MdsFormal.Shm.PerAppMap
