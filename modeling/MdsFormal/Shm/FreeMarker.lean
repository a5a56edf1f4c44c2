import MdsFormal.Library.LabelledRun
import MdsFormal.Shm.PerAppMap

/-!
# The marker of free slots as an application's name

A slot is free when it carries the name "null", so a caller that uses this name
gets a free slot's record, and what it stores there goes to the next new name.
Runs here carry the names that sets have used and, for each slot, the name under
which its record was last stored.
-/

namespace MdsFormal.Shm.FreeMarker

open Library.LabelledRun Library.SlotTable PerApp PerAppMap

/-- The marker as a name. -/
def markerName : AppName := ⟨emptyAppName, by decide, by decide⟩

/-- The slot that a set writes: the first with the name, or else the first free one. -/
def targetSlot (seg : Segment) (name : AppName) : Option (Fin perAppMaxCnt) :=
  match findApp name.1 (initialized seg) with
  | some i => some i
  | none => findApp emptyAppName (initialized seg)

structure Traced where
  seg : Segment
  setNames : List AppName
  storedBy : Fin perAppMaxCnt → Option AppName

def Traced.boot : Traced := ⟨Segment.zero, [], fun _ => none⟩

def step (s : Traced) : Call → Option Traced
  | .set name data =>
      some ⟨perform s.seg (.set name data), name :: s.setNames,
        match targetSlot s.seg name with
        | some i => Function.update s.storedBy i (some name)
        | none => s.storedBy⟩
  | .get name data => some { s with seg := perform s.seg (.get name data) }
  | .getAll data => some { s with seg := perform s.seg (.getAll data) }

/-- A get finds only names that were set, and a set writes over no record that was stored
under another name. -/
def KeptApart (s : Traced) : Call → Prop
  | .get name data =>
      (appShmGetPerAppData true name (some data) s.seg).1 = mdsShmTrue → name ∈ s.setNames
  | .set name _ => ∀ i ∈ targetSlot s.seg name, ∀ stored ∈ s.storedBy i, stored = name
  | .getAll _ => True

instance (s : Traced) : (call : Call) → Decidable (KeptApart s call)
  | .get name data => inferInstanceAs (Decidable
      ((appShmGetPerAppData true name (some data) s.seg).1 = mdsShmTrue → name ∈ s.setNames))
  | .set name _ => inferInstanceAs
      (Decidable (∀ i ∈ targetSlot s.seg name, ∀ stored ∈ s.storedBy i, stored = name))
  | .getAll _ => .isTrue trivial

/-- While a slot is free, a get of the marker comes after a set of it, and a set of a name
that no slot carries comes before. -/
def MarkerOrder (s : Traced) : Call → Prop
  | .get name _ =>
      name = markerName → (findApp emptyAppName (initialized s.seg)).isSome →
        markerName ∈ s.setNames
  | .set name _ =>
      findApp name.1 (initialized s.seg) = none →
        (findApp emptyAppName (initialized s.seg)).isSome → markerName ∉ s.setNames
  | .getAll _ => True

/-- Every taken slot's record was stored under its name, a free slot's under the marker if
at all, and a set of the marker has left its record in the first free slot. -/
structure Accounted (s : Traced) : Prop where
  taken : ∀ i, Taken (initialized s.seg) i →
    ∃ name ∈ s.storedBy i, name ∈ s.setNames ∧ name.1 = ((initialized s.seg).appName i).str
  free : ∀ i, ¬ Taken (initialized s.seg) i → ∀ name ∈ s.storedBy i,
    name = markerName ∧ name ∈ s.setNames
  marker : markerName ∈ s.setNames → ∀ i ∈ findApp emptyAppName (initialized s.seg),
    s.storedBy i = some markerName

theorem accounted_boot : Accounted Traced.boot := by
  have hfree : ∀ i, ¬ Taken (initialized Segment.zero) i := fun i => by
    rw [Taken, not_not]
    exact str_strcpy_appName (.zero 256) markerName
  constructor
  · intro i htaken
    exact absurd htaken (hfree i)
  · intro i _ name hname
    cases hname
  · intro hmarker
    exact absurd hmarker List.not_mem_nil

variable {s : Traced} {name : AppName} {data : PerAppData}

theorem targetSlot_some {seg : Segment} {i : Fin perAppMaxCnt}
    (hfind : findApp name.1 (initialized seg) = some i) : targetSlot seg name = some i := by
  unfold targetSlot
  rw [hfind]

theorem targetSlot_none {seg : Segment} (hfind : findApp name.1 (initialized seg) = none) :
    targetSlot seg name = findApp emptyAppName (initialized seg) := by
  unfold targetSlot
  rw [hfind]

/-- A call that leaves the names of the slots alone keeps the account. -/
theorem Accounted.congr (hs : Accounted s) {after : Segment} (hflag : after.initFlag ≠ 0)
    (hname : after.appName = (initialized s.seg).appName) : Accounted { s with seg := after } := by
  have hsame := initialized_of_initFlag hflag
  constructor
  · intro i htaken
    rw [hsame, Taken, hname] at htaken
    rw [hsame, hname]
    exact hs.taken i htaken
  · intro i htaken
    rw [hsame, Taken, hname] at htaken
    exact hs.free i htaken
  · intro hmarker i hi
    rw [hsame, findApp_congr hname] at hi
    exact hs.marker hmarker i hi

theorem accounted_get (hs : Accounted s) (name : AppName) (data : PerAppData) :
    Accounted { s with seg := perform s.seg (.get name data) } := by
  have hflag := initialized_initFlag s.seg
  cases hfind : findApp name.1 (initialized s.seg) with
  | some i =>
      rw [perform, get_found hfind]
      refine hs.congr ?_ ?_
      · exact hflag
      · rfl
  | none =>
      rw [perform, get_absent hfind]
      exact hs.congr hflag rfl

theorem accounted_getAll (hs : Accounted s) (data : PerAppArray) :
    Accounted { s with seg := perform s.seg (.getAll data) } := by
  obtain ⟨written, after, hget, _, hflag, hname, _⟩ := getAll_collects s.seg data
  rw [perform, hget]
  exact hs.congr (hflag ▸ initialized_initFlag s.seg) hname

/-- A set that leaves slot `i` with its name and the others as they were accounts for all taken
slots, and for the free ones but `i`. -/
theorem Accounted.written (hs : Accounted s) {i : Fin perAppMaxCnt} {after : Segment}
    (hflag : after.initFlag ≠ 0) (hstr : (after.appName i).str = name.1)
    (hother : ∀ j ≠ i, after.appName j = (initialized s.seg).appName j) :
    (∀ j, Taken (initialized after) j →
        ∃ stored ∈ Function.update s.storedBy i (some name) j,
          stored ∈ name :: s.setNames ∧ stored.1 = ((initialized after).appName j).str) ∧
      ∀ j ≠ i, ¬Taken (initialized after) j →
        ∀ stored ∈ Function.update s.storedBy i (some name) j,
          stored = markerName ∧ stored ∈ name :: s.setNames := by
  rw [initialized_of_initFlag hflag]
  constructor
  · intro j htaken
    rcases eq_or_ne j i with rfl | hne
    · rw [Function.update_self]
      exact ⟨name, rfl, List.mem_cons_self, hstr.symm⟩
    · rw [Function.update_of_ne hne, hother j hne]
      rw [Taken, hother j hne] at htaken
      obtain ⟨stored, hstored, hset, hkey⟩ := hs.taken j htaken
      exact ⟨stored, hstored, List.mem_cons_of_mem name hset, hkey⟩
  · intro j hne htaken stored hstored
    rw [Taken, hother j hne] at htaken
    rw [Function.update_of_ne hne] at hstored
    obtain ⟨hmarker, hset⟩ := hs.free j htaken stored hstored
    exact ⟨hmarker, List.mem_cons_of_mem name hset⟩

/-- A set of a name that a slot carries: the marker, or a name set before. -/
theorem accounted_set_found (hs : Accounted s) {i : Fin perAppMaxCnt}
    (hfind : findApp name.1 (initialized s.seg) = some i) {after : Segment}
    (hflag : after.initFlag ≠ 0) (hname : after.appName = (initialized s.seg).appName) :
    Accounted ⟨after, name :: s.setNames, Function.update s.storedBy i (some name)⟩ := by
  have hsame := initialized_of_initFlag hflag
  have hstr := findApp_str hfind
  obtain ⟨htaken, hfree⟩ := hs.written hflag (hname ▸ hstr) fun j _ => congrFun hname j
  constructor
  · exact htaken
  · intro j hj stored hstored
    rcases eq_or_ne j i with rfl | hne
    · dsimp only at hstored
      rw [Function.update_self] at hstored
      cases hstored
      rw [hsame, Taken, hname] at hj
      exact ⟨Subtype.ext (hstr.symm.trans (not_not.mp hj)), List.mem_cons_self⟩
    · exact hfree j hne hj stored hstored
  · intro hmarker j hj
    rw [hsame, findApp_congr hname] at hj
    dsimp only
    rcases eq_or_ne name markerName with rfl | hname_ne
    · -- the marker's own scan is the scan for a free slot
      cases hfind.symm.trans hj
      rw [Function.update_self]
    · have hne : j ≠ i := by
        rintro rfl
        exact hname_ne (Subtype.ext (hstr.symm.trans (findApp_str hj)))
      rw [Function.update_of_ne hne]
      exact hs.marker ((List.mem_cons.mp hmarker).resolve_left (Ne.symm hname_ne)) j hj

/-- While a slot is free the marker is found. -/
theorem ne_markerName {seg : Segment} {i : Fin perAppMaxCnt} (hnone : findApp name.1 seg = none)
    (hfree : findApp emptyAppName seg = some i) : name ≠ markerName := by
  rintro rfl
  have hsome : findApp markerName.1 seg = some i := hfree
  rw [hnone] at hsome
  cases hsome

/-- A set of a new name into the first free slot, no set of the marker having come before. -/
theorem accounted_set_free (hs : Accounted s) {i : Fin perAppMaxCnt}
    (hnone : findApp name.1 (initialized s.seg) = none)
    (hfree : findApp emptyAppName (initialized s.seg) = some i)
    (hmarker : markerName ∉ s.setNames) {after : Segment} (hflag : after.initFlag ≠ 0)
    (hname : after.appName = Function.update (initialized s.seg).appName i
      (((initialized s.seg).appName i).strcpy name.1)) :
    Accounted ⟨after, name :: s.setNames, Function.update s.storedBy i (some name)⟩ := by
  have hname_ne := ne_markerName hnone hfree
  have hstr : (after.appName i).str = name.1 := by
    rw [hname, Function.update_self, str_strcpy_appName]
  have hother : ∀ j ≠ i, after.appName j = (initialized s.seg).appName j := fun j hne => by
    rw [hname, Function.update_of_ne hne]
  obtain ⟨htaken, hothers⟩ := hs.written hflag hstr hother
  constructor
  · exact htaken
  · intro j hj
    have hne : j ≠ i := by
      rintro rfl
      refine hj ?_
      rw [initialized_of_initFlag hflag, Taken, hstr]
      exact fun heq => hname_ne (Subtype.ext heq)
    exact hothers j hne hj
  · intro hafter
    rcases List.mem_cons.mp hafter with heq | hbefore
    · exact absurd heq.symm hname_ne
    · exact absurd hbefore hmarker

/-- A set that finds no slot only adds its name to those used. -/
theorem accounted_set_full (hs : Accounted s)
    (hfull : findApp emptyAppName (initialized s.seg) = none) :
    Accounted ⟨initialized s.seg, name :: s.setNames, s.storedBy⟩ := by
  have hsame := initialized_of_initFlag (initialized_initFlag s.seg)
  constructor
  · intro i htaken
    rw [hsame] at htaken ⊢
    obtain ⟨stored, hstored, hset, hkey⟩ := hs.taken i htaken
    exact ⟨stored, hstored, List.mem_cons_of_mem name hset, hkey⟩
  · intro i htaken
    rw [hsame] at htaken
    exact absurd (findApp_eq_none_iff.mp hfull i) htaken
  · intro _ i hi
    rw [hsame] at hi
    cases hfull.symm.trans hi

/-- Every call in the right order keeps the account. -/
theorem accounted_step (hs : Accounted s) {call : Call} (horder : MarkerOrder s call)
    {next : Traced} (hstep : step s call = some next) : Accounted next := by
  cases call with
  | get name data =>
      rw [← Option.some.inj hstep]
      exact accounted_get hs name data
  | getAll data =>
      rw [← Option.some.inj hstep]
      exact accounted_getAll hs data
  | set name data =>
      have hflag := initialized_initFlag s.seg
      rw [← Option.some.inj hstep]
      cases hfind : findApp name.1 (initialized s.seg) with
      | some i =>
          simp only [targetSlot_some hfind, perform, set_found hfind]
          refine accounted_set_found hs hfind ?_ ?_
          · exact hflag
          · rfl
      | none =>
          cases hfree : findApp emptyAppName (initialized s.seg) with
          | some i =>
              have hmarker := horder hfind (by rw [hfree]; rfl)
              simp only [targetSlot_none hfind, hfree, perform, set_free hfind hfree]
              refine accounted_set_free hs hfind hfree hmarker ?_ ?_
              · exact hflag
              · rfl
          | none =>
              simp only [targetSlot_none hfind, hfree, perform, set_full hfind hfree]
              exact accounted_set_full hs hfree

theorem keptApart_get_iff (hs : Accounted s) (name : AppName) (data : PerAppData) :
    KeptApart s (.get name data) ↔ MarkerOrder s (.get name data) := by
  simp only [KeptApart, MarkerOrder]
  cases hfind : findApp name.1 (initialized s.seg) with
  | none =>
      rw [get_absent hfind]
      refine iff_of_true (fun htrue => ?_) (fun heq hfree => ?_)
      · exact absurd htrue (show mdsShmFalse ≠ mdsShmTrue by decide)
      · obtain ⟨i, hi⟩ := Option.isSome_iff_exists.mp hfree
        exact absurd heq (ne_markerName hfind hi)
  | some i =>
      rw [get_found hfind]
      rcases eq_or_ne name markerName with rfl | hne
      · constructor
        · intro hset _ _
          exact hset rfl
        · intro horder _
          exact horder rfl (Option.isSome_iff_exists.mpr ⟨i, hfind⟩)
      · refine iff_of_true (fun _ => ?_) (fun heq => absurd heq hne)
        -- a slot with a name of its own was stored under it
        have htaken : Taken (initialized s.seg) i := by
          rw [Taken, findApp_str hfind]
          exact fun heq => hne (Subtype.ext heq)
        obtain ⟨stored, _, hset, hkey⟩ := hs.taken i htaken
        rwa [Subtype.ext (hkey.trans (findApp_str hfind))] at hset

theorem keptApart_set_iff (hs : Accounted s) (name : AppName) (data : PerAppData) :
    KeptApart s (.set name data) ↔ MarkerOrder s (.set name data) := by
  simp only [KeptApart, MarkerOrder]
  cases hfind : findApp name.1 (initialized s.seg) with
  | some i =>
      rw [targetSlot_some hfind]
      refine iff_of_true ?_ (fun hnone => by cases hnone)
      rintro _ ⟨⟩ stored hstored
      by_cases htaken : Taken (initialized s.seg) i
      · obtain ⟨owner, howner, _, hkey⟩ := hs.taken i htaken
        cases hstored.symm.trans howner
        exact Subtype.ext (hkey.trans (findApp_str hfind))
      · rw [(hs.free i htaken stored hstored).1]
        exact Subtype.ext ((not_not.mp htaken).symm.trans (findApp_str hfind))
  | none =>
      rw [targetSlot_none hfind]
      cases hfree : findApp emptyAppName (initialized s.seg) with
      | none => exact iff_of_true (fun i hi => by cases hi) (fun _ hsome => by cases hsome)
      | some i =>
          have hne := ne_markerName hfind hfree
          constructor
          · intro hkept _ _ hmarker
            exact hne (hkept i rfl markerName (hs.marker hmarker i hfree)).symm
          · rintro horder _ ⟨⟩ stored hstored
            have htaken : ¬ Taken (initialized s.seg) i := not_not.mpr (findApp_str hfree)
            obtain ⟨rfl, hset⟩ := hs.free i htaken stored hstored
            exact absurd hset (horder rfl rfl)

/-- The marker is never confused with data exactly when, while a slot is free, it is got
only after it has been set and no new name is set after it. -/
theorem keptApart_iff (calls : List Call) :
    EachStep step KeptApart Traced.boot calls ↔ EachStep step MarkerOrder Traced.boot calls := by
  refine (eachStep_iff_of_invariant Accounted ?_ ?_ accounted_boot).symm
  · intro s call next hs horder hstep
    exact accounted_step hs horder hstep
  · intro s call hs
    cases call with
    | set name data => exact (keptApart_set_iff hs name data).symm
    | get name data => exact (keptApart_get_iff hs name data).symm
    | getAll data => exact Iff.rfl

/-- A get of the marker succeeds before anything was set, and a record stored under the
marker is overwritten by the next new name. -/
theorem keptApart_violated :
    ¬ EachStep step KeptApart Traced.boot [.get markerName PerAppData.zero] ∧
      ¬ EachStep step KeptApart Traced.boot
        [.set markerName PerAppData.zero, .set ⟨[97], by decide⟩ PerAppData.zero] := by
  decide +kernel

end MdsFormal.Shm.FreeMarker
