import MdsFormal.Shm.PerAppMap

/-!
# What callers of the per-app shared memory see

The results of the three functions in a segment that stands for a map, and from
them what they are after any sequence of calls that leaves the marker alone.
-/

namespace MdsFormal.Shm.PerAppRefinement

open Library Library.SlotMap Library.SlotTable PerApp PerAppMap

/-- The results of every call in a segment, given by the map it stands for. -/
structure Refines (seg : Segment) (m : AppMap) : Prop where
  /-- No two slots carry the same name. -/
  unique : ∀ i j, Taken (initialized seg) i →
    ((initialized seg).appName i).str = ((initialized seg).appName j).str → i = j
  /-- A stored name is found, with its latest payload and its own name. -/
  get_stored : ∀ (name : AppName) (data : PerAppData) (stored : Payload),
    m.lookup name.1 = some stored →
      ∃ record, (appShmGetPerAppData true name (some data) seg).1 = mdsShmTrue ∧
        (appShmGetPerAppData true name (some data) seg).2.1 = some record ∧
        record.appId.str = name.1 ∧ payload record = stored
  /-- Any other name is not, and the caller's data stays as it is. -/
  get_missing : ∀ (name : AppName) (data : PerAppData), name.1 ≠ emptyAppName →
    m.lookup name.1 = none →
      (appShmGetPerAppData true name (some data) seg).1 = mdsShmFalse ∧
        (appShmGetPerAppData true name (some data) seg).2.1 = some data
  /-- A set of one name changes nothing for another. -/
  set_other : ∀ (name other : AppName) (data out : PerAppData), name.1 ≠ emptyAppName →
    other.1 ≠ emptyAppName → other ≠ name →
      (appShmGetPerAppData true other (some out) (perform seg (.set name data))).1 =
          (appShmGetPerAppData true other (some out) seg).1 ∧
        (appShmGetPerAppData true other (some out) (perform seg (.set name data))).2.1 =
          (appShmGetPerAppData true other (some out) seg).2.1
  /-- A set of a new name when every slot is taken changes nothing at all. -/
  set_full : ∀ (name : AppName) (data : PerAppData), name.1 ≠ emptyAppName →
    m.lookup name.1 = none → (∀ i, Taken (initialized seg) i) →
      perform seg (.set name data) = seg
  /-- All records are those of the stored names, each once and as a get delivers it. -/
  getAll : ∀ (data : PerAppArray) (out : PerAppData), ∃ (names : List AppName)
    (written : List PerAppData), names.Nodup ∧
      (∀ name : AppName, name ∈ names ↔ (m.lookup name.1).isSome) ∧
      (appShmGetPerAppDataAll true (some data.1) seg).1 = names.length ∧
      (appShmGetPerAppDataAll true (some data.1) seg).2.1 = some written ∧
      (written.take names.length).map some =
        names.map fun name => (appShmGetPerAppData true name (some out) seg).2.1

variable {seg : Segment} {m : AppMap} {name other : AppName} {i j : Fin perAppMaxCnt}

theorem slot_unique (hm : StandsFor seg m) (htaken : Taken (initialized seg) i)
    (hsame : ((initialized seg).appName i).str = ((initialized seg).appName j).str) : i = j :=
  hm.represents.unique i j _ ((slotKey_eq_some_iff htaken).mpr rfl)
    ((slotKey_eq_some_iff htaken).mpr hsame.symm)

/-- A slot that carries the name is the one found. -/
theorem findApp_eq (hm : StandsFor seg m) (hmarker : name.1 ≠ emptyAppName)
    (hname : ((initialized seg).appName i).str = name.1) :
    findApp name.1 (initialized seg) = some i := by
  refine firstSlot_eq_some_of_unique hname fun other hother => ?_
  refine (slot_unique hm ?_ (hname.trans hother.symm)).symm
  rw [Taken, hname]
  exact hmarker

/-- A name that is not stored is on no slot. -/
theorem findApp_missing (hm : StandsFor seg m) (hmarker : name.1 ≠ emptyAppName)
    (hmissing : m.lookup name.1 = none) : findApp name.1 (initialized seg) = none := by
  refine findApp_eq_none_iff.mpr fun i hname => ?_
  have hlookup := hm.represents.lookup_eq ((slotKey_eq_some_iff hmarker).mpr hname)
  rw [hmissing] at hlookup
  cases hlookup

theorem named_appId (hname : (seg.appName i).str = name.1) : (named seg i).appId.str = name.1 := by
  rw [named, hname]
  exact str_strcpy_appId _ name

theorem get_stored (hm : StandsFor seg m) (name : AppName) (data : PerAppData) {stored : Payload}
    (hstored : m.lookup name.1 = some stored) :
    ∃ record, (appShmGetPerAppData true name (some data) seg).1 = mdsShmTrue ∧
      (appShmGetPerAppData true name (some data) seg).2.1 = some record ∧
      record.appId.str = name.1 ∧ payload record = stored := by
  obtain ⟨i, hkey, hpayload⟩ := (hm.represents.lookup_iff name.1 stored).mp hstored
  have hmarker := slotKey_ne_marker hkey
  have hname := (slotKey_eq_some_iff hmarker).mp hkey
  rw [get_found (findApp_eq hm hmarker hname)]
  exact ⟨named (initialized seg) i, rfl, rfl, named_appId hname, hpayload⟩

/-- A get depends on the slot found and that slot's record. -/
theorem get_congr {after : Segment} (hflag : after.initFlag ≠ 0) (out : PerAppData)
    (hfind : findApp name.1 after = findApp name.1 (initialized seg))
    (hnamed : ∀ i ∈ findApp name.1 (initialized seg), named after i = named (initialized seg) i) :
    (appShmGetPerAppData true name (some out) after).1 =
        (appShmGetPerAppData true name (some out) seg).1 ∧
      (appShmGetPerAppData true name (some out) after).2.1 =
        (appShmGetPerAppData true name (some out) seg).2.1 := by
  have hsame := initialized_of_initFlag hflag
  cases hslot : findApp name.1 (initialized seg) with
  | none =>
      rw [hslot] at hfind
      rw [get_absent hslot, get_absent (hsame.symm ▸ hfind)]
      exact ⟨rfl, rfl⟩
  | some i =>
      rw [hslot] at hfind
      rw [get_found hslot, get_found (hsame.symm ▸ hfind), hsame, hnamed i hslot]
      exact ⟨rfl, rfl⟩

theorem set_other (hmarker : other.1 ≠ emptyAppName) (hne : other ≠ name)
    (data out : PerAppData) :
    (appShmGetPerAppData true other (some out) (perform seg (.set name data))).1 =
        (appShmGetPerAppData true other (some out) seg).1 ∧
      (appShmGetPerAppData true other (some out) (perform seg (.set name data))).2.1 =
        (appShmGetPerAppData true other (some out) seg).2.1 := by
  have hflag := initialized_initFlag seg
  have hkey : other.1 ≠ name.1 := fun heq => hne (Subtype.ext heq)
  cases hfind : findApp name.1 (initialized seg) with
  | some i =>
      rw [perform, set_found hfind]
      refine get_congr ?_ out ?_ fun j hj => ?_
      · exact hflag
      · exact findApp_congr rfl
      · -- the record written is not the other name's
        have hslot : j ≠ i := by
          rintro rfl
          exact hkey ((findApp_str hj).symm.trans (findApp_str hfind))
        simp only [named, Function.update_of_ne hslot]
  | none =>
      cases hfree : findApp emptyAppName (initialized seg) with
      | none =>
          rw [perform, set_full hfind hfree]
          refine get_congr ?_ out ?_ fun j _ => ?_
          · exact hflag
          · rfl
          · rfl
      | some i =>
          rw [perform, set_free hfind hfree]
          refine get_congr ?_ out ?_ fun j hj => ?_
          · exact hflag
          · -- the slot named was not the other name's before, nor is it now
            refine firstSlot_congr fun j => ?_
            dsimp only
            rcases eq_or_ne j i with rfl | hslot
            · rw [Function.update_self, str_strcpy_appName, findApp_str hfree]
              exact iff_of_false hkey.symm hmarker.symm
            · rw [Function.update_of_ne hslot]
          · have hslot : j ≠ i := by
              rintro rfl
              exact hmarker ((findApp_str hj).symm.trans (findApp_str hfree))
            simp only [named, Function.update_of_ne hslot]

/-- When every slot is taken the segment has been initialized already. -/
theorem initialized_of_taken (htaken : ∀ i, Taken (initialized seg) i) : initialized seg = seg := by
  unfold initialized at htaken ⊢
  split
  · rename_i hflag
    rw [if_pos hflag] at htaken
    exact absurd (str_strcpy_appName _ ⟨emptyAppName, by decide, by decide⟩)
      (htaken ⟨0, by decide⟩)
  · rfl

theorem set_unstored (hm : StandsFor seg m) (hmarker : name.1 ≠ emptyAppName) (data : PerAppData)
    (hmissing : m.lookup name.1 = none) (htaken : ∀ i, Taken (initialized seg) i) :
    perform seg (.set name data) = seg := by
  rw [perform, set_full (findApp_missing hm hmarker hmissing) (findApp_eq_none_iff.mpr htaken)]
  exact initialized_of_taken htaken

/-- Every taken slot carries a name that a caller can ask for. -/
theorem exists_nameOf (hm : StandsFor seg m) :
    ∃ nameOf : Fin perAppMaxCnt → AppName, ∀ i, Taken (initialized seg) i →
      ((initialized seg).appName i).str = (nameOf i).1 := by
  have heach : ∀ i, ∃ name : AppName, Taken (initialized seg) i →
      ((initialized seg).appName i).str = name.1 := by
    intro i
    by_cases htaken : Taken (initialized seg) i
    · obtain ⟨name, hname⟩ := hm.valid i _ ((slotKey_eq_some_iff htaken).mpr rfl)
      exact ⟨name, fun _ => hname.symm⟩
    · exact ⟨⟨[], by decide, by decide⟩, fun h => absurd h htaken⟩
  choose nameOf hname using heach
  exact ⟨nameOf, hname⟩

/-- A name is stored exactly when a taken slot carries it. -/
theorem mem_takenNames_iff (hm : StandsFor seg m) {nameOf : Fin perAppMaxCnt → AppName}
    (hname : ∀ i, Taken (initialized seg) i → ((initialized seg).appName i).str = (nameOf i).1)
    (name : AppName) :
    name ∈ (takenSlots (initialized seg)).map nameOf ↔ (m.lookup name.1).isSome := by
  rw [List.mem_map]
  constructor
  · rintro ⟨i, hi, rfl⟩
    have htaken : Taken (initialized seg) i := of_decide_eq_true (List.mem_filter.mp hi).2
    have hkey := (slotKey_eq_some_iff htaken).mpr rfl
    rw [hname i htaken] at hkey
    rw [hm.represents.lookup_eq hkey]
    rfl
  · intro hsome
    obtain ⟨stored, hstored⟩ := Option.isSome_iff_exists.mp hsome
    obtain ⟨i, hkey, _⟩ := (hm.represents.lookup_iff name.1 stored).mp hstored
    have hstr := (slotKey_eq_some_iff (slotKey_ne_marker hkey)).mp hkey
    have hi : Taken (initialized seg) i := by
      rw [Taken, hstr]
      exact slotKey_ne_marker hkey
    refine ⟨i, List.mem_filter.mpr ⟨List.mem_finRange i, decide_eq_true hi⟩, ?_⟩
    exact Subtype.ext ((hname i hi).symm.trans hstr)

theorem getAll_stored (hm : StandsFor seg m) (data : PerAppArray) (out : PerAppData) :
    ∃ (names : List AppName) (written : List PerAppData), names.Nodup ∧
      (∀ name : AppName, name ∈ names ↔ (m.lookup name.1).isSome) ∧
      (appShmGetPerAppDataAll true (some data.1) seg).1 = names.length ∧
      (appShmGetPerAppDataAll true (some data.1) seg).2.1 = some written ∧
      (written.take names.length).map some =
        names.map fun name => (appShmGetPerAppData true name (some out) seg).2.1 := by
  obtain ⟨nameOf, hname⟩ := exists_nameOf hm
  obtain ⟨written, after, hget, hwritten, _⟩ := getAll_collects seg data
  have htaken : ∀ i ∈ takenSlots (initialized seg), Taken (initialized seg) i := fun i hi =>
    of_decide_eq_true (List.mem_filter.mp hi).2
  refine ⟨(takenSlots (initialized seg)).map nameOf, written, ?_,
    mem_takenNames_iff hm hname, ?_, ?_, ?_⟩
  · refine List.Nodup.map_on ?_ ((List.nodup_finRange _).filter _)
    intro i hi j hj heq
    refine slot_unique hm (htaken i hi) ?_
    rw [hname i (htaken i hi), hname j (htaken j hj), heq]
  · rw [hget, List.length_map]
  · rw [hget]
  · rw [List.length_map, hwritten, List.map_map, List.map_map]
    refine List.map_congr_left fun i hi => ?_
    have hstr := hname i (htaken i hi)
    have hmarker : (nameOf i).1 ≠ emptyAppName := hstr ▸ htaken i hi
    change some (named (initialized seg) i) = (appShmGetPerAppData true (nameOf i) _ seg).2.1
    rw [get_found (findApp_eq hm hmarker hstr)]

theorem refines_of_standsFor (hm : StandsFor seg m) : Refines seg m := by
  constructor
  · intro i j htaken hsame
    exact slot_unique hm htaken hsame
  · intro name data stored hstored
    exact get_stored hm name data hstored
  · intro name data hmarker hmissing
    rw [get_absent (findApp_missing hm hmarker hmissing)]
    exact ⟨rfl, rfl⟩
  · intro name other data out _ hmarker hne
    exact set_other hmarker hne data out
  · intro name data hmarker hmissing htaken
    exact set_unstored hm hmarker data hmissing htaken
  · intro data out
    exact getAll_stored hm data out

/-- After any calls that leave the marker alone, the segment behaves as the bounded map
after the same calls, which holds what the latest set that found a slot stored. -/
theorem perApp_refines_map (calls : List Call) (hcalls : ∀ call ∈ calls, call.Unmarked) :
    Refines (calls.foldl perform Segment.zero) (calls.foldl mapStep BoundedMap.empty) ∧
      ∀ name : AppName, (calls.foldl mapStep BoundedMap.empty).lookup name.1 =
        lastStored name Segment.zero none calls := by
  constructor
  · exact refines_of_standsFor (standsFor_run standsFor_zero hcalls)
  · intro name
    have hlookup := lookup_run standsFor_zero hcalls name
    rwa [BoundedMap.lookup_empty] at hlookup

/-- Two applications, the first of which is stored twice. -/
def storedTwice : List Call :=
  [.set ⟨[97], by decide⟩ ⟨.zero 128, 1, .zero 1024⟩,
    .set ⟨[98], by decide⟩ ⟨.zero 128, 2, .zero 1024⟩,
    .set ⟨[97], by decide⟩ ⟨.zero 128, 3, .zero 1024⟩]

theorem perApp_refines_map_storedTwice :
    Refines (storedTwice.foldl perform Segment.zero)
        (storedTwice.foldl mapStep BoundedMap.empty) ∧
      ∀ name : AppName, (storedTwice.foldl mapStep BoundedMap.empty).lookup name.1 =
        lastStored name Segment.zero none storedTwice :=
  perApp_refines_map storedTwice (by decide)

end MdsFormal.Shm.PerAppRefinement
