import MdsFormal.Gpio.GpioEvt

/-!
# What the GPIO monitor reports of each pin

The monitor is started once.  The calls for a pin are then the changes between the values
that were read from it one after the other, less those its edge type does not select.
-/

namespace MdsFormal.Gpio.EdgeReports

open MdsFormal.Library.LabelledRun
open MdsFormal.Gpio.GpioEvt

/-! ## The edges of one pin -/

/-- `GPIO_EVT_LEVEL_LOW` and `GPIO_EVT_LEVEL_HIGH` -/
def IsLevel (value : Int) : Prop := value = 0 ∨ value = 1

instance decidableIsLevel (value : Int) : Decidable (IsLevel value) :=
  inferInstanceAs (Decidable (_ ∨ _))

/-- Consecutive values that differ, with the level before the first one. -/
def changes (before : Int) (values : List Int) : List (Int × Int) :=
  ((before :: values).zip values).filter fun change => change.1 ≠ change.2

/-- The event a change stands for. -/
def event (gpioNum : Int) (change : Int × Int) : EvtInfo :=
  ⟨gpioNum, change.2, if change = (0, 1) then .rising else .falling⟩

/-- The edges that a pin with this `evt_type` asks for. -/
def selects (evtType : GpioEdge) (evt : EvtInfo) : Bool :=
  evtType = evt.evtType ∨ evtType = .both

/-- The changes of the pin from a level on, as the calls that its `evt_type` leaves of them. -/
def edgesFrom (pin : EvtInfo) (before : Int) (values : List Int) : List EvtInfo :=
  ((changes before values).map (event pin.gpioNum)).filter (selects pin.evtType)

variable {pin : EvtInfo} {before : Int}

theorem edgesFrom_cons (pin : EvtInfo) (before value : Int) (values : List Int) :
    edgesFrom pin before (value :: values) =
      edgesFrom pin before [value] ++ edgesFrom pin value values := by
  have hchanges : changes before (value :: values) =
      changes before [value] ++ changes value values := by
    unfold changes
    rw [List.zip_cons_cons, List.zip_cons_cons, List.zip_nil_right, ← List.filter_append,
      List.singleton_append]
  unfold edgesFrom
  rw [hchanges, List.map_append, List.filter_append]

theorem edgesFrom_toList_append (pin : EvtInfo) (before : Int) (value : Option Int)
    (values : List Int) :
    edgesFrom pin before (value.toList ++ values) =
      edgesFrom pin before value.toList ++ edgesFrom pin (value.getD before) values := by
  cases value with
  | none => rfl
  | some value => exact edgesFrom_cons pin before value values

/-- The two tests of the monitor are the one change from the last level. -/
theorem map_evt_edgeReports (gpioEvtProc : Bool) (slot : Option Descriptor) {entry : Entry}
    {cur : Int} (hlast : IsLevel entry.lastVal) (hcur : IsLevel cur)
    (hne : entry.lastVal ≠ cur) :
    (edgeReports gpioEvtProc slot entry cur).map Report.evt =
      if gpioEvtProc = true then edgesFrom entry.info entry.lastVal [cur] else [] := by
  obtain ⟨⟨gpioNum, gpioVal, evtType⟩, lastVal⟩ := entry
  change IsLevel lastVal at hlast
  change lastVal ≠ cur at hne
  rcases hlast with rfl | rfl
  · rcases hcur with rfl | rfl
    · exact absurd rfl hne
    · cases gpioEvtProc <;> cases evtType <;> rfl
  · rcases hcur with rfl | rfl
    · cases gpioEvtProc <;> cases evtType <;> rfl
    · exact absurd rfl hne

theorem edgesFrom_same (pin : EvtInfo) (value : Int) : edgesFrom pin value [value] = [] := by
  simp [edgesFrom, changes]

/-! ## What is read -/

/-- The value read from the i-th pin in an iteration, if any: nothing after a poll that found
nothing; else the first iteration reads all pins, the others those with `POLLPRI`. -/
def valueRead (fd : Option Nat) (i : Nat) (first : Bool) (answers : Answers) : Option Int :=
  if answers.rc ≤ 0 then none
  else if fd.isSome ∧ (first ∨ answers.pollPri i) then answers.reading i
  else none

/-- The values read from the i-th pin, one after the other. -/
def valuesRead (fd : Option Nat) (i : Nat) : Bool → List Answers → List Int
  | _, [] => []
  | first, answers :: rest =>
      (valueRead fd i first answers).toList ++ valuesRead fd i false rest

section

variable {gpioEvtProc : Bool} {gpioFd : List Descriptor} {timeout : Int} {answers : Answers}
  {i : Nat} {entry : Entry} {d : Descriptor}

theorem valueRead_eq (hrc : ¬answers.rc ≤ 0) (d : Descriptor) (i : Nat) (timeout : Int) :
    valueRead d.fd i (timeout = 0) answers =
      if pri (some d) (answers.pollPri i) = true ∨ timeout = 0 then
        readValue (some d) (answers.reading i) else none := by
  obtain ⟨gpio, fd⟩ := d
  rw [valueRead, if_neg hrc]
  cases fd with
  | none =>
      rw [if_neg (fun h => nomatch h.1)]
      split <;> rfl
  | some fd =>
      have htest : ((some fd).isSome = true ∧
          (decide (timeout = 0) = true ∨ answers.pollPri i = true)) ↔
            (answers.pollPri i = true ∨ timeout = 0) := by
        rw [decide_eq_true_iff, or_comm]
        exact and_iff_right rfl
      change (if (some fd).isSome = true ∧
          (decide (timeout = 0) = true ∨ answers.pollPri i = true) then _ else _) =
        if answers.pollPri i = true ∨ timeout = 0 then answers.reading i else none
      simp only [htest]

/-- What is read becomes the last level, and is reported if it is an edge that is selected. -/
theorem visitRead_spec {slot : Option Descriptor} {reading value : Option Int}
    (hvalue : readValue slot reading = value) (hlast : IsLevel entry.lastVal)
    (hlevel : ∀ cur ∈ value, IsLevel cur) :
    (visitRead gpioEvtProc slot entry reading).entry =
        { entry with lastVal := value.getD entry.lastVal } ∧
      (visitRead gpioEvtProc slot entry reading).reported.map Report.evt =
        if gpioEvtProc = true then edgesFrom entry.info entry.lastVal value.toList else [] := by
  rw [visitRead, hvalue]
  cases value with
  | none => exact ⟨rfl, (ite_self []).symm⟩
  | some cur =>
      by_cases hsame : entry.lastVal = cur
      · subst hsame
        dsimp only
        rw [if_pos rfl, Option.toList_some, edgesFrom_same]
        exact ⟨rfl, (ite_self []).symm⟩
      · dsimp only
        rw [if_neg hsame]
        exact ⟨rfl, map_evt_edgeReports gpioEvtProc slot hlast (hlevel cur rfl) hsame⟩

/-- The same for a turn of the loop over the table. -/
theorem visit_spec (hrc : ¬answers.rc ≤ 0) (hslot : gpioFd[i]? = some d)
    (hlast : IsLevel entry.lastVal)
    (hlevel : ∀ cur ∈ valueRead d.fd i (timeout = 0) answers, IsLevel cur) :
    (visit gpioEvtProc gpioFd timeout answers i entry).entry =
        { entry with
          lastVal := (valueRead d.fd i (timeout = 0) answers).getD entry.lastVal } ∧
      (visit gpioEvtProc gpioFd timeout answers i entry).reported.map Report.evt =
        if gpioEvtProc = true then
          edgesFrom entry.info entry.lastVal
            (valueRead d.fd i (timeout = 0) answers).toList
        else [] := by
  rw [valueRead_eq hrc] at hlevel ⊢
  rw [visit, hslot]
  by_cases hread : pri (some d) (answers.pollPri i) = true ∨ timeout = 0
  · rw [if_pos hread] at hlevel ⊢
    rw [if_pos hread]
    exact visitRead_spec rfl hlast hlevel
  · rw [if_neg hread, if_neg hread]
    exact ⟨rfl, (ite_self []).symm⟩

end

/-! ## One pin among the others -/

theorem map_mapIdx {α β γ : Type} (f : β → γ) (g : Nat → α → β) (xs : List α) :
    (xs.mapIdx g).map f = xs.mapIdx fun i x => f (g i x) := by
  rw [List.mapIdx_eq_zipIdx_map, List.mapIdx_eq_zipIdx_map, List.map_map]
  rfl

/-- Of blocks with different keys, the elements with the key of one block are that block. -/
theorem filter_flatten_of_nodup {β κ : Type} [DecidableEq κ] (key : β → κ)
    {blocks : List (κ × List β)} (hnodup : (blocks.map Prod.fst).Nodup)
    (hkey : ∀ block ∈ blocks, ∀ x ∈ block.2, key x = block.1) {block : κ × List β}
    (hmem : block ∈ blocks) :
    (blocks.flatMap Prod.snd).filter (fun x => key x = block.1) = block.2 := by
  induction blocks with
  | nil => cases hmem
  | cons first others ih =>
      rw [List.map_cons, List.nodup_cons] at hnodup
      have hothers := fun other hother => hkey other (List.mem_cons_of_mem _ hother)
      rw [List.flatMap_cons, List.filter_append]
      rcases List.mem_cons.mp hmem with rfl | hmem
      · have hfirst : block.2.filter (fun x => key x = block.1) = block.2 :=
          List.filter_eq_self.mpr fun x hx =>
            decide_eq_true (hkey block List.mem_cons_self x hx)
        have hrest : (others.flatMap Prod.snd).filter (fun x => key x = block.1) = [] := by
          refine List.filter_eq_nil_iff.mpr fun x hx => ?_
          obtain ⟨other, hother, hx⟩ := List.mem_flatMap.mp hx
          rw [hothers other hother x hx, decide_eq_true_iff]
          intro heq
          exact hnodup.1 (heq ▸ List.mem_map_of_mem hother)
        rw [hfirst, hrest, List.append_nil]
      · have hfirst : first.2.filter (fun x => key x = block.1) = [] := by
          refine List.filter_eq_nil_iff.mpr fun x hx => ?_
          rw [hkey first List.mem_cons_self x hx, decide_eq_true_iff]
          intro heq
          exact hnodup.1 (heq ▸ List.mem_map_of_mem hmem)
        rw [hfirst, List.nil_append, ih hnodup.2 hothers hmem]

/-- The calls of `g_gpio_evt_proc` so far. -/
def calls (s : State) : List EvtInfo := s.observed.flatMap fun o => o.reported.map Report.evt

/-- Those for one pin. -/
def callsFor (gpioNum : Int) (s : State) : List EvtInfo :=
  (calls s).filter fun evt => evt.gpioNum = gpioNum

section

variable {s : State} {gpioFd : List Descriptor} {timeout : Int} {answers : Answers} {i : Nat}
  {entry : Entry} {d : Descriptor}

theorem callsFor_append (gpioNum : Int) (s : State) (o : Observation) (gpioMgr : List Entry)
    (thread : Thread) :
    callsFor gpioNum
        { s with gpioMgr := gpioMgr, thread := thread, observed := s.observed ++ [o] } =
      callsFor gpioNum s ++
        (o.reported.map Report.evt).filter fun evt => evt.gpioNum = gpioNum := by
  unfold callsFor calls
  rw [List.flatMap_append, List.flatMap_singleton, List.filter_append]

/-- In a table of different pins, the calls for the pin of an entry are those of its turn. -/
theorem reported_filter {gpioEvtProc : Bool} {gpioMgr : List Entry}
    (hnodup : (gpioMgr.map fun entry => entry.info.gpioNum).Nodup)
    (hentry : gpioMgr[i]? = some entry) :
    ((((gpioMgr.mapIdx (visit gpioEvtProc gpioFd timeout answers)).flatMap
        Visit.reported).map Report.evt).filter fun evt => evt.gpioNum = entry.info.gpioNum) =
      (visit gpioEvtProc gpioFd timeout answers i entry).reported.map Report.evt := by
  let block (j : Nat) (other : Entry) : Int × List EvtInfo :=
    (other.info.gpioNum,
      (visit gpioEvtProc gpioFd timeout answers j other).reported.map Report.evt)
  have hflat : ((gpioMgr.mapIdx (visit gpioEvtProc gpioFd timeout answers)).flatMap
      Visit.reported).map Report.evt = (gpioMgr.mapIdx block).flatMap Prod.snd := by
    rw [List.map_flatMap, List.flatMap_def, List.flatMap_def, map_mapIdx, map_mapIdx]
  have hkeys : ((gpioMgr.mapIdx block).map Prod.fst).Nodup := by
    have hnums : (gpioMgr.mapIdx block).map Prod.fst =
        gpioMgr.map fun other => other.info.gpioNum := by
      apply List.ext_getElem?
      intro j
      rw [map_mapIdx, List.getElem?_mapIdx, List.getElem?_map]
    exact hnums ▸ hnodup
  have hmem : block i entry ∈ gpioMgr.mapIdx block := by
    refine List.mem_iff_getElem?.mpr ⟨i, ?_⟩
    rw [List.getElem?_mapIdx, hentry]
    rfl
  rw [hflat]
  refine filter_flatten_of_nodup EvtInfo.gpioNum hkeys ?_ hmem
  intro other hother evt hevt
  obtain ⟨j, hj, rfl⟩ := List.mem_mapIdx.mp hother
  obtain ⟨report, hreport, rfl⟩ := List.mem_map.mp hevt
  exact (mem_visit_reported hreport).2.1

/-- Every value that is read is a level. -/
def ReadsLevels (answers : Answers) : Prop :=
  ∀ i value, answers.reading i = some value → IsLevel value

theorem isLevel_valueRead (hreads : ReadsLevels answers) {fd : Option Nat} {first : Bool} :
    ∀ cur ∈ valueRead fd i first answers, IsLevel cur := by
  intro cur hcur
  rw [valueRead] at hcur
  split at hcur
  · cases hcur
  · split at hcur
    · exact hreads i cur hcur
    · cases hcur

/-- What an iteration does to one entry, and the calls it makes for its pin. -/
theorem iterate_spec (hnodup : (s.gpioMgr.map fun entry => entry.info.gpioNum).Nodup)
    (hentry : s.gpioMgr[i]? = some entry) (hslot : gpioFd[i]? = some d)
    (hlast : IsLevel entry.lastVal) (hreads : ReadsLevels answers) :
    (iterate s gpioFd timeout answers).gpioMgr[i]? = some
        { entry with
          lastVal := (valueRead d.fd i (timeout = 0) answers).getD entry.lastVal } ∧
      callsFor entry.info.gpioNum (iterate s gpioFd timeout answers) =
        callsFor entry.info.gpioNum s ++
          if s.gpioEvtProc = true then
            edgesFrom entry.info entry.lastVal
              (valueRead d.fd i (timeout = 0) answers).toList
          else [] := by
  unfold iterate
  dsimp only
  by_cases hrc : answers.rc ≤ 0
  · have hnone : valueRead d.fd i (timeout = 0) answers = none := by
      rw [valueRead, if_pos hrc]
    rw [if_pos hrc, hnone]
    refine ⟨hentry, ?_⟩
    rw [callsFor_append entry.info.gpioNum s]
    exact congrArg _ (ite_self []).symm
  · obtain ⟨hnext, hcalls⟩ := @visit_spec s.gpioEvtProc _ timeout _ i entry d hrc hslot hlast
      (isLevel_valueRead hreads)
    rw [if_neg hrc]
    refine ⟨?_, ?_⟩
    · rw [List.getElem?_map, List.getElem?_mapIdx, hentry]
      exact congrArg some hnext
    · rw [callsFor_append entry.info.gpioNum s, reported_filter hnodup hentry, hcalls]

end

/-! ## Runs -/

/-- While the monitor runs, each pin gets the edges of its own values. -/
theorem run_iterations {gpioFd : List Descriptor} (list : List Answers)
    (hreads : ∀ answers ∈ list, ReadsLevels answers) (s : State) (timeout : Int)
    (hthread : s.thread = .running gpioFd timeout)
    (hnodup : (s.gpioMgr.map fun entry => entry.info.gpioNum).Nodup) :
    ∃ final, run step s (iterations list) = some final ∧
      ∀ i entry d, s.gpioMgr[i]? = some entry → gpioFd[i]? = some d → IsLevel entry.lastVal →
        callsFor entry.info.gpioNum final = callsFor entry.info.gpioNum s ++
          if s.gpioEvtProc = true then
            edgesFrom entry.info entry.lastVal (valuesRead d.fd i (timeout = 0) list)
          else [] := by
  induction list generalizing s timeout with
  | nil =>
      refine ⟨s, rfl, fun i entry d _ _ _ => ?_⟩
      rw [valuesRead]
      exact (List.append_nil _).symm.trans (congrArg _ (ite_self []).symm)
  | cons answers rest ih =>
      have hhead := hreads answers List.mem_cons_self
      have hinfos := congrArg (List.map EvtInfo.gpioNum)
        (@map_info_iterate s gpioFd timeout answers)
      rw [List.map_map, List.map_map] at hinfos
      obtain ⟨final, hrun, hrest⟩ := ih
        (fun other hother => hreads other (List.mem_cons_of_mem _ hother))
        (iterate s gpioFd timeout answers) pollTimeout thread_iterate (hinfos ▸ hnodup)
      refine ⟨final, ?_, fun i entry d hentry hslot hlast => ?_⟩
      · rw [iterations, List.map_cons, run_iterate hthread]
        exact hrun
      · obtain ⟨hnext, hcalls⟩ :=
          @iterate_spec s gpioFd timeout answers i entry d hnodup hentry hslot hlast hhead
        have hlevel : IsLevel ((valueRead d.fd i (timeout = 0) answers).getD entry.lastVal) := by
          cases hvalue : valueRead d.fd i (timeout = 0) answers with
          | none => exact hlast
          | some cur => exact isLevel_valueRead hhead cur hvalue
        have hlater := hrest i _ d hnext hslot hlevel
        dsimp only at hlater
        rw [hlater, hcalls, gpioEvtProc_iterate, List.append_assoc, valuesRead,
          edgesFrom_toList_append]
        split
        · rfl
        · rfl

/-- The one start call, the beginning of the thread and its iterations. -/
def monitored (evtRet : Vector EvtInfo 5) (gpioEvtProc : Bool) (fd : Nat → Option Nat)
    (list : List Answers) : List Label :=
  .start evtRet gpioEvtProc :: .begin fd :: iterations list

/-- Different pins with initial levels. -/
structure IsConfig (evtRet : Vector EvtInfo 5) : Prop where
  different : ((evtList evtRet).map EvtInfo.gpioNum).Nodup
  levels : ∀ pin ∈ evtList evtRet, IsLevel pin.gpioVal

theorem run_monitored {evtRet : Vector EvtInfo 5} (hconfig : IsConfig evtRet) (gpioEvtProc : Bool)
    (fd : Nat → Option Nat) {list : List Answers}
    (hreads : ∀ answers ∈ list, ReadsLevels answers) :
    ∃ final, run step .init (monitored evtRet gpioEvtProc fd list) = some final ∧
      ∀ i pin, (evtList evtRet)[i]? = some pin →
        callsFor pin.gpioNum final =
          if gpioEvtProc = true then edgesFrom pin pin.gpioVal (valuesRead (fd i) i true list)
          else [] := by
  have hinfos := congrArg (List.map EvtInfo.gpioNum) (map_info_start evtRet)
  rw [List.map_map] at hinfos
  obtain ⟨final, hrun, hcalls⟩ := run_iterations list hreads
    { mdsApiGpioEvtStart .init evtRet gpioEvtProc with
      thread := .running (openAll fd (mdsApiGpioEvtStart .init evtRet gpioEvtProc).gpioMgr) 0 }
    0 rfl (hinfos ▸ hconfig.different)
  refine ⟨final, hrun, fun i pin hpin => ?_⟩
  have hentry : ((evtList evtRet).map fun evt => (⟨evt, evt.gpioVal⟩ : Entry))[i]? =
      some ⟨pin, pin.gpioVal⟩ := by
    rw [List.getElem?_map, hpin]
    rfl
  have hslot : (openAll fd ((evtList evtRet).map fun evt => ⟨evt, evt.gpioVal⟩))[i]? =
      some ⟨pin.gpioNum, fd i⟩ := by
    rw [openAll, List.getElem?_mapIdx, hentry]
    rfl
  exact hcalls i _ _ hentry hslot (hconfig.levels pin (List.mem_of_getElem? hpin))

/--
After one start, the calls for each pin are in order the changes between the values read
from it, from its configured level on and as its edge type selects them; and when other
answers give the pin the same values, its calls are the same whatever the other pins read.
-/
theorem run_reports_edges (evtRet : Vector EvtInfo 5) (gpioEvtProc : Bool)
    (fd : Nat → Option Nat) (list : List Answers) (hconfig : IsConfig evtRet)
    (hreads : ∀ answers ∈ list, ReadsLevels answers) :
    ∃ final, run step .init (monitored evtRet gpioEvtProc fd list) = some final ∧
      ∀ i pin, (evtList evtRet)[i]? = some pin →
        (callsFor pin.gpioNum final =
          if gpioEvtProc = true then edgesFrom pin pin.gpioVal (valuesRead (fd i) i true list)
          else []) ∧
        ∀ list', (∀ answers ∈ list', ReadsLevels answers) →
          valuesRead (fd i) i true list' = valuesRead (fd i) i true list →
          ∃ final', run step .init (monitored evtRet gpioEvtProc fd list') = some final' ∧
            callsFor pin.gpioNum final' = callsFor pin.gpioNum final := by
  obtain ⟨final, hrun, hcalls⟩ := run_monitored hconfig gpioEvtProc fd hreads
  refine ⟨final, hrun, fun i pin hpin => ⟨hcalls i pin hpin, fun list' hreads' hsame => ?_⟩⟩
  obtain ⟨final', hrun', hcalls'⟩ := run_monitored hconfig gpioEvtProc fd hreads'
  refine ⟨final', hrun', ?_⟩
  rw [hcalls i pin hpin, hcalls' i pin hpin, hsame]

/-- One pin for both edges, one for falling ones. -/
def twoPins : Vector EvtInfo 5 :=
  #v[⟨5, 0, .both⟩, ⟨6, 1, .falling⟩, ⟨-1, 0, .none⟩, ⟨-1, 0, .none⟩, ⟨-1, 0, .none⟩]

/-- The pins go up, and one of them down again. -/
theorem run_reports_edges_two_pins :
    ∃ final, run step .init (monitored twoPins true (fun i => some i)
        [level 1, quiet, ⟨1, fun i => i = 1, fun _ => some 0⟩]) = some final ∧
      callsFor 5 final = [⟨5, 1, .rising⟩] ∧ callsFor 6 final = [⟨6, 0, .falling⟩] := by
  have hconfig : IsConfig twoPins := ⟨by decide, by decide⟩
  have hreads : ∀ answers ∈ [level 1, quiet, ⟨1, fun i => i = 1, fun _ => some 0⟩],
      ReadsLevels answers := by
    intro answers hanswers i value hvalue
    rcases List.mem_cons.mp hanswers with rfl | hanswers
    · cases hvalue
      exact Or.inr rfl
    · rcases List.mem_cons.mp hanswers with rfl | hanswers
      · cases hvalue
      · cases List.mem_singleton.mp hanswers
        cases hvalue
        exact Or.inl rfl
  obtain ⟨final, hrun, hcalls⟩ := run_reports_edges twoPins true (fun i => some i)
    [level 1, quiet, ⟨1, fun i => i = 1, fun _ => some 0⟩] hconfig hreads
  exact ⟨final, hrun, (hcalls 0 ⟨5, 0, .both⟩ rfl).1, (hcalls 1 ⟨6, 1, .falling⟩ rfl).1⟩

end MdsFormal.Gpio.EdgeReports
