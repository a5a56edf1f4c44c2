import MdsFormal.Library.LabelledRun

/-!
# The GPIO monitor

`mds_api_gpio_evt_start` writes the global table of pins and starts the monitor
thread once.  The thread opens a descriptor for each pin that the table has when
it begins, and in each iteration polls and reads its descriptors as the entries
that the table has then.
-/

namespace MdsFormal.Gpio.GpioEvt

open MdsFormal.Library.LabelledRun

/-! ## The state -/

/-- `gpioEdge_t` -/
inductive GpioEdge where
  | none
  | rising
  | falling
  | both
  deriving DecidableEq

/-- `GPIP_EVT_INFO_T` -/
structure EvtInfo where
  gpioNum : Int
  gpioVal : Int
  evtType : GpioEdge
  deriving DecidableEq

/-- `gpio_info[i]` and `gpio_last_val[i]`. -/
structure Entry where
  info : EvtInfo
  lastVal : Int
  deriving DecidableEq

/-- What the thread has got from `_get_gpio_val_fd` for a pin; no `fd` stands for -1. -/
structure Descriptor where
  gpio : Int
  fd : Option Nat
  deriving DecidableEq

/-- A call of `g_gpio_evt_proc`, and where the value it reports was read. -/
structure Report where
  evt : EvtInfo
  source : Option Descriptor
  deriving DecidableEq

/-- What an iteration does with the entries of `gpio_fd`; one that was never written is
`none`. -/
structure Observation where
  polled : List (Option Descriptor)
  read : List (Option Descriptor)
  reported : List Report
  deriving DecidableEq

inductive Thread where
  | none
  | created
  /-- with `gpio_fd` as far as it was written, and `timeout` -/
  | running (gpioFd : List Descriptor) (timeout : Int)
  deriving DecidableEq

/-- The globals, the locals of the thread, and what its iterations have done. -/
structure State where
  /-- `gpio_mgr` up to `gpio_mgr_cnt` -/
  gpioMgr : List Entry
  /-- whether `g_gpio_evt_proc` is set -/
  gpioEvtProc : Bool
  thread : Thread
  observed : List Observation
  deriving DecidableEq

def State.init : State := ⟨[], false, .none, []⟩

/-! ## Starting -/

/-- The entries that `mds_api_gpio_evt_start` copies: up to a pin of -1, or all. -/
def evtList (evtRet : Vector EvtInfo 5) : List EvtInfo :=
  evtRet.toList.takeWhile (·.gpioNum ≠ -1)

def Thread.start : Thread → Thread
  | .none => .created
  | .created => .created
  | .running gpioFd timeout => .running gpioFd timeout

def mdsApiGpioEvtStart (s : State) (evtRet : Vector EvtInfo 5) (gpioEvtProc : Bool) : State :=
  { s with
    gpioMgr := (evtList evtRet).map fun evt => ⟨evt, evt.gpioVal⟩
    gpioEvtProc := gpioEvtProc
    thread := s.thread.start }

/-- The first loop of the thread. -/
def openAll (fd : Nat → Option Nat) (gpioMgr : List Entry) : List Descriptor :=
  gpioMgr.mapIdx fun i entry => ⟨entry.info.gpioNum, fd i⟩

/-! ## One iteration -/

/-- What the system answers in one iteration. -/
structure Answers where
  rc : Int
  /-- whether `POLLPRI` is set in `revents` -/
  pollPri : Nat → Bool
  /-- the number that is read, if `read` returns any bytes -/
  reading : Nat → Option Int

/-- A descriptor of -1 is ignored by `poll`. -/
def pri (slot : Option Descriptor) (pollPri : Bool) : Bool :=
  match slot with
  | some ⟨_, none⟩ => false
  | _ => pollPri

/-- A descriptor of -1 is refused by `read`. -/
def readValue (slot : Option Descriptor) (reading : Option Int) : Option Int :=
  match slot with
  | some ⟨_, none⟩ => none
  | _ => reading

/-- What an iteration does with one entry of the table. -/
structure Visit where
  entry : Entry
  read : List (Option Descriptor)
  reported : List Report

/-- The two tests for an edge, each with the call behind it. -/
def edgeReports (gpioEvtProc : Bool) (slot : Option Descriptor) (entry : Entry) (cur : Int) :
    List Report :=
  (if entry.lastVal = 0 ∧ cur = 1 ∧
      (entry.info.evtType = .rising ∨ entry.info.evtType = .both) ∧ gpioEvtProc = true then
    [⟨⟨entry.info.gpioNum, cur, .rising⟩, slot⟩] else []) ++
  (if entry.lastVal = 1 ∧ cur = 0 ∧
      (entry.info.evtType = .falling ∨ entry.info.evtType = .both) ∧ gpioEvtProc = true then
    [⟨⟨entry.info.gpioNum, cur, .falling⟩, slot⟩] else [])

/-- The entry after its descriptor was read. -/
def visitRead (gpioEvtProc : Bool) (slot : Option Descriptor) (entry : Entry)
    (reading : Option Int) : Visit :=
  match readValue slot reading with
  | none => ⟨entry, [slot], []⟩
  | some cur =>
      if entry.lastVal = cur then ⟨entry, [slot], []⟩
      else ⟨{ entry with lastVal := cur }, [slot], edgeReports gpioEvtProc slot entry cur⟩

/-- One turn of the loop over the table. -/
def visit (gpioEvtProc : Bool) (gpioFd : List Descriptor) (timeout : Int) (answers : Answers)
    (i : Nat) (entry : Entry) : Visit :=
  if pri gpioFd[i]? (answers.pollPri i) = true ∨ timeout = 0 then
    visitRead gpioEvtProc gpioFd[i]? entry (answers.reading i)
  else ⟨entry, [], []⟩

def pollTimeout : Int := 30 * 1000

/-- The entries that are handed to `poll`. -/
def polled (gpioFd : List Descriptor) (gpioMgr : List Entry) : List (Option Descriptor) :=
  gpioMgr.mapIdx fun i _ => gpioFd[i]?

/-- One turn of `while(_g_run_gpio_procfs_read_thread)`. -/
def iterate (s : State) (gpioFd : List Descriptor) (timeout : Int) (answers : Answers) : State :=
  let slots := polled gpioFd s.gpioMgr
  if answers.rc ≤ 0 then
    { s with
      thread := .running gpioFd pollTimeout
      observed := s.observed ++ [⟨slots, [], []⟩] }
  else
    let visits := s.gpioMgr.mapIdx (visit s.gpioEvtProc gpioFd timeout answers)
    { s with
      gpioMgr := visits.map Visit.entry
      thread := .running gpioFd pollTimeout
      observed := s.observed ++
        [⟨slots, visits.flatMap Visit.read, visits.flatMap Visit.reported⟩] }

inductive Label where
  | start (evtRet : Vector EvtInfo 5) (gpioEvtProc : Bool)
  /-- the thread begins; the answers of `_get_gpio_val_fd` -/
  | begin (fd : Nat → Option Nat)
  | iterate (answers : Answers)

def step (s : State) : Label → Option State
  | .start evtRet gpioEvtProc => some (mdsApiGpioEvtStart s evtRet gpioEvtProc)
  | .begin fd =>
      match s.thread with
      | .created => some { s with thread := .running (openAll fd s.gpioMgr) 0 }
      | _ => none
  | .iterate answers =>
      match s.thread with
      | .running gpioFd timeout => some (iterate s gpioFd timeout answers)
      | _ => none

/-! ## What is promised -/

/-- Only written descriptors are polled and read, and each call names the pin of the open
descriptor that its value was read from. -/
structure Observation.Faithful (o : Observation) : Prop where
  polled : ∀ slot ∈ o.polled, ∃ d, slot = some d
  read : ∀ slot ∈ o.read, ∃ d, slot = some d
  reported : ∀ report ∈ o.reported,
    ∃ d fd, report.source = some d ∧ d.fd = some fd ∧ d.gpio = report.evt.gpioNum

def Faithful (s : State) : Prop := ∀ o ∈ s.observed, o.Faithful

/-- Each pin has a descriptor, and it is the pin's own one if it can be reported. -/
structure Covered (gpioFd : List Descriptor) (gpioEvtProc : Bool) (pins : List EvtInfo) :
    Prop where
  length_le : pins.length ≤ gpioFd.length
  own : ∀ (i : Nat) (pin : EvtInfo) (d : Descriptor), pins[i]? = some pin → gpioFd[i]? = some d →
    gpioEvtProc = true → pin.evtType ≠ .none → d.fd ≠ none → d.gpio = pin.gpioNum

/-- A start after the thread has opened its descriptors is for pins that they cover. -/
def StartCovered (s : State) : Label → Prop
  | .start evtRet gpioEvtProc =>
      ∀ gpioFd timeout, s.thread = .running gpioFd timeout →
        Covered gpioFd gpioEvtProc (evtList evtRet)
  | .begin _ => True
  | .iterate _ => True

/-! ## One entry -/

section

variable {gpioEvtProc : Bool} {gpioFd : List Descriptor} {timeout : Int} {answers : Answers}
  {i : Nat} {entry : Entry} {slot : Option Descriptor} {reading : Option Int} {report : Report}

theorem readValue_of_closed {d : Descriptor} (hclosed : d.fd = none) :
    readValue (some d) reading = none := by
  obtain ⟨gpio, fd⟩ := d
  cases hclosed
  rfl

theorem mem_edgeReports {cur : Int}
    (hreport : report ∈ edgeReports gpioEvtProc slot entry cur) :
    report.source = slot ∧ report.evt.gpioNum = entry.info.gpioNum ∧ gpioEvtProc = true ∧
      entry.info.evtType ≠ .none := by
  rcases List.mem_append.mp hreport with hrising | hfalling
  · split at hrising
    · next hedge =>
        cases List.mem_singleton.mp hrising
        refine ⟨rfl, rfl, hedge.2.2.2, fun hnone => ?_⟩
        rw [hnone] at hedge
        rcases hedge.2.2.1 with htype | htype
        · cases htype
        · cases htype
    · cases hrising
  · split at hfalling
    · next hedge =>
        cases List.mem_singleton.mp hfalling
        refine ⟨rfl, rfl, hedge.2.2.2, fun hnone => ?_⟩
        rw [hnone] at hedge
        rcases hedge.2.2.1 with htype | htype
        · cases htype
        · cases htype
    · cases hfalling

theorem visitRead_entry_info :
    (visitRead gpioEvtProc slot entry reading).entry.info = entry.info := by
  rw [visitRead]
  split
  · rfl
  · split
    · rfl
    · rfl

theorem visitRead_read : (visitRead gpioEvtProc slot entry reading).read = [slot] := by
  rw [visitRead]
  split
  · rfl
  · split
    · rfl
    · rfl

theorem mem_visitRead_reported
    (hreport : report ∈ (visitRead gpioEvtProc slot entry reading).reported) :
    (∃ cur, readValue slot reading = some cur) ∧ report.source = slot ∧
      report.evt.gpioNum = entry.info.gpioNum ∧ gpioEvtProc = true ∧
      entry.info.evtType ≠ .none := by
  rw [visitRead] at hreport
  split at hreport
  · cases hreport
  · next cur hcur =>
      split at hreport
      · cases hreport
      · exact ⟨⟨cur, hcur⟩, mem_edgeReports hreport⟩

theorem visit_entry_info :
    (visit gpioEvtProc gpioFd timeout answers i entry).entry.info = entry.info := by
  rw [visit]
  split
  · exact visitRead_entry_info
  · rfl

theorem mem_visit_read
    (hslot : slot ∈ (visit gpioEvtProc gpioFd timeout answers i entry).read) :
    slot = gpioFd[i]? := by
  rw [visit] at hslot
  split at hslot
  · rw [visitRead_read] at hslot
    exact List.mem_singleton.mp hslot
  · cases hslot

/-- A call names the pin of the entry, and its value was read from the descriptor behind it. -/
theorem mem_visit_reported
    (hreport : report ∈ (visit gpioEvtProc gpioFd timeout answers i entry).reported) :
    report.source = gpioFd[i]? ∧ report.evt.gpioNum = entry.info.gpioNum ∧
      gpioEvtProc = true ∧ entry.info.evtType ≠ .none ∧
      ∀ d, gpioFd[i]? = some d → d.fd ≠ none := by
  rw [visit] at hreport
  split at hreport
  · obtain ⟨⟨cur, hcur⟩, hsource, hnum, hproc, htype⟩ := mem_visitRead_reported hreport
    refine ⟨hsource, hnum, hproc, htype, fun d hd hclosed => ?_⟩
    rw [hd, readValue_of_closed hclosed] at hcur
    cases hcur
  · cases hreport

end

/-! ## One iteration -/

section

variable {s : State} {gpioFd : List Descriptor} {timeout : Int} {answers : Answers}

theorem Covered.slot {gpioEvtProc : Bool} {gpioMgr : List Entry}
    (hcovered : Covered gpioFd gpioEvtProc (gpioMgr.map Entry.info)) {i : Nat}
    (hi : i < gpioMgr.length) : ∃ d, gpioFd[i]? = some d := by
  have hlength := hcovered.length_le
  rw [List.length_map] at hlength
  exact ⟨gpioFd[i], List.getElem?_eq_getElem (Nat.lt_of_lt_of_le hi hlength)⟩

/-- The iteration of the covered table is faithful, entry by entry. -/
theorem faithful_visits {gpioEvtProc : Bool} {gpioMgr : List Entry}
    (hcovered : Covered gpioFd gpioEvtProc (gpioMgr.map Entry.info)) :
    let visits := gpioMgr.mapIdx (visit gpioEvtProc gpioFd timeout answers)
    Observation.Faithful ⟨polled gpioFd gpioMgr, visits.flatMap Visit.read,
      visits.flatMap Visit.reported⟩ := by
  refine ⟨fun slot hslot => ?_, fun slot hslot => ?_, fun report hreport => ?_⟩
  · obtain ⟨i, hi, rfl⟩ := List.mem_mapIdx.mp hslot
    exact hcovered.slot hi
  · obtain ⟨v, hv, hslot⟩ := List.mem_flatMap.mp hslot
    obtain ⟨i, hi, rfl⟩ := List.mem_mapIdx.mp hv
    rw [mem_visit_read hslot]
    exact hcovered.slot hi
  · obtain ⟨v, hv, hreport⟩ := List.mem_flatMap.mp hreport
    obtain ⟨i, hi, rfl⟩ := List.mem_mapIdx.mp hv
    obtain ⟨hsource, hnum, hproc, htype, hopen⟩ := mem_visit_reported hreport
    obtain ⟨d, hd⟩ := hcovered.slot hi
    obtain ⟨fd, hfd⟩ := Option.ne_none_iff_exists'.mp (hopen d hd)
    have hentry : (gpioMgr.map Entry.info)[i]? = some gpioMgr[i].info := by
      rw [List.getElem?_map, List.getElem?_eq_getElem hi]
      rfl
    refine ⟨d, fd, hsource.trans hd, hfd, ?_⟩
    rw [hnum]
    exact hcovered.own i gpioMgr[i].info d hentry hd hproc htype (hopen d hd)

theorem map_info_visits (gpioEvtProc : Bool) (gpioMgr : List Entry) :
    ((gpioMgr.mapIdx (visit gpioEvtProc gpioFd timeout answers)).map Visit.entry).map
      Entry.info = gpioMgr.map Entry.info := by
  apply List.ext_getElem?
  intro i
  simp only [List.getElem?_map, List.getElem?_mapIdx, Option.map_map]
  cases gpioMgr[i]? with
  | none => rfl
  | some entry => exact congrArg some visit_entry_info

theorem thread_iterate :
    (iterate s gpioFd timeout answers).thread = .running gpioFd pollTimeout := by
  rw [iterate]
  split
  · rfl
  · rfl

theorem gpioEvtProc_iterate :
    (iterate s gpioFd timeout answers).gpioEvtProc = s.gpioEvtProc := by
  rw [iterate]
  split
  · rfl
  · rfl

theorem map_info_iterate :
    (iterate s gpioFd timeout answers).gpioMgr.map Entry.info = s.gpioMgr.map Entry.info := by
  rw [iterate]
  split
  · rfl
  · exact map_info_visits s.gpioEvtProc s.gpioMgr

theorem faithful_iterate (hfaithful : Faithful s)
    (hcovered : Covered gpioFd s.gpioEvtProc (s.gpioMgr.map Entry.info)) :
    Faithful (iterate s gpioFd timeout answers) := by
  have hvisits := @faithful_visits gpioFd timeout answers _ _ hcovered
  intro o ho
  rw [iterate] at ho
  split at ho
  · rcases List.mem_append.mp ho with hbefore | hnew
    · exact hfaithful o hbefore
    · cases List.mem_singleton.mp hnew
      refine ⟨hvisits.polled, fun slot hslot => ?_, fun report hreport => ?_⟩
      · cases hslot
      · cases hreport
  · rcases List.mem_append.mp ho with hbefore | hnew
    · exact hfaithful o hbefore
    · cases List.mem_singleton.mp hnew
      exact hvisits

end

/-! ## Runs -/

/-- The descriptors of the thread cover the table. -/
structure Inv (s : State) : Prop where
  faithful : Faithful s
  covered : ∀ gpioFd timeout, s.thread = .running gpioFd timeout →
    Covered gpioFd s.gpioEvtProc (s.gpioMgr.map Entry.info)

theorem inv_init : Inv .init where
  faithful _ ho := nomatch ho
  covered _ _ hthread := nomatch hthread

theorem map_info_start (evtRet : Vector EvtInfo 5) :
    ((evtList evtRet).map fun evt => (⟨evt, evt.gpioVal⟩ : Entry)).map Entry.info =
      evtList evtRet := by
  rw [List.map_map]
  exact List.map_id _

theorem thread_start_eq_running_iff {thread : Thread} {gpioFd : List Descriptor}
    {timeout : Int} :
    thread.start = .running gpioFd timeout ↔ thread = .running gpioFd timeout := by
  cases thread with
  | none => exact iff_of_false (fun heq => nomatch heq) (fun heq => nomatch heq)
  | created => exact iff_of_false (fun heq => nomatch heq) (fun heq => nomatch heq)
  | running gpioFd timeout => exact Iff.rfl

theorem inv_start {s : State} {evtRet : Vector EvtInfo 5} {gpioEvtProc : Bool} (hinv : Inv s)
    (hguard : StartCovered s (.start evtRet gpioEvtProc)) :
    Inv (mdsApiGpioEvtStart s evtRet gpioEvtProc) where
  faithful := hinv.faithful
  covered gpioFd timeout hthread := by
    have hcovered := hguard gpioFd timeout (thread_start_eq_running_iff.mp hthread)
    rw [← map_info_start evtRet] at hcovered
    exact hcovered

/-- The descriptors are opened for the pins that the table has. -/
theorem covered_openAll (fd : Nat → Option Nat) (gpioEvtProc : Bool) (gpioMgr : List Entry) :
    Covered (openAll fd gpioMgr) gpioEvtProc (gpioMgr.map Entry.info) where
  length_le := by
    apply Nat.le_of_eq
    rw [openAll, List.length_map, List.length_mapIdx]
  own i pin d hpin hd _ _ _ := by
    rw [List.getElem?_map] at hpin
    rw [openAll, List.getElem?_mapIdx] at hd
    obtain ⟨entry, hentry, rfl⟩ := Option.map_eq_some_iff.mp hpin
    rw [hentry] at hd
    cases hd
    rfl

theorem inv_step (s : State) (label : Label) (next : State) (hinv : Inv s)
    (hguard : StartCovered s label) (hstep : step s label = some next) : Inv next := by
  cases label with
  | start evtRet gpioEvtProc =>
      cases hstep
      exact inv_start hinv hguard
  | begin fd =>
      rw [step] at hstep
      split at hstep
      · cases hstep
        refine ⟨hinv.faithful, fun gpioFd timeout hthread => ?_⟩
        cases hthread
        exact covered_openAll fd s.gpioEvtProc s.gpioMgr
      · cases hstep
  | iterate answers =>
      rw [step] at hstep
      split at hstep
      · next gpioFd timeout hrunning =>
          cases hstep
          have hcovered := hinv.covered gpioFd timeout hrunning
          refine ⟨faithful_iterate hinv.faithful hcovered, fun gpioFd' timeout' hthread => ?_⟩
          rw [thread_iterate] at hthread
          cases hthread
          rwa [gpioEvtProc_iterate, map_info_iterate]
      · cases hstep

/-! ## Iterations that show a table that is not covered -/

def iterations (answers : List Answers) : List Label := answers.map Label.iterate

/-- `poll` times out. -/
def quiet : Answers := ⟨0, fun _ => false, fun _ => none⟩

/-- Each pin has changed to the level. -/
def level (value : Int) : Answers := ⟨1, fun _ => true, fun _ => some value⟩

theorem step_iterate {s : State} {gpioFd : List Descriptor} {timeout : Int}
    (hthread : s.thread = .running gpioFd timeout) (answers : Answers) :
    step s (.iterate answers) = some (iterate s gpioFd timeout answers) := by
  rw [step, hthread]

theorem run_iterate {s : State} {gpioFd : List Descriptor} {timeout : Int}
    (hthread : s.thread = .running gpioFd timeout) (answers : Answers) (rest : List Label) :
    run step s (.iterate answers :: rest) = run step (iterate s gpioFd timeout answers) rest := by
  rw [run, step_iterate hthread, Option.bind_some]

/-- A table that is longer than the array of descriptors is polled behind its end. -/
theorem not_faithful_of_length_lt {s : State} {gpioFd : List Descriptor} (timeout : Int)
    (hlength : gpioFd.length < s.gpioMgr.length) :
    ¬Faithful (iterate s gpioFd timeout quiet) := by
  intro hfaithful
  have hnew := hfaithful ⟨polled gpioFd s.gpioMgr, [], []⟩
    (List.mem_append_right _ List.mem_cons_self)
  have hpolled : gpioFd[gpioFd.length]? ∈ polled gpioFd s.gpioMgr :=
    List.mem_mapIdx.mpr ⟨gpioFd.length, hlength, rfl⟩
  obtain ⟨d, hd⟩ := hnew.polled _ hpolled
  rw [List.getElem?_eq_none (Nat.le_refl _)] at hd
  cases hd

theorem visit_level {gpioEvtProc : Bool} {gpioFd : List Descriptor} {i : Nat} {d : Descriptor}
    (hd : gpioFd[i]? = some d) (hopen : d.fd ≠ none) (timeout value : Int) (entry : Entry) :
    visit gpioEvtProc gpioFd timeout (level value) i entry =
      visitRead gpioEvtProc (some d) entry (some value) := by
  obtain ⟨gpio, fd⟩ := d
  obtain ⟨fd, rfl⟩ := Option.ne_none_iff_exists'.mp hopen
  rw [visit, hd]
  exact if_pos (.inl rfl)

theorem visitRead_open {gpioEvtProc : Bool} {d : Descriptor} (hopen : d.fd ≠ none)
    (value : Int) (entry : Entry) :
    visitRead gpioEvtProc (some d) entry (some value) =
      if entry.lastVal = value then ⟨entry, [some d], []⟩
      else ⟨{ entry with lastVal := value }, [some d],
        edgeReports gpioEvtProc (some d) entry value⟩ := by
  obtain ⟨gpio, fd⟩ := d
  obtain ⟨fd, rfl⟩ := Option.ne_none_iff_exists'.mp hopen
  rfl

/-- After an iteration at a level, the entry has it as its last value. -/
theorem getElem?_iterate_level {s : State} {gpioFd : List Descriptor} {i : Nat} {d : Descriptor}
    {entry : Entry} (hentry : s.gpioMgr[i]? = some entry) (hd : gpioFd[i]? = some d)
    (hopen : d.fd ≠ none) (timeout value : Int) :
    (iterate s gpioFd timeout (level value)).gpioMgr[i]? =
      some { entry with lastVal := value } := by
  change ((s.gpioMgr.mapIdx _).map Visit.entry)[i]? = _
  rw [List.getElem?_map, List.getElem?_mapIdx, hentry, Option.map_some, Option.map_some,
    visit_level hd hopen, visitRead_open hopen]
  split
  · next hlast => rw [← hlast]
  · rfl

/-- The two levels that an edge type reports. -/
theorem exists_edge (evtType : GpioEdge) (htype : evtType ≠ .none) :
    ∃ before after : Int, before ≠ after ∧ ∀ slot gpioNum gpioVal, ∃ report,
      edgeReports true slot ⟨⟨gpioNum, gpioVal, evtType⟩, before⟩ after = [report] ∧
        report.source = slot ∧ report.evt.gpioNum = gpioNum := by
  cases evtType with
  | none => exact absurd rfl htype
  | rising =>
      refine ⟨0, 1, by decide, fun slot gpioNum _ => ?_⟩
      exact ⟨⟨⟨gpioNum, 1, .rising⟩, slot⟩, rfl, rfl, rfl⟩
  | falling =>
      refine ⟨1, 0, by decide, fun slot gpioNum _ => ?_⟩
      exact ⟨⟨⟨gpioNum, 0, .falling⟩, slot⟩, rfl, rfl, rfl⟩
  | both =>
      refine ⟨0, 1, by decide, fun slot gpioNum _ => ?_⟩
      exact ⟨⟨⟨gpioNum, 1, .rising⟩, slot⟩, rfl, rfl, rfl⟩

theorem mem_reported_iterate_level {s : State} {gpioFd : List Descriptor} {i : Nat}
    {d : Descriptor} {entry : Entry} (hentry : s.gpioMgr[i]? = some entry)
    (hd : gpioFd[i]? = some d) (hopen : d.fd ≠ none) (timeout : Int) {value : Int}
    (hlast : entry.lastVal ≠ value) {report : Report}
    (hreport : report ∈ edgeReports s.gpioEvtProc (some d) entry value) :
    ∃ o ∈ (iterate s gpioFd timeout (level value)).observed, report ∈ o.reported := by
  refine ⟨_, List.mem_append_right _ List.mem_cons_self, ?_⟩
  refine List.mem_flatMap.mpr ⟨visit s.gpioEvtProc gpioFd timeout (level value) i entry, ?_, ?_⟩
  · obtain ⟨hi, rfl⟩ := List.getElem?_eq_some_iff.mp hentry
    exact List.mem_mapIdx.mpr ⟨i, hi, rfl⟩
  · rw [visit_level hd hopen, visitRead_open hopen, if_neg hlast]
    exact hreport

/-- A pin with the descriptor of another one is reported after two iterations. -/
theorem not_faithful_of_other {s : State} {gpioFd : List Descriptor} {timeout : Int}
    (hthread : s.thread = .running gpioFd timeout) {i : Nat} {d : Descriptor} {entry : Entry}
    (hentry : s.gpioMgr[i]? = some entry) (hd : gpioFd[i]? = some d)
    (hproc : s.gpioEvtProc = true) (htype : entry.info.evtType ≠ .none) (hopen : d.fd ≠ none)
    (hother : d.gpio ≠ entry.info.gpioNum) :
    ∃ answers final, run step s (iterations answers) = some final ∧ ¬Faithful final := by
  obtain ⟨before, after, hchange, hedge⟩ := exists_edge entry.info.evtType htype
  obtain ⟨report, hreports, hsource, hnum⟩ :=
    hedge (some d) entry.info.gpioNum entry.info.gpioVal
  have hthread' : (iterate s gpioFd timeout (level before)).thread = _ := thread_iterate
  have hproc' : (iterate s gpioFd timeout (level before)).gpioEvtProc = true :=
    gpioEvtProc_iterate.trans hproc
  have hentry' := getElem?_iterate_level hentry hd hopen timeout before
  refine ⟨[level before, level after], iterate (iterate s gpioFd timeout (level before)) gpioFd
    pollTimeout (level after), ?_, fun hfaithful => ?_⟩
  · exact (run_iterate hthread _ _).trans (run_iterate hthread' _ _)
  · have hmem : report ∈ edgeReports (iterate s gpioFd timeout (level before)).gpioEvtProc
        (some d) { entry with lastVal := before } after := by
      rw [hproc', hreports]
      exact List.mem_singleton_self report
    obtain ⟨o, ho, hreport⟩ :=
      mem_reported_iterate_level hentry' hd hopen pollTimeout hchange hmem
    obtain ⟨d', fd, hsource', _, hpin⟩ := (hfaithful o ho).reported report hreport
    rw [hsource] at hsource'
    cases hsource'
    rw [hnum] at hpin
    exact hother hpin

theorem not_faithful_of_not_covered {s : State} {gpioFd : List Descriptor} {timeout : Int}
    (hthread : s.thread = .running gpioFd timeout)
    (hnot : ¬Covered gpioFd s.gpioEvtProc (s.gpioMgr.map Entry.info)) :
    ∃ answers final, run step s (iterations answers) = some final ∧ ¬Faithful final := by
  by_cases hlength : s.gpioMgr.length ≤ gpioFd.length
  · refine Classical.byContradiction fun hnone => hnot ⟨?_, ?_⟩
    · rwa [List.length_map]
    · intro i pin d hpin hd hproc htype hopen
      rw [List.getElem?_map] at hpin
      obtain ⟨entry, hentry, rfl⟩ := Option.map_eq_some_iff.mp hpin
      refine Classical.byContradiction fun hother => hnone ?_
      exact not_faithful_of_other hthread hentry hd hproc htype hopen hother
  · refine ⟨[quiet], iterate s gpioFd timeout quiet, ?_, ?_⟩
    · exact run_iterate hthread quiet []
    · exact not_faithful_of_length_lt timeout (Nat.lt_of_not_le hlength)

theorem eachStep_iterations (s : State) (answers : List Answers) :
    EachStep step StartCovered s (iterations answers) := by
  induction answers generalizing s with
  | nil => trivial
  | cons first rest ih => exact eachStep_cons.mpr ⟨trivial, fun next _ => ih next⟩

/-- A start is covered exactly if nothing that the iterations after it find breaks what is
promised. -/
theorem startCovered_iff {s : State} (hinv : Inv s) (evtRet : Vector EvtInfo 5)
    (gpioEvtProc : Bool) :
    StartCovered s (.start evtRet gpioEvtProc) ↔ ∀ answers final,
      run step (mdsApiGpioEvtStart s evtRet gpioEvtProc) (iterations answers) = some final →
        Faithful final := by
  constructor
  · intro hguard answers final hrun
    have hstart := inv_start hinv hguard
    exact (inv_of_guarded_run Inv inv_step hstart (eachStep_iterations _ answers) hrun).faithful
  · intro hall gpioFd timeout hthread
    refine Classical.byContradiction fun hnot => ?_
    rw [← map_info_start evtRet] at hnot
    have hrunning : (mdsApiGpioEvtStart s evtRet gpioEvtProc).thread = .running gpioFd timeout :=
      thread_start_eq_running_iff.mpr hthread
    obtain ⟨answers, final, hrun, hbroken⟩ := not_faithful_of_not_covered hrunning hnot
    exact hbroken (hall answers final hrun)

/--
In a run whose starts are covered, whatever is polled and read was opened, and each
call names the pin its value was read from.  A further start keeps this, whatever
the iterations after it find, exactly if it is covered too.
-/
theorem run_faithful (labels : List Label) (hguard : EachStep step StartCovered .init labels)
    (final : State) (hrun : run step .init labels = some final) :
    Faithful final ∧ ∀ evtRet gpioEvtProc,
      StartCovered final (.start evtRet gpioEvtProc) ↔ ∀ answers last,
        run step (mdsApiGpioEvtStart final evtRet gpioEvtProc) (iterations answers) =
          some last → Faithful last := by
  have hinv : Inv final := inv_of_guarded_run Inv inv_step inv_init hguard hrun
  exact ⟨hinv.faithful, startCovered_iff hinv⟩

/-- A pin with both edges, and nothing behind it. -/
def onePin (gpioNum : Int) : Vector EvtInfo 5 :=
  #v[⟨gpioNum, 0, .both⟩, ⟨-1, 0, .none⟩, ⟨-1, 0, .none⟩, ⟨-1, 0, .none⟩, ⟨-1, 0, .none⟩]

/-- The monitor is started for pin 5, and once more for pin 7. -/
def restarted : List Label :=
  [.start (onePin 5) true, .begin fun _ => some 3, .iterate (level 0), .start (onePin 7) true,
    .iterate (level 1)]

/-- The rising edge of pin 5 is reported as one of pin 7. -/
theorem restarted_not_faithful :
    ¬∀ final, run step .init restarted = some final → Faithful final := by
  intro hall
  have hrun : run step .init restarted = some (State.mk
      [⟨⟨7, 0, .both⟩, 1⟩] true (.running [⟨5, some 3⟩] pollTimeout)
      [⟨[some ⟨5, some 3⟩], [some ⟨5, some 3⟩], []⟩,
        ⟨[some ⟨5, some 3⟩], [some ⟨5, some 3⟩], [⟨⟨7, 1, .rising⟩, some ⟨5, some 3⟩⟩]⟩]) := by
    rfl
  have hlast := (hall _ hrun) _ (List.mem_cons_of_mem _ List.mem_cons_self)
  obtain ⟨d, fd, hsource, _, hpin⟩ := hlast.reported _ List.mem_cons_self
  cases hsource
  cases hpin

/-- A second start for the pin that was opened. -/
theorem run_faithful_same_pin :
    ∃ final, run step .init [.start (onePin 5) true, .begin fun _ => some 3, .iterate (level 0),
      .start (onePin 5) true, .iterate (level 1)] = some final ∧ Faithful final := by
  refine ⟨_, rfl, (run_faithful [.start (onePin 5) true, .begin fun _ => some 3,
    .iterate (level 0), .start (onePin 5) true, .iterate (level 1)] ?_ _ rfl).1⟩
  refine ⟨?_, trivial, trivial, ?_, trivial, trivial⟩
  · intro gpioFd timeout hthread
    cases hthread
  · intro gpioFd timeout hthread
    cases hthread
    exact covered_openAll (fun _ => some 3) true [⟨⟨5, 0, .both⟩, 0⟩]

end MdsFormal.Gpio.GpioEvt
