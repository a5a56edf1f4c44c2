import MdsFormal.Library.CString
import MdsFormal.Storage.BoundedLog

/-!
# Time from the network

`set_network_time` asks the time servers one after the other until a reply parses.  Its loop
ends on a null pointer that the list of servers does not have, and the time it hands to
`mktime` has fields that no reply sets.
-/

namespace MdsFormal.Time.NetworkTime

open MdsFormal.Library.CString
open MdsFormal.Storage.BoundedLog
open MdsFormal.Storage.File

/-! ## The code -/

/-- `time_server_list`, as far as it goes. -/
def timeServerList : List (Option String) :=
  [some "time.bora.net", some "time.nist.gov", some "time-a.nist.gov", some "time-b.nist.gov"]

/-- The fields of `struct tm` that `mktime` counts. -/
structure Civil where
  tmSec : Int
  tmMin : Int
  tmHour : Int
  tmMday : Int
  tmMon : Int
  tmYear : Int
  deriving DecidableEq

structure Tm where
  civil : Civil
  tmWday : Int
  tmYday : Int
  tmIsdst : Int
  deriving DecidableEq

/-- The C library in the time zone of the process.  `"%a %b %d %T %Y"` sets every counted
field; where a text does not match, some of the fields may be set. -/
structure TimeLibrary where
  parse : Str → Option (Civil × Int)
  partly : Str → Tm → Civil × Int
  yday : Str → Tm → Int
  mktime : Civil → Int → Int

/-- `strptime(time_str, "%a %b %d %T %Y", cur_time)`, and whether it did not return `NULL`;
`tm_isdst` is in no conversion of the format. -/
def TimeLibrary.strptime (library : TimeLibrary) (timeStr : Str) (curTime : Tm) : Bool × Tm :=
  match library.parse timeStr with
  | none =>
      let (civil, wday) := library.partly timeStr curTime
      (false, ⟨civil, wday, library.yday timeStr curTime, curTime.tmIsdst⟩)
  | some (civil, wday) =>
      (true, ⟨civil, wday, library.yday timeStr curTime, curTime.tmIsdst⟩)

inductive Fault where
  | outOfBounds
  | overflow
  deriving DecidableEq

/-- `get_rdate_utc_time`: `true` is `DEFINES_MDS_API_OK`.  A command that fails leaves an empty
reply. -/
def getRdateUtcTime (library : TimeLibrary) (replies : String → Str) (timeServer : Option String)
    (curTime : Tm) : Bool × Tm :=
  match timeServer with
  | none => (false, curTime)
  | some server => library.strptime (replies server) curTime

/-- The `do .. while` loop over what is left of the list: the servers asked, and the time when a
reply has parsed. -/
def serverLoop (library : TimeLibrary) (replies : String → Str) :
    List (Option String) → Tm → Except Fault (List String × Option Tm)
  | [], _ => .error .outOfBounds
  | none :: _, _ => .ok ([], none)
  | some server :: rest, curTime =>
      match getRdateUtcTime library replies (some server) curTime with
      | (true, curTime) => .ok ([server], some curTime)
      | (false, curTime) =>
          match serverLoop library replies rest curTime with
          | .error fault => .error fault
          | .ok (asked, found) => .ok (server :: asked, found)

/-- What a call returns, what it sets the clock to, and whom it asked. -/
structure Outcome where
  ret : Int
  clock : Option Int
  asked : List String
  deriving DecidableEq

/-- `timezone_adj_hour * 60 * 60` -/
def adjustment (timezoneAdjHour : Int) : Option Int := do
  let minutes ← checked (timezoneAdjHour * 60)
  checked (minutes * 60)

/-- `set_network_time`, with what the stack holds as `curTime`. -/
def setNetworkTime (library : TimeLibrary) (timezoneAdjHour : Int) (replies : String → Str)
    (curTime : Tm) : Except Fault Outcome :=
  match serverLoop library replies timeServerList curTime with
  | .error fault => .error fault
  | .ok (asked, none) => .ok ⟨mdsApiNok, none, asked⟩
  | .ok (asked, some curTime) =>
      match adjustment timezoneAdjHour with
      | none => .error .overflow
      | some seconds =>
          .ok ⟨mdsApiOk, some (library.mktime curTime.civil curTime.tmIsdst + seconds), asked⟩

/-! ## The loop -/

/-- The names in the list. -/
def servers : List String := timeServerList.filterMap id

variable (library : TimeLibrary) (replies : String → Str)

/-- The reply of a server parses. -/
def Parses (server : String) : Bool := (library.parse (replies server)).isSome

/-- The servers up to the first whose reply parses. -/
def upToFirst : List String → List String
  | [] => []
  | server :: rest => if Parses library replies server then [server] else server :: upToFirst rest

/-- The first reply that parses. -/
def firstReply : Option Str := (servers.find? (Parses library replies)).map replies

variable {library replies}

/-- No conversion of the format sets `tm_isdst`. -/
@[simp] theorem strptime_tmIsdst (timeStr : Str) (curTime : Tm) :
    (library.strptime timeStr curTime).2.tmIsdst = curTime.tmIsdst := by
  rw [TimeLibrary.strptime]
  cases library.parse timeStr with
  | none => rfl
  | some fields => rfl

theorem strptime_parsed {timeStr : Str} {civil : Civil} {wday : Int}
    (hparse : library.parse timeStr = some (civil, wday)) (curTime : Tm) :
    (library.strptime timeStr curTime).1 = true ∧
      (library.strptime timeStr curTime).2.civil = civil := by
  rw [TimeLibrary.strptime, hparse]
  exact ⟨rfl, rfl⟩

theorem strptime_rejected {timeStr : Str} (hparse : library.parse timeStr = none) (curTime : Tm) :
    (library.strptime timeStr curTime).1 = false := by
  rw [TimeLibrary.strptime, hparse]

theorem serverLoop_parsed {server : String} {curTime : Tm}
    (hparsed : (library.strptime (replies server) curTime).1 = true) (rest : List (Option String)) :
    serverLoop library replies (some server :: rest) curTime =
      .ok ([server], some (library.strptime (replies server) curTime).2) := by
  have hpair : library.strptime (replies server) curTime =
      (true, (library.strptime (replies server) curTime).2) := Prod.ext hparsed rfl
  rw [serverLoop, getRdateUtcTime, hpair]

theorem serverLoop_rejected {server : String} {curTime : Tm}
    (hrejected : (library.strptime (replies server) curTime).1 = false)
    (rest : List (Option String)) :
    serverLoop library replies (some server :: rest) curTime =
      match serverLoop library replies rest (library.strptime (replies server) curTime).2 with
      | .error fault => .error fault
      | .ok (asked, found) => .ok (server :: asked, found) := by
  have hpair : library.strptime (replies server) curTime =
      (false, (library.strptime (replies server) curTime).2) := Prod.ext hrejected rfl
  rw [serverLoop, getRdateUtcTime, hpair]

/-- A loop that comes to a reply that parses leaves its fields, and `tm_isdst` as it was. -/
theorem serverLoop_found {names : List String} {server : String} {civil : Civil} {wday : Int}
    (curTime : Tm) (hfound : names.find? (Parses library replies) = some server)
    (hparse : library.parse (replies server) = some (civil, wday)) :
    ∃ left : Tm, serverLoop library replies (names.map some) curTime =
        .ok (upToFirst library replies names, some left) ∧
      left.civil = civil ∧ left.tmIsdst = curTime.tmIsdst := by
  induction names generalizing curTime with
  | nil => cases hfound
  | cons name rest ih =>
      rw [List.map_cons, upToFirst]
      cases hname : library.parse (replies name) with
      | none =>
          have hnot : Parses library replies name = false := by
            rw [Parses, hname]
            rfl
          rw [List.find?_cons, hnot] at hfound
          obtain ⟨left, hloop, hcivil, hisdst⟩ :=
            ih (library.strptime (replies name) curTime).2 hfound
          rw [serverLoop_rejected (strptime_rejected hname curTime), hloop, hnot]
          exact ⟨left, rfl, hcivil, hisdst.trans (strptime_tmIsdst _ _)⟩
      | some fields =>
          have hsome : Parses library replies name = true := by
            rw [Parses, hname]
            rfl
          rw [List.find?_cons, hsome] at hfound
          cases hfound
          obtain ⟨hparsed, hcivil⟩ := strptime_parsed hparse curTime
          rw [serverLoop_parsed hparsed, hsome]
          exact ⟨_, rfl, hcivil, strptime_tmIsdst _ _⟩

/-- Without a reply that parses the loop goes on behind the servers. -/
theorem serverLoop_not_found {names : List String}
    (hnone : names.find? (Parses library replies) = none) (curTime : Tm) :
    serverLoop library replies (names.map some) curTime = .error .outOfBounds := by
  induction names generalizing curTime with
  | nil => rfl
  | cons name rest ih =>
      rw [List.find?_eq_none] at hnone
      have hname : library.parse (replies name) = none := by
        have hnot := hnone name List.mem_cons_self
        exact Option.not_isSome_iff_eq_none.mp hnot
      have hrest : rest.find? (Parses library replies) = none :=
        List.find?_eq_none.mpr fun other hother => hnone other (List.mem_cons_of_mem name hother)
      rw [List.map_cons, serverLoop_rejected (strptime_rejected hname curTime), ih hrest]

/-! ## Setting the clock -/

/-- Whatever the stack holds, the servers are asked in order up to the first reply that parses,
which alone determines what the clock is set to; without one, all are asked and the clock is
left alone. -/
def SetFromFirst (library : TimeLibrary) (timezoneAdjHour : Int) (replies : String → Str) : Prop :=
  match firstReply library replies with
  | none => ∀ curTime, setNetworkTime library timezoneAdjHour replies curTime =
      .ok ⟨mdsApiNok, none, servers⟩
  | some reply => ∃ value, ∀ others curTime, firstReply library others = some reply →
      setNetworkTime library timezoneAdjHour others curTime =
        .ok ⟨mdsApiOk, some value, upToFirst library others servers⟩

/-- The adjustment in seconds is an `int`. -/
def Adjusts (timezoneAdjHour : Int) : Prop :=
  -2 ^ 31 ≤ timezoneAdjHour * 3600 ∧ timezoneAdjHour * 3600 < 2 ^ 31

/-- The time of a reply is the same with every value of `tm_isdst`. -/
def FreeOfIsdst (library : TimeLibrary) (reply : Str) : Prop :=
  ∀ civil wday, library.parse reply = some (civil, wday) →
    ∀ first second, library.mktime civil first = library.mktime civil second

theorem adjustment_eq_some_iff {timezoneAdjHour seconds : Int} :
    adjustment timezoneAdjHour = some seconds ↔
      Adjusts timezoneAdjHour ∧ seconds = timezoneAdjHour * 3600 := by
  simp only [adjustment, Option.bind_eq_bind, Option.bind_eq_some_iff, checked_eq_some_iff,
    Adjusts]
  constructor
  · rintro ⟨minutes, ⟨-, rfl⟩, hseconds, rfl⟩
    exact ⟨by omega, by omega⟩
  · rintro ⟨hseconds, rfl⟩
    exact ⟨_, ⟨by omega, rfl⟩, by omega, by omega⟩

/-- A call that has a reply that parses. -/
theorem setNetworkTime_found {reply : Str} (timezoneAdjHour : Int)
    (hfirst : firstReply library replies = some reply) (curTime : Tm) :
    ∃ civil wday, library.parse reply = some (civil, wday) ∧
      setNetworkTime library timezoneAdjHour replies curTime =
        match adjustment timezoneAdjHour with
        | none => .error .overflow
        | some seconds =>
            .ok ⟨mdsApiOk, some (library.mktime civil curTime.tmIsdst + seconds),
              upToFirst library replies servers⟩ := by
  obtain ⟨server, hfound, rfl⟩ := Option.map_eq_some_iff.mp hfirst
  have hparses := List.find?_some hfound
  obtain ⟨⟨civil, wday⟩, hparse⟩ := Option.isSome_iff_exists.mp hparses
  obtain ⟨left, hloop, rfl, hisdst⟩ := serverLoop_found curTime hfound hparse
  have hservers : timeServerList = servers.map some := rfl
  refine ⟨left.civil, wday, hparse, ?_⟩
  rw [setNetworkTime, hservers, hloop, ← hisdst]

/-- A call without one reads behind the list. -/
theorem setNetworkTime_not_found (timezoneAdjHour : Int)
    (hnone : firstReply library replies = none) (curTime : Tm) :
    setNetworkTime library timezoneAdjHour replies curTime = .error .outOfBounds := by
  have hservers : timeServerList = servers.map some := rfl
  rw [setNetworkTime, hservers, serverLoop_not_found (Option.map_eq_none_iff.mp hnone)]

/-- A stack whose `tm_isdst` has the given value. -/
def stackWith (tmIsdst : Int) : Tm := ⟨⟨0, 0, 0, 0, 0, 0⟩, 0, 0, tmIsdst⟩

/-- The time of a reply that sets the clock. -/
theorem freeOfIsdst_of_set {reply : Str} {timezoneAdjHour value : Int}
    (hfirst : firstReply library replies = some reply)
    (hset : ∀ curTime, setNetworkTime library timezoneAdjHour replies curTime =
      .ok ⟨mdsApiOk, some value, upToFirst library replies servers⟩) :
    FreeOfIsdst library reply ∧ Adjusts timezoneAdjHour := by
  have hclock : ∀ tmIsdst civil wday, library.parse reply = some (civil, wday) →
      ∃ seconds, adjustment timezoneAdjHour = some seconds ∧
        library.mktime civil tmIsdst + seconds = value := by
    intro tmIsdst civil wday hparse
    obtain ⟨other, day, hother, hcall⟩ :=
      setNetworkTime_found timezoneAdjHour hfirst (stackWith tmIsdst)
    cases hparse.symm.trans hother
    rw [hset] at hcall
    cases hadjust : adjustment timezoneAdjHour with
    | none =>
        rw [hadjust] at hcall
        cases hcall
    | some seconds =>
        rw [hadjust] at hcall
        injection hcall with houtcome
        injection houtcome with _ hvalue _
        exact ⟨seconds, rfl, (Option.some.inj hvalue).symm⟩
  constructor
  · intro civil wday hparse first second
    obtain ⟨seconds, hseconds, hfirst⟩ := hclock first civil wday hparse
    obtain ⟨others, hothers, hsecond⟩ := hclock second civil wday hparse
    cases hseconds.symm.trans hothers
    omega
  · obtain ⟨civil, wday, hparse, -⟩ := setNetworkTime_found timezoneAdjHour hfirst (stackWith 0)
    obtain ⟨seconds, hseconds, -⟩ := hclock 0 civil wday hparse
    exact (adjustment_eq_some_iff.mp hseconds).1

/-- The clock is set as it should be exactly when some reply parses, its time does not depend on
what the stack holds for `tm_isdst`, and the adjustment fits an `int`. -/
theorem setNetworkTime_setFromFirst_iff (library : TimeLibrary) (timezoneAdjHour : Int)
    (replies : String → Str) :
    SetFromFirst library timezoneAdjHour replies ↔
      ∃ reply, firstReply library replies = some reply ∧ FreeOfIsdst library reply ∧
        Adjusts timezoneAdjHour := by
  rw [SetFromFirst]
  cases hfirst : firstReply library replies with
  | none =>
      constructor
      · intro hset
        have hcall := hset (stackWith 0)
        rw [setNetworkTime_not_found timezoneAdjHour hfirst] at hcall
        cases hcall
      · rintro ⟨reply, hreply, -⟩
        cases hreply
  | some reply =>
      constructor
      · rintro ⟨value, hset⟩
        exact ⟨reply, rfl, freeOfIsdst_of_set hfirst fun curTime => hset replies curTime hfirst⟩
      · rintro ⟨_, ⟨⟩, hfree, hadjusts⟩
        obtain ⟨civil, wday, hparse, -⟩ :=
          setNetworkTime_found timezoneAdjHour hfirst (stackWith 0)
        refine ⟨library.mktime civil 0 + timezoneAdjHour * 3600, fun others curTime hothers => ?_⟩
        obtain ⟨other, day, hother, hcall⟩ :=
          setNetworkTime_found timezoneAdjHour hothers curTime
        cases hparse.symm.trans hother
        rw [hcall, adjustment_eq_some_iff.mpr ⟨hadjusts, rfl⟩]
        dsimp only
        rw [hfree civil wday hparse curTime.tmIsdst 0]

/-- With no reply from any server the list is read behind its end. -/
theorem setNetworkTime_behind_the_list :
    ¬∀ (library : TimeLibrary) (timezoneAdjHour : Int) (replies : String → Str),
      SetFromFirst library timezoneAdjHour replies := by
  intro hall
  have hset := hall ⟨fun _ => none, fun _ curTime => (curTime.civil, curTime.tmWday),
    fun _ curTime => curTime.tmYday, fun civil _ => civil.tmSec⟩ 9 (fun _ => ⟨[], by decide⟩)
  have hcall := hset (stackWith 0)
  cases hcall

end MdsFormal.Time.NetworkTime
