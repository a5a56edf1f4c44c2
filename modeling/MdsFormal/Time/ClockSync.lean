import MdsFormal.Library.Faults
import MdsFormal.Process.SystemFork
import MdsFormal.Time.NetworkTime

/-!
# Setting the clock again and again

`mds_api_set_network_time` leaves the clock alone once the year is past 2016.  Time passes
between its calls, and each call has its own answers from the servers and its own view of the
time zone.  When the servers are right, only the first call can set the clock.
-/

namespace MdsFormal.Time.ClockSync

open MdsFormal.Library.CString
open MdsFormal.Library.Faults
open MdsFormal.Process.SystemFork
open MdsFormal.Storage.BoundedLog
open MdsFormal.Storage.File
open MdsFormal.Time.NetworkTime

/-! ## The code -/

/-- What a call is given and what it meets: whether `TZ` is set, the tries for
`CHK_TZ_LOCAL_FILE`, the replies of the servers, and the stack of `set_network_time`. -/
structure Ask where
  tzHour : Int
  tz : Bool
  access : Nat → Bool
  replies : String → Str
  curTime : Tm

/-- `get_cur_invalid_chk`; `curYear` is the year that `localtime` gives for a time, and `true`
is `DEFINES_MDS_API_OK`. -/
def getCurInvalidChk (curYear : Int → Int) (clock : Int) : Bool := 2016 < curYear clock

def targetTimeZone (ask : Ask) : Int :=
  if ask.tz || mdsApiCheckExistFile ask.access 2 then 0 else ask.tzHour

/-- What a call returns that does nothing. -/
def alreadySync : Outcome := ⟨mdsApiOk, none, []⟩

/-- `mds_api_set_network_time` -/
def mdsApiSetNetworkTime (library : TimeLibrary) (curYear : Int → Int) (clock : Int) (ask : Ask) :
    Except Fault Outcome :=
  if getCurInvalidChk curYear clock then .ok alreadySync
  else
    match setNetworkTime library (targetTimeZone ask) ask.replies ask.curTime with
    | .error fault => .error fault
    | .ok outcome =>
        .ok { outcome with ret := if outcome.ret = mdsApiOk then mdsApiOk else mdsApiNok }

inductive Event where
  | wait (seconds : Nat)
  | sync (ask : Ask)

/-- The calls and the time between them: what the calls did, and the clock behind them. -/
def run (library : TimeLibrary) (curYear : Int → Int) :
    Int → List Event → Except Fault (List Outcome × Int)
  | clock, [] => .ok ([], clock)
  | clock, .wait seconds :: rest => run library curYear (clock + seconds) rest
  | clock, .sync ask :: rest => do
      let outcome ← mdsApiSetNetworkTime library curYear clock ask
      let (outcomes, clock) ← run library curYear (outcome.clock.getD clock) rest
      pure (outcome :: outcomes, clock)

/-! ## What the first call decides -/

/-- The seconds that pass. -/
def elapsed : List Event → Nat
  | [] => 0
  | .wait seconds :: rest => seconds + elapsed rest
  | .sync _ :: rest => elapsed rest

/-- How many calls there are. -/
def syncs : List Event → Nat
  | [] => 0
  | .wait _ :: rest => syncs rest
  | .sync _ :: rest => syncs rest + 1

/-- The time of the first reply that parses, as the call adopts it. -/
def adopted (library : TimeLibrary) (ask : Ask) : Option Int :=
  (firstReply library ask.replies).bind fun reply =>
    (library.parse reply).map fun (civil, _) =>
      library.mktime civil ask.curTime.tmIsdst + targetTimeZone ask * 3600

/-- `localtime` gives no earlier year for a later time. -/
def NeverGoesBack (curYear : Int → Int) : Prop :=
  ∀ first second, first ≤ second → curYear first ≤ curYear second

instance decidableAdjusts (timezoneAdjHour : Int) : Decidable (Adjusts timezoneAdjHour) :=
  inferInstanceAs (Decidable (-2 ^ 31 ≤ timezoneAdjHour * 3600 ∧ timezoneAdjHour * 3600 < 2 ^ 31))

section

variable {library : TimeLibrary} {curYear : Int → Int} {clock value : Int} {ask : Ask}
  {events rest : List Event}

theorem elapsed_waits (before : List Nat) (clock : Int) :
    run library curYear clock (before.map .wait ++ events) =
      run library curYear (clock + elapsed (before.map .wait)) events := by
  induction before generalizing clock with
  | nil => rw [List.map_nil, List.nil_append, elapsed, Int.natCast_zero, Int.add_zero]
  | cons seconds before ih =>
      rw [List.map_cons, List.cons_append, run, ih, elapsed, Int.natCast_add, Int.add_assoc]

/-- A call after 2016 does nothing. -/
theorem sync_past (hpast : 2016 < curYear clock) (ask : Ask) :
    mdsApiSetNetworkTime library curYear clock ask = .ok alreadySync := by
  rw [mdsApiSetNetworkTime, getCurInvalidChk, if_pos (decide_eq_true hpast)]

/-- From then on no call does anything. -/
theorem run_past (hmono : NeverGoesBack curYear) (hpast : 2016 < curYear clock) :
    run library curYear clock events =
      .ok (List.replicate (syncs events) alreadySync, clock + elapsed events) := by
  induction events generalizing clock with
  | nil => rw [run, syncs, List.replicate_zero, elapsed, Int.natCast_zero, Int.add_zero]
  | cons event rest ih =>
      cases event with
      | wait seconds =>
          have hlater : 2016 < curYear (clock + seconds) :=
            Int.lt_of_lt_of_le hpast (hmono _ _ (Int.le_add_of_nonneg_right (Int.natCast_nonneg _)))
          rw [run, ih hlater, syncs, elapsed, Int.natCast_add, Int.add_assoc]
      | sync ask =>
          have hrest : run library curYear (alreadySync.clock.getD clock) rest = _ := ih hpast
          rw [run, sync_past hpast, bind_of_eq_ok rfl, bind_of_eq_ok hrest]
          rfl

/-- A call before sets the clock to the time it adopts, or meets its end. -/
theorem sync_before (hbefore : ¬2016 < curYear clock) (ask : Ask) :
    mdsApiSetNetworkTime library curYear clock ask =
      match adopted library ask with
      | none => .error .outOfBounds
      | some value =>
          if Adjusts (targetTimeZone ask) then
            .ok ⟨mdsApiOk, some value, upToFirst library ask.replies servers⟩
          else .error .overflow := by
  have hgoes : ¬getCurInvalidChk curYear clock = true := fun hpast =>
    hbefore (of_decide_eq_true hpast)
  rw [mdsApiSetNetworkTime, if_neg hgoes, adopted]
  cases hfirst : firstReply library ask.replies with
  | none =>
      rw [setNetworkTime_not_found _ hfirst]
      rfl
  | some reply =>
      obtain ⟨civil, wday, hparse, hcall⟩ :=
        setNetworkTime_found (targetTimeZone ask) hfirst ask.curTime
      rw [hcall, Option.bind_some, hparse, Option.map_some]
      dsimp only
      by_cases hadjusts : Adjusts (targetTimeZone ask)
      · rw [adjustment_eq_some_iff.mpr ⟨hadjusts, rfl⟩, if_pos hadjusts]
        rfl
      · have hnone : adjustment (targetTimeZone ask) = none := by
          by_contra hsome
          obtain ⟨seconds, hseconds⟩ := Option.ne_none_iff_exists'.mp hsome
          exact hadjusts (adjustment_eq_some_iff.mp hseconds).1
        rw [hnone, if_neg hadjusts]

end

/--
Where the time of the first call's server is right, the first call alone decides: it does
nothing when the year is past 2016 by then, and otherwise it adopts the time of the first reply
that parses, or meets its end without one.  No later call asks a server or sets the clock.
-/
theorem first_sync_decides (library : TimeLibrary) (curYear : Int → Int)
    (hmono : NeverGoesBack curYear) (clock : Int) (before : List Nat) (ask : Ask) (rest : List Event)
    (hright : ∀ value ∈ adopted library ask, 2016 < curYear value) :
    run library curYear clock (before.map .wait ++ .sync ask :: rest) =
      let start := clock + elapsed (before.map .wait)
      if 2016 < curYear start then
        .ok (List.replicate (syncs rest + 1) alreadySync, start + elapsed rest)
      else
        match adopted library ask with
        | none => .error .outOfBounds
        | some value =>
            if Adjusts (targetTimeZone ask) then
              .ok (⟨mdsApiOk, some value, upToFirst library ask.replies servers⟩ ::
                List.replicate (syncs rest) alreadySync, value + elapsed rest)
            else .error .overflow := by
  rw [elapsed_waits]
  generalize clock + elapsed (before.map .wait) = start
  dsimp only
  by_cases hpast : 2016 < curYear start
  · rw [if_pos hpast, run_past hmono hpast, syncs, elapsed]
  · rw [if_neg hpast, run, sync_before hpast]
    cases hadopted : adopted library ask with
    | none => rfl
    | some value =>
        dsimp only
        by_cases hadjusts : Adjusts (targetTimeZone ask)
        · have hrest : run library curYear value rest = _ :=
            run_past hmono (hright value hadopted)
          rw [if_pos hadjusts, if_pos hadjusts, bind_of_eq_ok rfl]
          dsimp only
          rw [Option.getD_some, bind_of_eq_ok hrest]
          rfl
        · rw [if_neg hadjusts, if_neg hadjusts]
          rfl

/-- A library that knows the reply `Wed Jan 17 06:19:19 2018`, in UTC. -/
def january : TimeLibrary where
  parse text :=
    if text.1 = ascii "Wed Jan 17 06:19:19 2018\n" then some (⟨19, 19, 6, 17, 0, 118⟩, 3) else none
  partly _ curTime := (curTime.civil, curTime.tmWday)
  yday _ curTime := curTime.tmYday
  mktime _ _ := 1516169959

/-- The years after 1970, by their mean length. -/
def meanYear (clock : Int) : Int := 1970 + clock / 31556952

theorem meanYear_mono : NeverGoesBack meanYear := fun _ _ hle =>
  Int.add_le_add_left (Int.ediv_le_ediv (by decide) hle) 1970

/-- A call nine hours east, when the first server gives no time. -/
def januaryAsk : Ask where
  tzHour := 9
  tz := false
  access _ := false
  replies server :=
    if server = "time.bora.net" then ⟨[], by decide⟩
    else ⟨ascii "Wed Jan 17 06:19:19 2018\n", by decide⟩
  curTime := stackWith 0

theorem first_sync_decides_january :
    run january meanYear 0 ([60].map .wait ++ .sync januaryAsk :: [.wait 3600, .sync januaryAsk]) =
      .ok ([⟨mdsApiOk, some 1516202359, ["time.bora.net", "time.nist.gov"]⟩, alreadySync],
        1516205959) := by
  have hadopted : adopted january januaryAsk = some 1516202359 := by decide +kernel
  have hright : ∀ value ∈ adopted january januaryAsk, 2016 < meanYear value := by
    rw [hadopted]
    rintro value ⟨⟩
    decide
  have hstart : ¬2016 < meanYear (0 + elapsed ([60].map .wait)) := by decide
  have hadjusts : Adjusts (targetTimeZone januaryAsk) := by decide
  have hasked : upToFirst january januaryAsk.replies servers =
      ["time.bora.net", "time.nist.gov"] := by decide +kernel
  rw [first_sync_decides january meanYear meanYear_mono 0 [60] januaryAsk
    [.wait 3600, .sync januaryAsk] hright]
  dsimp only
  rw [if_neg hstart, hadopted]
  dsimp only
  rw [if_pos hadjusts, hasked]
  rfl

end MdsFormal.Time.ClockSync
