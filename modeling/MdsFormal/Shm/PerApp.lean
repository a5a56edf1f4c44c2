import Mathlib.Logic.Function.Basic
import MdsFormal.Library.CString
import MdsFormal.Library.SlotTable

/-!
# The per-app shared memory

A segment of `PER_APP_MAX_CNT` records, each under the name of its application.
Free slots carry the name "null".  The functions are given here on the segment's
contents, and a `none` in place of the caller's data is its null pointer; `attached`
says whether `shmget` succeeds.  Every call attaches the segment once more and none
detaches it; a `shmat` that fails then gives an address that the code uses all the
same, and is not modelled.
-/

namespace MdsFormal.Shm.PerApp

open Library.SlotTable Library.CString

/-- The source's `PER_APP_MAX_CNT`. -/
def perAppMaxCnt : Nat := 10

def mdsShmTrue : Int := 1

def mdsShmFalse : Int := 0

/-- `empty_app_name`, the string "null". -/
def emptyAppName : List UInt8 := [110, 117, 108, 108]

/-- `SHM_PER_APP_DATA_T`. -/
structure PerAppData where
  appId : Buf 128
  testInt : Int
  msgBuff : Buf 1024
  deriving DecidableEq

def PerAppData.zero : PerAppData := ⟨.zero 128, 0, .zero 1024⟩

/-- `SHM_PER_APP_DATA_MGR_T`. -/
structure Segment where
  initFlag : Int
  appName : Fin perAppMaxCnt → Buf 256
  shmPerApp : Fin perAppMaxCnt → PerAppData

/-- A new segment is filled with zeros. -/
def Segment.zero : Segment := ⟨0, fun _ => .zero 256, fun _ => .zero⟩

/-- A name that a caller passes: no NUL in it, and short enough for every buffer it is
copied into, of which the message buffer of a set is the tightest. -/
abbrev AppName := { name : List UInt8 // 0 ∉ name ∧ name.length ≤ 122 }

/-- The first initialization of the segment, by whichever process comes first. -/
def initialized (seg : Segment) : Segment :=
  if seg.initFlag = 0 then
    ⟨1, fun i => (seg.appName i).strcpy emptyAppName, fun _ => .zero⟩
  else seg

/-- `_app_shm_per_app_init`. -/
def appShmPerAppInit (attached : Bool) (seg : Segment) : Option Segment :=
  if attached then some (initialized seg) else none

/-- The scan for a slot with the given name. -/
def findApp (name : List UInt8) (seg : Segment) : Option (Fin perAppMaxCnt) :=
  firstSlot (fun slotName : Buf 256 => slotName.str = name) seg.appName

/-- The text "amem-" and the name, broadcast by every set. -/
def notice (name : List UInt8) : List UInt8 := [97, 109, 101, 109, 45] ++ name

/-- `app_shm_set_per_app_data`: its result, the segment and what is broadcast on
`UDP_IPC_PORT__CHK_APP_MEM`. -/
def appShmSetPerAppData (attached : Bool) (appName : AppName) (data : Option PerAppData)
    (seg : Segment) : Int × Segment × Option (List UInt8) :=
  match appShmPerAppInit attached seg, data with
  | none, _ => (mdsShmFalse, seg, none)
  | some seg, none => (mdsShmFalse, seg, none)
  | some seg, some data =>
      match findApp appName.1 seg with
      | some i =>
          (mdsShmTrue, { seg with shmPerApp := Function.update seg.shmPerApp i data },
            some (notice appName.1))
      | none =>
          match findApp emptyAppName seg with
          | some i =>
              (mdsShmTrue,
                { seg with
                  appName := Function.update seg.appName i ((seg.appName i).strcpy appName.1)
                  shmPerApp := Function.update seg.shmPerApp i
                    { data with appId := data.appId.strcpy appName.1 } },
                some (notice appName.1))
          | none => (mdsShmTrue, seg, some (notice appName.1))

/-- `app_shm_get_per_app_data`: its result, the caller's data and the segment. -/
def appShmGetPerAppData (attached : Bool) (appName : AppName) (data : Option PerAppData)
    (seg : Segment) : Int × Option PerAppData × Segment :=
  match appShmPerAppInit attached seg, data with
  | none, _ => (mdsShmFalse, data, seg)
  | some seg, none => (mdsShmFalse, none, seg)
  | some seg, some data =>
      match findApp appName.1 seg with
      | some i =>
          let record := { seg.shmPerApp i with
            appId := (seg.shmPerApp i).appId.strcpy appName.1 }
          (mdsShmTrue, some record,
            { seg with shmPerApp := Function.update seg.shmPerApp i record })
      | none => (mdsShmFalse, some data, seg)

/-- The segment, the caller's array and the count `j` inside `app_shm_get_per_app_data_all`. -/
structure Collected where
  seg : Segment
  data : List PerAppData
  count : Nat

/-- One turn of the loop of `app_shm_get_per_app_data_all`. -/
def collectSlot (c : Collected) (i : Fin perAppMaxCnt) : Collected :=
  if (c.seg.appName i).str ≠ emptyAppName then
    let record := { c.seg.shmPerApp i with
      appId := (c.seg.shmPerApp i).appId.strcpy (c.seg.appName i).str }
    ⟨{ c.seg with shmPerApp := Function.update c.seg.shmPerApp i record },
      c.data.set c.count record, c.count + 1⟩
  else c

/-- `app_shm_get_per_app_data_all`: the number of entries it fills, the caller's array of
`PER_APP_MAX_CNT` entries and the segment. -/
def appShmGetPerAppDataAll (attached : Bool) (data : Option (List PerAppData)) (seg : Segment) :
    Int × Option (List PerAppData) × Segment :=
  match appShmPerAppInit attached seg, data with
  | none, _ => (mdsShmFalse, data, seg)
  | some seg, none => (mdsShmFalse, none, seg)
  | some seg, some data =>
      let c := (List.finRange perAppMaxCnt).foldl collectSlot ⟨seg, data, 0⟩
      (c.count, some c.data, c.seg)

/-! ## Scans -/

variable {seg : Segment} {i : Fin perAppMaxCnt}

theorem findApp_str {name : List UInt8} (hfind : findApp name seg = some i) :
    (seg.appName i).str = name :=
  firstSlot_test hfind

theorem findApp_eq_none_iff {name : List UInt8} :
    findApp name seg = none ↔ ∀ i, (seg.appName i).str ≠ name :=
  firstSlot_eq_none_iff

/-- Only the slots' names matter to a scan. -/
theorem findApp_congr {name : List UInt8} {after : Segment} (hname : after.appName = seg.appName) :
    findApp name after = findApp name seg := by
  rw [findApp, findApp, hname]

/-- A slot name is the marker or an application's name that fits. -/
theorem str_strcpy_appName (buf : Buf 256) (name : AppName) : (buf.strcpy name.1).str = name.1 :=
  str_strcpy buf name.2.1 (Nat.lt_of_le_of_lt name.2.2 (by decide))

theorem str_strcpy_appId (buf : Buf 128) (name : AppName) : (buf.strcpy name.1).str = name.1 :=
  str_strcpy buf name.2.1 (Nat.lt_of_le_of_lt name.2.2 (by decide))

theorem initialized_initFlag (seg : Segment) : (initialized seg).initFlag ≠ 0 := by
  unfold initialized
  split
  · exact Int.one_ne_zero
  · assumption

theorem initialized_of_initFlag (hflag : seg.initFlag ≠ 0) : initialized seg = seg :=
  if_neg hflag

/-! ## The exits of each function, on an attached segment -/

variable {name : AppName} {data : PerAppData}

theorem set_found (hfind : findApp name.1 (initialized seg) = some i) :
    appShmSetPerAppData true name (some data) seg =
      (mdsShmTrue,
        ⟨(initialized seg).initFlag, (initialized seg).appName,
          Function.update (initialized seg).shmPerApp i data⟩,
        some (notice name.1)) := by
  unfold appShmSetPerAppData appShmPerAppInit
  simp only [if_true, hfind]

theorem set_free (hnone : findApp name.1 (initialized seg) = none)
    (hfree : findApp emptyAppName (initialized seg) = some i) :
    appShmSetPerAppData true name (some data) seg =
      (mdsShmTrue,
        ⟨(initialized seg).initFlag,
          Function.update (initialized seg).appName i
            (((initialized seg).appName i).strcpy name.1),
          Function.update (initialized seg).shmPerApp i
            ⟨data.appId.strcpy name.1, data.testInt, data.msgBuff⟩⟩,
        some (notice name.1)) := by
  unfold appShmSetPerAppData appShmPerAppInit
  simp only [if_true, hnone, hfree]

theorem set_full (hnone : findApp name.1 (initialized seg) = none)
    (hfull : findApp emptyAppName (initialized seg) = none) :
    appShmSetPerAppData true name (some data) seg =
      (mdsShmTrue, initialized seg, some (notice name.1)) := by
  unfold appShmSetPerAppData appShmPerAppInit
  simp only [if_true, hnone, hfull]

/-- A slot's record under its own name, as both get functions deliver it. -/
def named (seg : Segment) (i : Fin perAppMaxCnt) : PerAppData :=
  { seg.shmPerApp i with appId := (seg.shmPerApp i).appId.strcpy (seg.appName i).str }

theorem get_found (hfind : findApp name.1 (initialized seg) = some i) :
    appShmGetPerAppData true name (some data) seg =
      (mdsShmTrue, some (named (initialized seg) i),
        ⟨(initialized seg).initFlag, (initialized seg).appName,
          Function.update (initialized seg).shmPerApp i (named (initialized seg) i)⟩) := by
  unfold appShmGetPerAppData appShmPerAppInit
  simp only [if_true, hfind, named, findApp_str hfind]

theorem get_absent (hnone : findApp name.1 (initialized seg) = none) :
    appShmGetPerAppData true name (some data) seg =
      (mdsShmFalse, some data, initialized seg) := by
  unfold appShmGetPerAppData appShmPerAppInit
  simp only [if_true, hnone]

end MdsFormal.Shm.PerApp
