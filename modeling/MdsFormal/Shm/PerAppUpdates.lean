import MdsFormal.Shm.PerAppMap

/-!
# Updates of the per-app shared memory that are dropped

A set that finds neither a slot with its name nor a free one reports the error
on the console and returns `MDS_SHM_TRUE` all the same.
-/

namespace MdsFormal.Shm.PerAppUpdates

open Library.SlotTable PerApp PerAppMap

/-- If a set returns `MDS_SHM_TRUE`, a get right after it delivers what was set. -/
def TrueIsStored (seg : Segment) (name : AppName) (data out : PerAppData) : Prop :=
  (appShmSetPerAppData true name (some data) seg).1 = mdsShmTrue →
    (appShmGetPerAppData true name (some out) (perform seg (.set name data))).1 = mdsShmTrue ∧
      (appShmGetPerAppData true name (some out) (perform seg (.set name data))).2.1.map payload =
        some (payload data)

instance (seg : Segment) (name : AppName) (data out : PerAppData) :
    Decidable (TrueIsStored seg name data out) :=
  inferInstanceAs (Decidable (_ → _ ∧ _))

variable {seg : Segment} {name : AppName} {data out : PerAppData}

/-- A get of a slot that the scan finds in an initialized segment. -/
theorem get_payload (i : Fin perAppMaxCnt) (hflag : seg.initFlag ≠ 0)
    (hfind : findApp name.1 seg = some i) (hpayload : payload (seg.shmPerApp i) = payload data) :
    (appShmGetPerAppData true name (some out) seg).1 = mdsShmTrue ∧
      (appShmGetPerAppData true name (some out) seg).2.1.map payload = some (payload data) := by
  have hsame := initialized_of_initFlag hflag
  rw [get_found (hsame.symm ▸ hfind), hsame]
  exact ⟨rfl, congrArg some hpayload⟩

theorem trueIsStored_of_findsSlot (hslot : FindsSlot seg name) :
    TrueIsStored seg name data out := by
  intro _
  have hflag := initialized_initFlag seg
  cases hfind : findApp name.1 (initialized seg) with
  | some i =>
      rw [perform, set_found hfind]
      refine get_payload i ?_ ?_ ?_
      · exact hflag
      · exact (findApp_congr rfl).trans hfind
      · dsimp only
        rw [Function.update_self]
  | none =>
      obtain ⟨i, hfree⟩ := Option.isSome_iff_exists.mp (hslot.resolve_left (by simp [hfind]))
      rw [perform, set_free hfind hfree]
      refine get_payload i ?_ ?_ ?_
      · exact hflag
      · -- no other slot has the name that this one has just been given
        refine firstSlot_eq_some_of_unique ?_ fun j hj => ?_
        · dsimp only
          rw [Function.update_self, str_strcpy_appName]
        · by_contra hne
          dsimp only at hj
          rw [Function.update_of_ne hne] at hj
          exact findApp_eq_none_iff.mp hfind j hj
      · dsimp only
        rw [Function.update_self]
        rfl

/-- Without a slot the set changes nothing, and the get finds nothing. -/
theorem not_trueIsStored (hslot : ¬ FindsSlot seg name) : ¬ TrueIsStored seg name data out := by
  rw [FindsSlot, not_or, Option.not_isSome_iff_eq_none, Option.not_isSome_iff_eq_none] at hslot
  obtain ⟨hnone, hfull⟩ := hslot
  intro hstored
  rw [TrueIsStored, perform, set_full hnone hfull] at hstored
  obtain ⟨htrue, _⟩ := hstored rfl
  have hsame := initialized_of_initFlag (initialized_initFlag seg)
  rw [get_absent (hsame.symm ▸ hnone)] at htrue
  exact absurd htrue (show mdsShmFalse ≠ mdsShmTrue by decide)

/-- In every state, an update that is reported as made has been made exactly when the name
is stored already or a slot is free. -/
theorem trueIsStored_iff (seg : Segment) (name : AppName) (data out : PerAppData) :
    TrueIsStored seg name data out ↔ FindsSlot seg name := by
  constructor
  · intro hstored
    by_contra hslot
    exact not_trueIsStored hslot hstored
  · exact trueIsStored_of_findsSlot

/-- The name of `n` letters. -/
def letters (n : Fin 123) : AppName :=
  ⟨List.replicate n 97, fun h => absurd (List.eq_of_mem_replicate h) (by decide),
    by rw [List.length_replicate]; exact Nat.le_of_lt_succ n.isLt⟩

/-- Ten applications have stored a record. -/
def tenStored : Segment :=
  [1, 2, 3, 4, 5, 6, 7, 8, 9, 10].foldl
    (fun seg n => perform seg (.set (letters n) PerAppData.zero)) Segment.zero

/-- The eleventh application's record is dropped, and it is told `MDS_SHM_TRUE`. -/
theorem trueIsStored_dropped :
    ¬ TrueIsStored tenStored (letters 11) PerAppData.zero PerAppData.zero := by
  decide +kernel

end MdsFormal.Shm.PerAppUpdates
