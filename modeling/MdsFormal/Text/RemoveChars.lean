import MdsFormal.Library.CString
import MdsFormal.Library.StoreTrace

/-!
# Copies without some characters

`mds_api_remove_cr`, `mds_api_remove_char` and `mds_api_remove_etc_char` share one loop,
which stores a kept character before it tests that there was room for it.  A string that
keeps too much is cut one character behind the end of the target.
-/

namespace MdsFormal.Text.RemoveChars

open MdsFormal.Library.Buffer
open MdsFormal.Library.CString
open MdsFormal.Library.StoreTrace

/-! ## The code -/

/-- The `while (*s)` loop of the three functions; `keep` is the test of one of them. -/
def removeLoop (keep : UInt8 → Bool) (targetLen : Int) : List UInt8 → Nat → Stores → Int × Stores
  | [], cnt, target => (cnt, target)
  | c :: rest, cnt, target =>
      if keep c then
        let target := target.store cnt c
        if targetLen < (cnt + 1 : Nat) then (-1, target)
        else removeLoop keep targetLen rest (cnt + 1) target
      else removeLoop keep targetLen rest cnt target

/-- `(*s != '\r') && (*s != '\n')` -/
def notCr (c : UInt8) : Bool := c ≠ 13 && c ≠ 10

/-- `*s >= 33 && *s <= 125`; no byte from 128 on passes it, with `char` signed or not. -/
def notEtc (c : UInt8) : Bool := 33 ≤ c && c ≤ 125

/-- `mds_api_strlen_without_cr` -/
def mdsApiStrlenWithoutCr (s : Str) : Int :=
  s.val.foldl (fun cnt c => if notCr c then cnt + 1 else cnt) 0

/-- `mds_api_remove_cr` -/
def mdsApiRemoveCr (s : Str) (target : Memory) (targetLen : Int) : Int × Stores :=
  removeLoop notCr targetLen s.val 0 (Stores.start target)

/-- `mds_api_remove_char` -/
def mdsApiRemoveChar (s : Str) (target : Memory) (targetLen : Int) (targChar : UInt8) :
    Int × Stores :=
  removeLoop (· ≠ targChar) targetLen s.val 0 (Stores.start target)

/-- `mds_api_remove_etc_char`; nothing is a null pointer, and what is left behind one is
nothing too. -/
def mdsApiRemoveEtcChar (s : Option Str) (target : Option Memory) (targetLen : Int) :
    Int × Option Stores :=
  match s, target with
  | none, target => (-1, target.map Stores.start)
  | some _, none => (-1, none)
  | some s, some target =>
      let (ret, target) := removeLoop notEtc targetLen s.val 0 (Stores.start target)
      (ret, some target)

/-! ## The loop -/

/-- The whole of what the loop does, in terms of the kept characters. -/
theorem removeLoop_eq (keep : UInt8 → Bool) (targetLen : Nat) (s : List UInt8) (cnt : Nat)
    (target : Stores) (hroom : cnt ≤ targetLen) :
    removeLoop keep targetLen s cnt target =
      if cnt + (s.filter keep).length ≤ targetLen then
        (((cnt + (s.filter keep).length : Nat) : Int), target.storeAll cnt (s.filter keep))
      else (-1, target.storeAll cnt ((s.filter keep).take (targetLen - cnt + 1))) := by
  induction s generalizing cnt target with
  | nil =>
      rw [List.filter_nil, List.length_nil, Nat.add_zero, if_pos hroom]
      rfl
  | cons c rest ih =>
      cases hkeep : keep c with
      | false =>
          rw [removeLoop, hkeep, List.filter_cons_of_neg (by simp [hkeep])]
          exact ih cnt target hroom
      | true =>
          rw [removeLoop, hkeep, List.filter_cons_of_pos hkeep, List.length_cons, if_pos rfl]
          dsimp only
          rcases Nat.lt_or_ge targetLen (cnt + 1) with hfull | hmore
          · have hlast : targetLen - cnt + 1 = 0 + 1 := by omega
            rw [if_pos (by omega), if_neg (by omega), hlast, List.take_succ_cons, List.take_zero]
            rfl
          · have hleft : targetLen - cnt + 1 = (targetLen - (cnt + 1) + 1) + 1 := by omega
            have hsum : cnt + ((rest.filter keep).length + 1) =
                cnt + 1 + (rest.filter keep).length := by omega
            rw [if_neg (by omega), ih (cnt + 1) _ hmore, hsum, hleft, List.take_succ_cons]
            rfl

/-! ## Filtering copies -/

/-- What a filtering copy into `targetLen` bytes is to do with the characters it keeps. -/
structure Copies (kept : List UInt8) (targetLen : Int) (ret : Int) (target : Stores) : Prop where
  copied : (kept.length : Int) ≤ targetLen → ret = kept.length ∧ Holds target.memory 0 kept
  refused : targetLen < kept.length → ret = -1
  within : target.Within targetLen

/-- Where the loop gives up, the byte behind the target was stored to, and none behind that. -/
theorem removeLoop_overrun (keep : UInt8 → Bool) (targetLen : Nat) (s : List UInt8)
    (target : Memory) (hlong : targetLen < (s.filter keep).length) (index : Nat) :
    index ∈ (removeLoop keep targetLen s 0 (Stores.start target)).2.stored ↔ index ≤ targetLen := by
  rw [removeLoop_eq keep targetLen s 0 _ (Nat.zero_le _), Nat.zero_add, if_neg (by omega),
    mem_stored_storeAll, Nat.sub_zero, List.length_take_of_le hlong]
  constructor
  · rintro (hnone | ⟨-, hindex⟩)
    · cases hnone
    · omega
  · intro hindex
    exact Or.inr ⟨Nat.zero_le _, by omega⟩

/-- The loop copies as it should unless it keeps more than the target holds. -/
theorem removeLoop_copies_iff (keep : UInt8 → Bool) (targetLen : Nat) (s : List UInt8)
    (target : Memory) :
    Copies (s.filter keep) targetLen (removeLoop keep targetLen s 0 (Stores.start target)).1
        (removeLoop keep targetLen s 0 (Stores.start target)).2 ↔
      (s.filter keep).length ≤ targetLen := by
  rcases Nat.lt_or_ge targetLen (s.filter keep).length with hlong | hfits
  · refine iff_of_false (fun hcopies => ?_) (by omega)
    have hstored := (removeLoop_overrun keep targetLen s target hlong targetLen).mpr (Nat.le_refl _)
    exact absurd (hcopies.within targetLen hstored) (Int.lt_irrefl _)
  · rw [removeLoop_eq keep targetLen s 0 _ (Nat.zero_le _), Nat.zero_add, if_pos hfits]
    refine iff_of_true ⟨fun _ => ⟨rfl, storeAll_holds⟩, fun hlong => ?_, ?_⟩ hfits
    · omega
    · exact (storeAll_start_within_iff target).mpr (Or.inr (by exact_mod_cast hfits))

theorem strlenWithoutCr_eq (s : Str) :
    mdsApiStrlenWithoutCr s = (s.val.filter notCr).length := by
  have hcount : ∀ (string : List UInt8) (cnt : Int),
      string.foldl (fun cnt c => if notCr c then cnt + 1 else cnt) cnt =
        cnt + (string.filter notCr).length := by
    intro string
    induction string with
    | nil => exact fun cnt => (Int.add_zero cnt).symm
    | cons c rest ih =>
        intro cnt
        rw [List.foldl_cons, ih, List.filter_cons]
        cases notCr c with
        | false => rfl
        | true =>
            rw [if_pos rfl, if_pos rfl, List.length_cons]
            omega
  rw [mdsApiStrlenWithoutCr, hcount, Int.zero_add]

/-! ## The three functions -/

/-- `mds_api_remove_cr` copies, and returns what `mds_api_strlen_without_cr` counts. -/
def RemovesCr (s : Str) (target : Memory) (targetLen : Int) : Prop :=
  Copies (s.val.filter notCr) targetLen (mdsApiRemoveCr s target targetLen).1
      (mdsApiRemoveCr s target targetLen).2 ∧
    ((s.val.filter notCr).length ≤ targetLen →
      (mdsApiRemoveCr s target targetLen).1 = mdsApiStrlenWithoutCr s)

def RemovesChar (s : Str) (target : Memory) (targetLen : Int) (targChar : UInt8) : Prop :=
  Copies (s.val.filter (· ≠ targChar)) targetLen (mdsApiRemoveChar s target targetLen targChar).1
    (mdsApiRemoveChar s target targetLen targChar).2

def RemovesEtcChar (s : Str) (target : Memory) (targetLen : Int) : Prop :=
  ∃ left, (mdsApiRemoveEtcChar (some s) (some target) targetLen).2 = some left ∧
    Copies (s.val.filter notEtc) targetLen
      (mdsApiRemoveEtcChar (some s) (some target) targetLen).1 left

theorem removesEtcChar_iff (s : Str) (target : Memory) (targetLen : Nat) :
    RemovesEtcChar s target targetLen ↔ (s.val.filter notEtc).length ≤ targetLen := by
  rw [← removeLoop_copies_iff notEtc targetLen s.val target]
  constructor
  · rintro ⟨left, hleft, hcopies⟩
    cases hleft
    exact hcopies
  · intro hcopies
    exact ⟨_, rfl, hcopies⟩

/-- Each of the three copies as it should exactly when what it keeps fits the target. -/
theorem removers_copy_iff (s : Str) (target : Memory) (targetLen : Nat) (targChar : UInt8) :
    (RemovesCr s target targetLen ↔ (s.val.filter notCr).length ≤ targetLen) ∧
      (RemovesChar s target targetLen targChar ↔
        (s.val.filter (· ≠ targChar)).length ≤ targetLen) ∧
      (RemovesEtcChar s target targetLen ↔ (s.val.filter notEtc).length ≤ targetLen) := by
  refine ⟨?_, removeLoop_copies_iff _ targetLen s.val target, removesEtcChar_iff s target targetLen⟩
  constructor
  · rintro ⟨hcopies, -⟩
    exact (removeLoop_copies_iff notCr targetLen s.val target).mp hcopies
  · intro hfits
    have hcopies := (removeLoop_copies_iff notCr targetLen s.val target).mpr hfits
    refine ⟨hcopies, fun hlength => ?_⟩
    rw [strlenWithoutCr_eq]
    exact (hcopies.copied hlength).1

/-- One character is stored into a target without room. -/
theorem removers_overrun_empty_target :
    ¬∀ (s : Str) (target : Memory) (targetLen : Nat) (targChar : UInt8),
      RemovesCr s target targetLen ∧ RemovesChar s target targetLen targChar ∧
        RemovesEtcChar s target targetLen := by
  intro hall
  obtain ⟨⟨hcopies, -⟩, -, -⟩ := hall ⟨ascii "a", by decide⟩ (fun _ => 0) 0 0
  have hzero := hcopies.within 0 List.mem_cons_self
  omega

end MdsFormal.Text.RemoveChars
