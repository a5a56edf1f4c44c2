import MdsFormal.Library.CString
import MdsFormal.Library.Occurrence

/-!
# Bounded substring search

`mds_api_strnstr` looks for the first character of `find`, counts down the length that is
left, and compares the tail of `find` only.  It finds what a search from the front finds in
the first `str_len` characters.
-/

namespace MdsFormal.Text.Strnstr

open MdsFormal.Library.CString
open MdsFormal.Library.Occurrence

/-! ## The code -/

/-- The nested loops; both go on with the same read.  `find` is what is behind its first
character `c`, `offset` is where `str` points, from the string that was given.  The result of
`str_len--` is not used where the loop ends on it. -/
def search (c : UInt8) (find : List UInt8) : List UInt8 → Int → Nat → Option Nat
  | [], _, _ => none
  | sc :: str, strLen, offset =>
      if strLen < 1 then none
      else if sc ≠ c then search c find str (strLen - 1) (offset + 1)
      else if strLen - 1 < find.length then none
      else if strncmp find.length str find ≠ 0 then search c find str (strLen - 1) (offset + 1)
      else some offset

/-- `mds_api_strnstr`: the offset of the pointer in `str`, or nothing for `NULL`. -/
def mdsApiStrnstr (str find : Str) (strLen : Int) : Option Nat :=
  match find.val with
  | [] => some 0
  | c :: rest => search c rest str.val strLen 0

/-! ## The loops -/

theorem strncmp_tail_iff {str find : List UInt8} (hstr : 0 ∉ str) (hfind : 0 ∉ find) :
    strncmp find.length str find = 0 ↔ find <+: str := by
  rw [strncmp_eq_zero_iff, takeWhile_of_not_mem hstr, takeWhile_of_not_mem hfind,
    List.take_length, List.prefix_iff_eq_take]
  exact eq_comm

/-- An offset that is counted from the next character. -/
theorem map_next (offset : Nat) (found : Option Nat) :
    found.map (offset + 1 + ·) = (found.map (· + 1)).map (offset + ·) := by
  cases found with
  | none => rfl
  | some i =>
      have hsum : offset + 1 + i = offset + (i + 1) := by omega
      exact congrArg some hsum

/-- What is left when the first character has matched. -/
theorem cons_prefix_take_iff {c : UInt8} {find str : List UInt8} (left : Nat) :
    c :: find <+: c :: str.take left ↔ find <+: str ∧ find.length ≤ left := by
  rw [List.cons_prefix_cons, List.prefix_take_iff, and_iff_right rfl]

/-- Behind a first character that matches, the tail is compared if it can fit, and where it does
not match the search goes on. -/
theorem first_matched {c : UInt8} {find str : List UInt8} (hfind : 0 ∉ find) (hstr : 0 ∉ str)
    (left offset : Nat) :
    (if (left : Int) < find.length then none
      else if strncmp find.length str find ≠ 0 then
        ((occurrence (c :: find) (str.take left)).map (· + 1)).map (offset + ·)
      else some offset) =
      (occurrence (c :: find) (c :: str.take left)).map (offset + ·) := by
  rw [occurrence_cons]
  rcases Nat.lt_or_ge left find.length with hshort | hroom
  · have hlength : (str.take left).length < (c :: find).length := by
      rw [List.length_take, List.length_cons]
      omega
    have hover : ¬c :: find <+: c :: str.take left := by
      intro hstands
      have hfits := ((cons_prefix_take_iff left).mp hstands).2
      omega
    rw [if_pos (by omega), occurrence_of_short hlength, if_neg hover]
    rfl
  · rw [if_neg (by omega)]
    rcases Decidable.em (find <+: str) with hstands | hstands
    · rw [if_neg (not_not_intro ((strncmp_tail_iff hstr hfind).mpr hstands)),
        if_pos ((cons_prefix_take_iff left).mpr ⟨hstands, hroom⟩)]
      rfl
    · rw [if_pos (mt (strncmp_tail_iff hstr hfind).mp hstands),
        if_neg (fun hboth => hstands ((cons_prefix_take_iff left).mp hboth).1)]

/-- The loops find the first occurrence in what the length leaves of the string. -/
theorem search_eq {c : UInt8} {find : List UInt8} (hfind : 0 ∉ find) (str : List UInt8)
    (hstr : 0 ∉ str) (strLen : Int) (offset : Nat) :
    search c find str strLen offset =
      (occurrence (c :: find) (str.take strLen.toNat)).map (offset + ·) := by
  induction str generalizing strLen offset with
  | nil =>
      rw [List.take_nil]
      rfl
  | cons sc str ih =>
      have htail : 0 ∉ str := fun hmem => hstr (List.mem_cons_of_mem sc hmem)
      rw [search]
      rcases Int.lt_or_le strLen 1 with hend | hmore
      · have hnone : strLen.toNat = 0 := by omega
        rw [if_pos hend, hnone, List.take_zero]
        rfl
      · obtain ⟨left, hleft⟩ : ∃ left : Nat, strLen - 1 = left := ⟨(strLen - 1).toNat, by omega⟩
        have htake : strLen.toNat = left + 1 := by omega
        rw [if_neg (by omega), hleft, htake, List.take_succ_cons, ih htail, Int.toNat_natCast,
          map_next]
        rcases Decidable.em (sc = c) with rfl | hc
        · rw [if_neg (not_not_intro rfl), first_matched hfind htail]
        · rw [if_pos hc, occurrence_cons,
            if_neg (fun hboth => hc (List.cons_prefix_cons.mp hboth).1.symm)]

/-! ## The naive search -/

/-- `find` stands at offset `i` of `str`, and ends within `strLen` and the string. -/
def OccursWithin (str find : Str) (strLen : Int) (i : Nat) : Prop :=
  (i + find.val.length : Int) ≤ min strLen str.val.length ∧ find.val <+: str.val.drop i

theorem occursWithin_iff {str find : Str} (hne : find.val ≠ []) (strLen : Int) (i : Nat) :
    OccursWithin str find strLen i ↔ find.val <+: (str.val.take strLen.toNat).drop i := by
  have hpos := List.length_pos_iff.mpr hne
  rw [OccursWithin, prefix_drop_take_iff hne, and_comm]
  refine and_congr_right fun hstands => ?_
  have hlength := hstands.length_le
  rw [List.length_drop] at hlength
  omega

/-- `mds_api_strnstr` gives the smallest offset at which `find` stands within the limit. -/
theorem mdsApiStrnstr_smallest (str find : Str) (strLen : Int) :
    if find.val = [] then mdsApiStrnstr str find strLen = some 0
    else
      (∀ i, mdsApiStrnstr str find strLen = some i ↔
        OccursWithin str find strLen i ∧ ∀ j < i, ¬OccursWithin str find strLen j) ∧
      (mdsApiStrnstr str find strLen = none ↔ ∀ i, ¬OccursWithin str find strLen i) := by
  obtain ⟨find, hfind⟩ := find
  cases find with
  | nil => exact rfl
  | cons c rest =>
      have hne : c :: rest ≠ [] := List.cons_ne_nil c rest
      have hsearch : mdsApiStrnstr str ⟨c :: rest, hfind⟩ strLen =
          occurrence (c :: rest) (str.val.take strLen.toNat) := by
        have hrest : 0 ∉ rest := fun hmem => hfind (List.mem_cons_of_mem c hmem)
        refine (search_eq hrest str.val str.property strLen 0).trans ?_
        simp only [Nat.zero_add, Option.map_id']
      rw [if_neg hne, hsearch]
      simp only [@occursWithin_iff str ⟨c :: rest, hfind⟩ hne]
      refine ⟨fun i => ?_, occurrence_eq_none_iff⟩
      rw [occurrence_eq_some_iff]
      exact ⟨fun hfirst => ⟨hfirst.occurs, hfirst.least⟩, fun hboth => ⟨hboth.1, hboth.2⟩⟩

end MdsFormal.Text.Strnstr
