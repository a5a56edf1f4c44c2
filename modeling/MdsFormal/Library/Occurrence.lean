/-!
# The first occurrence of a list in another

Search from the front, and the least offset at which a list stands in another one.
-/

namespace MdsFormal.Library.Occurrence

variable {α : Type}

/-- `needle` stands at offset `i`, and at no smaller one. -/
structure FirstAt (needle hay : List α) (i : Nat) : Prop where
  occurs : needle <+: hay.drop i
  least : ∀ j < i, ¬needle <+: hay.drop j

variable {needle hay rest : List α} {a : α} {i : Nat}

theorem FirstAt.unique {j : Nat} (hi : FirstAt needle hay i) (hj : FirstAt needle hay j) :
    i = j := by
  rcases Nat.lt_trichotomy i j with hlt | heq | hgt
  · exact absurd hi.occurs (hj.least i hlt)
  · exact heq
  · exact absurd hj.occurs (hi.least j hgt)

/-- The text around the first occurrence. -/
theorem FirstAt.split (hfirst : FirstAt needle hay i) :
    hay.take i ++ (needle ++ hay.drop (i + needle.length)) = hay := by
  have hdrop : needle ++ hay.drop (i + needle.length) = hay.drop i := by
    rw [← List.drop_drop]
    exact List.prefix_iff_eq_append.mp hfirst.occurs
  rw [hdrop, List.take_append_drop]

theorem FirstAt.length_le (hfirst : FirstAt needle hay i) : i + needle.length ≤ hay.length := by
  have hlength := hfirst.occurs.length_le
  rw [List.length_drop] at hlength
  cases needle with
  | nil =>
      cases i with
      | zero => exact Nat.zero_le _
      | succ i => exact absurd List.nil_prefix (hfirst.least 0 (Nat.succ_pos i))
  | cons a rest =>
      rw [List.length_cons] at hlength ⊢
      omega

/-- Standing in the front of a list is standing in it, not beyond the front. -/
theorem prefix_drop_take_iff (hne : needle ≠ []) (limit : Nat) :
    needle <+: (hay.take limit).drop i ↔
      needle <+: hay.drop i ∧ i + needle.length ≤ limit := by
  have hpos := List.length_pos_iff.mpr hne
  rw [List.drop_take, List.prefix_take_iff]
  exact and_congr_right fun _ => by omega

/-! ## The search -/

variable [DecidableEq α]

/-- The least offset at which `needle` stands in the list. -/
def occurrence (needle : List α) : List α → Option Nat
  | [] => if needle = [] then some 0 else none
  | a :: rest =>
      if needle.isPrefixOf (a :: rest) then some 0 else (occurrence needle rest).map (· + 1)

theorem occurrence_cons (needle : List α) (a : α) (rest : List α) :
    occurrence needle (a :: rest) =
      if needle <+: a :: rest then some 0 else (occurrence needle rest).map (· + 1) := by
  simp only [occurrence, List.isPrefixOf_iff_prefix]

/-- What the search finds is the first offset. -/
theorem occurrence_first (hfound : occurrence needle hay = some i) : FirstAt needle hay i := by
  induction hay generalizing i with
  | nil =>
      rw [occurrence] at hfound
      split at hfound
      · rename_i hempty
        cases hfound
        refine ⟨hempty ▸ List.nil_prefix, fun j hj => ?_⟩
        cases hj
      · cases hfound
  | cons a rest ih =>
      rw [occurrence_cons] at hfound
      split at hfound
      · rename_i hstands
        cases hfound
        refine ⟨hstands, fun j hj => ?_⟩
        cases hj
      · rename_i hstands
        obtain ⟨k, hk, rfl⟩ := Option.map_eq_some_iff.mp hfound
        have hrest := ih hk
        refine ⟨hrest.occurs, fun j hj => ?_⟩
        cases j with
        | zero => exact hstands
        | succ j => exact hrest.least j (Nat.lt_of_succ_lt_succ hj)

/-- The search gives up only where there is nothing to find. -/
theorem occurrence_none (hnone : occurrence needle hay = none) (i : Nat) :
    ¬needle <+: hay.drop i := by
  induction hay generalizing i with
  | nil =>
      rw [occurrence] at hnone
      split at hnone
      · cases hnone
      · rename_i hsome
        rw [List.drop_nil, List.prefix_nil]
        exact hsome
  | cons a rest ih =>
      rw [occurrence_cons] at hnone
      split at hnone
      · cases hnone
      · rename_i hstands
        cases i with
        | zero => exact hstands
        | succ i => exact ih (Option.map_eq_none_iff.mp hnone) i

theorem occurrence_eq_some_iff : occurrence needle hay = some i ↔ FirstAt needle hay i := by
  refine ⟨occurrence_first, fun hfirst => ?_⟩
  cases hfound : occurrence needle hay with
  | none => exact absurd hfirst.occurs (occurrence_none hfound i)
  | some j => rw [hfirst.unique (occurrence_first hfound)]

theorem occurrence_eq_none_iff :
    occurrence needle hay = none ↔ ∀ i, ¬needle <+: hay.drop i := by
  refine ⟨occurrence_none, fun hnone => ?_⟩
  cases hfound : occurrence needle hay with
  | none => rfl
  | some i => exact absurd (occurrence_first hfound).occurs (hnone i)

theorem infix_iff_occurrence : needle <:+: hay ↔ ∃ i, occurrence needle hay = some i := by
  constructor
  · rintro ⟨before, after, htext⟩
    cases hfound : occurrence needle hay with
    | none =>
        refine absurd ?_ (occurrence_none hfound before.length)
        rw [← htext, List.append_assoc, List.drop_left]
        exact List.prefix_append _ _
    | some i => exact ⟨i, rfl⟩
  · rintro ⟨i, hfound⟩
    exact ⟨_, _, (List.append_assoc _ _ _).trans (occurrence_first hfound).split⟩

/-- A list that is too short does not hold the needle. -/
theorem occurrence_of_short (hshort : hay.length < needle.length) : occurrence needle hay = none := by
  refine occurrence_eq_none_iff.mpr fun i hstands => ?_
  have hlength := hstands.length_le
  rw [List.length_drop] at hlength
  omega

end MdsFormal.Library.Occurrence
