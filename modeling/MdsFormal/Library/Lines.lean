import Mathlib.Data.List.Infix
import Mathlib.Data.Nat.ModEq

/-!
# Texts read in pieces

A reader with room for some elements takes them up to the end of a line at most.  What it takes
one time after the other is the text, cut behind the ends of its lines and, within a line, each
time the room was full.
-/

namespace MdsFormal.Library.Lines

variable {α : Type} [DecidableEq α]

/-- The front of a text: as many elements as there is room for, and none behind a `stop`. -/
def piece (stop : α) : Nat → List α → List α
  | 0, _ => []
  | _ + 1, [] => []
  | room + 1, a :: rest => if a = stop then [a] else a :: piece stop room rest

/-- Piece after piece, with fuel for the number of pieces. -/
def piecesFrom (stop : α) (room : Nat) : Nat → List α → List (List α)
  | 0, _ => []
  | fuel + 1, text =>
      if text = [] then []
      else
        let taken := piece stop room text
        taken :: piecesFrom stop room fuel (text.drop taken.length)

def pieces (stop : α) (room : Nat) (text : List α) : List (List α) :=
  piecesFrom stop room text.length text

/-- Reading one element on. -/
def nextColumn (stop : α) (column : Nat) (a : α) : Nat := if a = stop then 0 else column + 1

/-- How far the end of a text is from the beginning of its line. -/
def column (stop : α) (text : List α) : Nat := text.foldl (nextColumn stop) 0

/-! ## One piece -/

/-- A text cut behind its first piece, whose last element is split off. -/
structure Cut (stop : α) (room : Nat) (front : List α) (last : α) (rest : List α) : Prop where
  before_stop : stop ∉ front
  in_room : front.length < room
  ends : rest = [] ∨ front.length + 1 = room ∨ last = stop

section

variable {stop last : α} {room : Nat} {front rest text word : List α}

omit [DecidableEq α] in
theorem Cut.cons_iff {a : α} (ha : a ≠ stop) :
    Cut stop (room + 1) (a :: front) last rest ↔ Cut stop room front last rest := by
  constructor
  · rintro ⟨hbefore, hroom, hends⟩
    exact ⟨fun hmem => hbefore (List.mem_cons_of_mem a hmem), Nat.lt_of_succ_lt_succ hroom,
      hends.imp_right fun hends => hends.imp_left Nat.succ.inj⟩
  · rintro ⟨hbefore, hroom, hends⟩
    exact ⟨List.not_mem_cons_of_ne_of_not_mem (Ne.symm ha) hbefore, Nat.succ_lt_succ hroom,
      hends.imp_right fun hends => hends.imp_left (congrArg Nat.succ)⟩

theorem exists_cut (stop : α) (hroom : 0 < room) (hne : text ≠ []) :
    ∃ front last rest, text = front ++ last :: rest ∧ Cut stop room front last rest := by
  induction room generalizing text with
  | zero => exact absurd hroom (Nat.lt_irrefl 0)
  | succ room ih =>
      obtain ⟨a, more, rfl⟩ := List.exists_cons_of_ne_nil hne
      have hfirst (hends : more = [] ∨ 0 + 1 = room + 1 ∨ a = stop) :
          Cut stop (room + 1) [] a more := ⟨List.not_mem_nil, Nat.succ_pos room, hends⟩
      by_cases ha : a = stop
      · exact ⟨[], a, more, rfl, hfirst (.inr (.inr ha))⟩
      rcases Nat.eq_zero_or_pos room with rfl | hmore
      · exact ⟨[], a, more, rfl, hfirst (.inr (.inl rfl))⟩
      rcases eq_or_ne more [] with rfl | hnext
      · exact ⟨[], a, [], rfl, hfirst (.inl rfl)⟩
      · obtain ⟨front, last, rest, rfl, hcut⟩ := ih hmore hnext
        exact ⟨a :: front, last, rest, rfl, (Cut.cons_iff ha).mpr hcut⟩

/-- A cut is where the reader stops. -/
theorem Cut.piece_eq (hcut : Cut stop room front last rest) :
    piece stop room (front ++ last :: rest) = front ++ [last] := by
  induction front generalizing room with
  | nil =>
      obtain ⟨more, rfl⟩ := Nat.exists_eq_succ_of_ne_zero (Nat.ne_of_gt hcut.in_room)
      rw [List.nil_append, piece]
      by_cases hlast : last = stop
      · rw [if_pos hlast]
        rfl
      · have hnothing : piece stop more rest = [] := by
          rcases hcut.ends with rfl | hfull | hstop
          · cases more <;> rfl
          · cases hfull
            rfl
          · exact absurd hstop hlast
        rw [if_neg hlast, hnothing]
        rfl
  | cons a front ih =>
      have hroom : room ≠ 0 := Nat.ne_of_gt (Nat.zero_lt_of_lt hcut.in_room)
      obtain ⟨more, rfl⟩ := Nat.exists_eq_succ_of_ne_zero hroom
      have ha : a ≠ stop := fun heq => hcut.before_stop (heq ▸ List.mem_cons_self)
      rw [List.cons_append, piece, if_neg ha, ih ((Cut.cons_iff ha).mp hcut)]
      rfl

/-! ## All pieces -/

theorem Cut.piecesFrom_eq (hcut : Cut stop room front last rest) (fuel : Nat) :
    piecesFrom stop room (fuel + 1) (front ++ last :: rest) =
      (front ++ [last]) :: piecesFrom stop room fuel rest := by
  have hne : front ++ last :: rest ≠ [] := by simp
  have hsplit : front ++ last :: rest = (front ++ [last]) ++ rest := by simp
  rw [piecesFrom, if_neg hne, hcut.piece_eq]
  dsimp only
  rw [hsplit, List.drop_left]

theorem piecesFrom_nil (fuel : Nat) : piecesFrom stop room fuel [] = [] := by
  cases fuel <;> rfl

/-- With fuel for every element there is some for every piece. -/
theorem piecesFrom_congr (hroom : 0 < room) {fuel fuel' : Nat} (hfuel : text.length ≤ fuel)
    (hfuel' : text.length ≤ fuel') :
    piecesFrom stop room fuel text = piecesFrom stop room fuel' text := by
  induction fuel generalizing text fuel' with
  | zero =>
      obtain rfl : text = [] := List.eq_nil_of_length_eq_zero (Nat.le_zero.mp hfuel)
      rw [piecesFrom_nil, piecesFrom_nil]
  | succ fuel ih =>
      rcases eq_or_ne text [] with rfl | hne
      · rw [piecesFrom_nil, piecesFrom_nil]
      · obtain ⟨front, last, rest, rfl, hcut⟩ := exists_cut stop hroom hne
        rw [List.length_append, List.length_cons] at hfuel hfuel'
        obtain ⟨left, rfl⟩ : ∃ left, fuel' = left + 1 := ⟨fuel' - 1, by omega⟩
        rw [hcut.piecesFrom_eq, hcut.piecesFrom_eq,
          ih (by omega : rest.length ≤ fuel) (by omega : rest.length ≤ left)]

theorem Cut.pieces_eq (hcut : Cut stop room front last rest) :
    pieces stop room (front ++ last :: rest) = (front ++ [last]) :: pieces stop room rest := by
  have hroom : 0 < room := Nat.zero_lt_of_lt hcut.in_room
  have hlength : (front ++ last :: rest).length = front.length + rest.length + 1 := by
    rw [List.length_append, List.length_cons, Nat.add_assoc]
  unfold pieces
  rw [hlength, hcut.piecesFrom_eq, piecesFrom_congr hroom (Nat.le_add_left _ _) (Nat.le_refl _)]

/-- Short lines are read as they are. -/
theorem pieces_lines {lines : List (List α)} (hlines : ∀ line ∈ lines, stop ∉ line)
    (hshort : ∀ line ∈ lines, line.length < room) :
    pieces stop room (lines.flatMap (· ++ [stop])) = lines.map (· ++ [stop]) := by
  induction lines with
  | nil => rfl
  | cons line lines ih =>
      obtain ⟨hline, hlines⟩ := List.forall_mem_cons.mp hlines
      obtain ⟨hfits, hshort⟩ := List.forall_mem_cons.mp hshort
      have hcut : Cut stop room line stop (lines.flatMap (· ++ [stop])) :=
        ⟨hline, hfits, .inr (.inr rfl)⟩
      rw [List.flatMap_cons, List.append_assoc, List.singleton_append, hcut.pieces_eq,
        ih hlines hshort, List.map_cons]

/-! ## Words in the pieces -/

omit [DecidableEq α] in
/-- A word without the end of a line is not at it. -/
theorem infix_append_stop_iff (hword : stop ∉ word) :
    word <:+: text ++ [stop] ↔ word <:+: text := by
  rw [List.infix_concat_iff, List.suffix_concat_iff, or_iff_right_of_imp]
  rintro (rfl | ⟨more, rfl, -⟩)
  · exact List.nil_infix
  · exact absurd (List.mem_append_right more List.mem_cons_self) hword

theorem foldl_nextColumn_of_not_mem (hstop : stop ∉ text) (start : Nat) :
    text.foldl (nextColumn stop) start = start + text.length := by
  induction text generalizing start with
  | nil => rfl
  | cons a text ih =>
      have ha : a ≠ stop := fun heq => hstop (heq ▸ List.mem_cons_self)
      have htext : stop ∉ text := fun hmem => hstop (List.mem_cons_of_mem a hmem)
      rw [List.foldl_cons, nextColumn, if_neg ha, ih htext, List.length_cons]
      omega

theorem column_of_not_mem (hstop : stop ∉ text) : column stop text = text.length :=
  (foldl_nextColumn_of_not_mem hstop 0).trans (Nat.zero_add _)

theorem foldl_nextColumn_modEq (text : List α) {start start' : Nat}
    (hstart : start ≡ start' [MOD room]) :
    text.foldl (nextColumn stop) start ≡ text.foldl (nextColumn stop) start' [MOD room] := by
  induction text generalizing start start' with
  | nil => exact hstart
  | cons a text ih =>
      rw [List.foldl_cons, List.foldl_cons]
      apply ih
      unfold nextColumn
      split
      · exact Nat.ModEq.refl 0
      · exact hstart.add_right 1

/-- Where more is to be read, a piece ends at a column that is a multiple of the room. -/
theorem Cut.column_modEq (hcut : Cut stop room front last rest) (hmore : rest ≠ []) :
    column stop (front ++ [last]) ≡ 0 [MOD room] := by
  rw [column, List.foldl_append, ← column, column_of_not_mem hcut.before_stop]
  change nextColumn stop front.length last ≡ 0 [MOD room]
  unfold nextColumn
  split
  · exact Nat.ModEq.refl 0
  · rename_i hlast
    rcases hcut.ends with hend | hfull | hstop
    · exact absurd hend hmore
    · rw [hfull]
      exact Nat.modEq_zero_iff_dvd.mpr (Nat.dvd_refl room)
    · exact absurd hstop hlast

/-- Behind a piece the columns count from the start. -/
theorem Cut.column_append (hcut : Cut stop room front last rest) (hmore : rest ≠ [])
    (before : List α) :
    column stop (front ++ [last] ++ before) % room = column stop before % room := by
  rw [column, List.foldl_append]
  exact foldl_nextColumn_modEq before (hcut.column_modEq hmore)

/-- The word stands in the text, and the room is not full within it. -/
def StandsWithin (stop : α) (room : Nat) (word text : List α) : Prop :=
  ∃ before after, text = before ++ (word ++ after) ∧
    column stop before % room + word.length ≤ room

omit [DecidableEq α] in
/-- What comes before a nonempty word of a piece, and the word up to its last element. -/
theorem exists_front_eq {before after : List α} {w : α}
    (hpiece : front ++ [last] = before ++ (word ++ w :: after)) :
    ∃ more, front = before ++ (word ++ more) := by
  refine ⟨(w :: after).dropLast, ?_⟩
  have hfront : (front ++ [last]).dropLast = front := List.dropLast_concat
  rw [← hfront, hpiece, ← List.append_assoc,
    List.dropLast_append_of_ne_nil (List.cons_ne_nil w after), List.append_assoc]

/-- A word in a piece stands in the text, within its line. -/
theorem Cut.stands_of_infix {w : α} (hcut : Cut stop room front last rest)
    (hword : (word ++ [w]) <:+: (front ++ [last])) :
    stop ∉ word ∧ StandsWithin stop room (word ++ [w]) (front ++ last :: rest) := by
  obtain ⟨before, after, hpiece⟩ := hword
  have hsplit : front ++ [last] = before ++ (word ++ w :: after) := by
    rw [← hpiece]
    simp
  obtain ⟨more, rfl⟩ := exists_front_eq hsplit
  have hstop := hcut.before_stop
  have hroom := hcut.in_room
  rw [List.length_append, List.length_append] at hroom
  have hcolumn : column stop before = before.length :=
    column_of_not_mem fun hmem => hstop (List.mem_append_left _ hmem)
  refine ⟨fun hmem => hstop (List.mem_append_right _ (List.mem_append_left _ hmem)),
    before, after ++ rest, ?_, ?_⟩
  · calc before ++ (word ++ more) ++ last :: rest
        = (before ++ (word ++ more) ++ [last]) ++ rest := by simp
      _ = before ++ (word ++ [w] ++ (after ++ rest)) := by
        rw [← hpiece]
        simp
  · rw [hcolumn, Nat.mod_eq_of_lt (by omega), List.length_append, List.length_singleton]
    omega

/-- A word that begins in a piece, and ends in its line before the room is full, is in it. -/
theorem Cut.infix_of_stands {before after : List α} {w : α}
    (hcut : Cut stop room front last rest) (hstop : stop ∉ word)
    (htext : front ++ last :: rest = before ++ (word ++ [w] ++ after))
    (hbegins : before.length ≤ front.length)
    (hends : column stop before % room + (word ++ [w]).length ≤ room) :
    (word ++ [w]) <:+: (front ++ [last]) := by
  obtain ⟨more, rfl⟩ : before <+: front :=
    List.prefix_of_prefix_length_le ⟨_, htext.symm⟩ (List.prefix_append front _) hbegins
  have hrest : word ++ [w] ++ after = (more ++ [last]) ++ rest := by
    rw [List.append_assoc, List.append_cancel_left_eq] at htext
    rw [← htext]
    simp
  have hroom := hcut.in_room
  rw [List.length_append] at hroom
  have hcolumn : column stop before = before.length :=
    column_of_not_mem fun hmem => hcut.before_stop (List.mem_append_left _ hmem)
  rw [hcolumn, Nat.mod_eq_of_lt (by omega), List.length_append, List.length_singleton] at hends
  have hlengths := congrArg List.length hrest
  simp only [List.length_append, List.length_singleton] at hlengths
  have hfits : word.length ≤ more.length := by
    -- otherwise the piece would end within the word
    by_contra hlong
    have hinside : (more ++ [last]) <+: word := by
      refine List.prefix_of_prefix_length_le ⟨rest, hrest.symm⟩ ?_ ?_
      · rw [List.append_assoc]
        exact List.prefix_append word _
      · rw [List.length_append, List.length_singleton]
        omega
    rcases hcut.ends with rfl | hfull | rfl
    · rw [List.length_nil] at hlengths
      omega
    · rw [List.length_append] at hfull
      omega
    · exact hstop (hinside.mem (List.mem_append_right _ List.mem_cons_self))
  have hprefix : (word ++ [w]) <+: (more ++ [last]) := by
    refine List.prefix_of_prefix_length_le ⟨after, rfl⟩ ⟨rest, hrest.symm⟩ ?_
    rw [List.length_append, List.length_append]
    exact Nat.add_le_add_right hfits 1
  rw [List.append_assoc]
  exact List.infix_append_of_infix_right hprefix.isInfix

/-- The words that are read at once: they stand within a line, before the room is full. -/
theorem infix_piece_iff (hroom : 0 < room) (word : List α) (w : α) (text : List α) :
    (∃ taken ∈ pieces stop room text, (word ++ [w]) <:+: taken) ↔
      stop ∉ word ∧ StandsWithin stop room (word ++ [w]) text := by
  induction hlength : text.length using Nat.strong_induction_on generalizing text with
  | _ length ih =>
      subst hlength
      rcases eq_or_ne text [] with rfl | hne
      · refine iff_of_false ?_ ?_
        · rintro ⟨taken, htaken, -⟩
          cases htaken
        · rintro ⟨-, before, after, htext, -⟩
          simp at htext
      obtain ⟨front, last, rest, rfl, hcut⟩ := exists_cut stop hroom hne
      have hshorter : rest.length < (front ++ last :: rest).length := by
        rw [List.length_append, List.length_cons]
        omega
      rw [hcut.pieces_eq, List.exists_mem_cons_iff, ih rest.length hshorter rest rfl]
      constructor
      · rintro (hword | ⟨hstop, before, after, rfl, hends⟩)
        · exact hcut.stands_of_infix hword
        · refine ⟨hstop, front ++ [last] ++ before, after, by simp, ?_⟩
          rwa [hcut.column_append (by simp)]
      · rintro ⟨hstop, before, after, htext, hends⟩
        rcases Nat.lt_or_ge front.length before.length with hlater | hbegins
        · have hpiece : (front ++ [last]) <+: (front ++ last :: rest) := ⟨rest, by simp⟩
          obtain ⟨before, rfl⟩ : (front ++ [last]) <+: before := by
            refine List.prefix_of_prefix_length_le hpiece ⟨_, htext.symm⟩ ?_
            rw [List.length_append, List.length_singleton]
            omega
          have hrest : rest = before ++ (word ++ [w] ++ after) := by
            simpa using htext
          refine .inr ⟨hstop, before, after, hrest, ?_⟩
          rwa [hcut.column_append (by rw [hrest]; simp)] at hends
        · exact .inl (hcut.infix_of_stands hstop htext hbegins hends)

end

end MdsFormal.Library.Lines
