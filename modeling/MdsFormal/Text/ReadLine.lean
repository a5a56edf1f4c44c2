import Mathlib.Data.List.Basic
import MdsFormal.Library.StoreTrace

/-!
# Splitting a buffer into lines

`mds_api_read_line` tests the copy index against the length of the target before it stores,
but lets it be equal, and it counts one past the last byte also where no CR or LF stopped it.
Reading line after line is right for text whose lines all fit and all end.
-/

namespace MdsFormal.Text.ReadLine

open MdsFormal.Library.Buffer
open MdsFormal.Library.StoreTrace

/-! ## The code -/

/-- `(c == '\r') || (c == '\n')` -/
def isEnd (c : UInt8) : Bool := c = 13 || c = 10

/-- The `for` loop and the `return` behind it. -/
def readLoop (buffLen : Int) : List UInt8 → Nat → Nat → Stores → Int × Stores
  | [], i, _, buff => ((i + 1 : Nat), buff)
  | c :: rest, i, j, buff =>
      if isEnd c then ((i + 1 : Nat), buff)
      else if buffLen < j then (-1, buff)
      else readLoop buffLen rest (i + 1) (j + 1) (buff.store j c)

/-- `mds_api_read_line`, with the length of the list as `cmd_len`. -/
def mdsApiReadLine (cmd : List UInt8) (buff : Memory) (buffLen : Int) : Int × Stores :=
  readLoop buffLen cmd 0 0 (Stores.start buff)

/-! ## Lines -/

/-- The bytes before the first CR or LF. -/
def line (cmd : List UInt8) : List UInt8 := cmd.takeWhile (!isEnd ·)

/-- The CR or LF behind the line, if there is one. -/
def terminator (cmd : List UInt8) : List UInt8 := (cmd.dropWhile (!isEnd ·)).take 1

/-- The offset of the next line. -/
def nextOffset (cmd : List UInt8) : Nat := (line cmd).length + (terminator cmd).length

theorem not_isEnd_of_mem_line {cmd : List UInt8} : ∀ c ∈ line cmd, isEnd c = false := by
  intro c hmem
  have hall := List.all_eq_true.mp List.all_takeWhile c hmem
  simpa using hall

/-- Text is one line, or a line, its terminator and more. -/
theorem line_cases (cmd : List UInt8) :
    (line cmd = cmd ∧ terminator cmd = []) ∨
      ∃ c rest, isEnd c = true ∧ terminator cmd = [c] ∧ cmd = line cmd ++ c :: rest := by
  induction cmd with
  | nil => exact Or.inl ⟨rfl, rfl⟩
  | cons a more ih =>
      cases ha : isEnd a with
      | true => exact Or.inr ⟨a, more, ha, by simp [terminator, ha], by simp [line, ha]⟩
      | false =>
          have hline : line (a :: more) = a :: line more := by simp [line, ha]
          have hend : terminator (a :: more) = terminator more := by simp [terminator, ha]
          rw [hline, hend]
          rcases ih with ⟨hwhole, hnone⟩ | ⟨c, rest, hc, hsome, hmore⟩
          · exact Or.inl ⟨congrArg (a :: ·) hwhole, hnone⟩
          · exact Or.inr ⟨c, rest, hc, hsome, congrArg (a :: ·) hmore⟩

/-- The line, its terminator and what is read next. -/
theorem line_next (cmd : List UInt8) :
    line cmd ++ terminator cmd ++ cmd.drop (nextOffset cmd) = cmd := by
  have hdrop : ∀ {front back : List UInt8}, front ++ back = cmd →
      cmd.drop front.length = back := by
    rintro front back rfl
    exact List.drop_left
  rcases line_cases cmd with ⟨hwhole, hnone⟩ | ⟨c, rest, -, hc, hcmd⟩
  · rw [nextOffset, hnone, hwhole, List.append_nil, List.length_nil, Nat.add_zero,
      List.drop_length, List.append_nil]
  · have hfront : line cmd ++ terminator cmd ++ rest = cmd := by
      rw [hc, List.append_assoc]
      exact hcmd.symm
    rw [nextOffset, ← List.length_append, hdrop hfront, hfront]

/-- A line that ends is followed by its terminator and the next line. -/
theorem line_ended {cmd : List UInt8} (hsome : terminator cmd ≠ []) :
    ∃ c, isEnd c = true ∧ nextOffset cmd = (line cmd).length + 1 ∧
      line cmd ++ c :: cmd.drop (nextOffset cmd) = cmd := by
  rcases line_cases cmd with ⟨-, hnone⟩ | ⟨c, -, hc, hterminator, -⟩
  · exact absurd hnone hsome
  · have hnext := line_next cmd
    rw [hterminator, List.append_assoc] at hnext
    refine ⟨c, hc, ?_, hnext⟩
    rw [nextOffset, hterminator, List.length_singleton]

theorem terminator_ne_nil_iff (cmd : List UInt8) :
    terminator cmd ≠ [] ↔ ∃ c ∈ cmd, isEnd c = true := by
  rcases line_cases cmd with ⟨hwhole, hnone⟩ | ⟨c, rest, hc, hsome, hcmd⟩
  · rw [hnone]
    refine iff_of_false (fun h => h rfl) ?_
    rintro ⟨c, hmem, hc⟩
    rw [not_isEnd_of_mem_line c (hwhole.symm ▸ hmem)] at hc
    cases hc
  · rw [hsome]
    refine iff_of_true (List.cons_ne_nil c []) ⟨c, ?_, hc⟩
    rw [hcmd]
    exact List.mem_append_right _ List.mem_cons_self

/-! ## The loop -/

/-- The loop stores one byte more than the target holds before it gives up. -/
theorem readLoop_eq (buffLen : Nat) {text tail : List UInt8}
    (htext : ∀ c ∈ text, isEnd c = false) (htail : ∀ c ∈ tail.head?, isEnd c = true) (i j : Nat)
    (buff : Stores) (hroom : j ≤ buffLen + 1) :
    readLoop buffLen (text ++ tail) i j buff =
      if j + text.length ≤ buffLen + 1 then
        (((i + text.length + 1 : Nat) : Int), buff.storeAll j text)
      else (-1, buff.storeAll j (text.take (buffLen + 1 - j))) := by
  induction text generalizing i j buff with
  | nil =>
      rw [List.nil_append, List.length_nil, Nat.add_zero, if_pos hroom]
      cases tail with
      | nil => rfl
      | cons c rest =>
          rw [readLoop, if_pos (htail c rfl)]
          rfl
  | cons a text ih =>
      have ha := htext a List.mem_cons_self
      rw [List.cons_append, readLoop, ha, if_neg Bool.false_ne_true, List.length_cons]
      rcases Nat.lt_or_ge buffLen j with hfull | hmore
      · have hnone : buffLen + 1 - j = 0 := by omega
        rw [if_pos (by omega), if_neg (by omega), hnone]
        rfl
      · have hleft : buffLen + 1 - j = (buffLen + 1 - (j + 1)) + 1 := by omega
        have hnext : i + 1 + text.length + 1 = i + (text.length + 1) + 1 := by omega
        have hsum : j + 1 + text.length = j + (text.length + 1) := by omega
        rw [if_neg (by omega), ih (fun c hmem => htext c (List.mem_cons_of_mem a hmem)) _ _ _
          (by omega), hnext, hsum, hleft, List.take_succ_cons]
        rfl

/-- What a call does, in terms of the line. -/
theorem mdsApiReadLine_eq (cmd : List UInt8) (buff : Memory) (buffLen : Nat) :
    mdsApiReadLine cmd buff buffLen =
      if (line cmd).length ≤ buffLen + 1 then
        ((((line cmd).length + 1 : Nat) : Int), (Stores.start buff).storeAll 0 (line cmd))
      else (-1, (Stores.start buff).storeAll 0 ((line cmd).take (buffLen + 1))) := by
  obtain ⟨tail, htail, hcmd⟩ : ∃ tail, (∀ c ∈ tail.head?, isEnd c = true) ∧
      line cmd ++ tail = cmd := by
    rcases line_cases cmd with ⟨hwhole, -⟩ | ⟨c, rest, hc, -, hcmd⟩
    · exact ⟨[], fun c hmem => absurd hmem (by simp), by rw [List.append_nil, hwhole]⟩
    · refine ⟨c :: rest, fun other hother => ?_, hcmd.symm⟩
      cases hother
      exact hc
  have hloop := readLoop_eq buffLen (@not_isEnd_of_mem_line cmd) htail 0 0 (Stores.start buff)
    (Nat.zero_le _)
  simp only [Nat.zero_add, Nat.sub_zero, hcmd] at hloop
  exact hloop

/-! ## One call -/

/-- What a call that reads a line from `cmd` is to return and to store. -/
structure ReadsLine (cmd : List UInt8) (buffLen : Int) (ret : Int) (left : Stores) : Prop where
  refused : buffLen < (line cmd).length → ret = -1
  copied : (line cmd).length ≤ buffLen →
    ret = nextOffset cmd ∧ Holds left.memory 0 (line cmd) ∧ left.Within (line cmd).length
  within : left.Within buffLen

/-- A line that is too long is stored behind the target. -/
theorem mdsApiReadLine_overrun {cmd : List UInt8} {buffLen : Nat} (buff : Memory)
    (hlong : buffLen < (line cmd).length) :
    buffLen ∈ (mdsApiReadLine cmd buff buffLen).2.stored := by
  rw [mdsApiReadLine_eq]
  split
  · exact mem_stored_storeAll.mpr (Or.inr ⟨Nat.zero_le _, by omega⟩)
  · refine mem_stored_storeAll.mpr (Or.inr ⟨Nat.zero_le _, ?_⟩)
    rw [List.length_take_of_le hlong]
    omega

/-- One call is right exactly when the line ends and fits. -/
theorem readsLine_iff (cmd : List UInt8) (buff : Memory) (buffLen : Nat) :
    ReadsLine cmd buffLen (mdsApiReadLine cmd buff buffLen).1
        (mdsApiReadLine cmd buff buffLen).2 ↔
      terminator cmd ≠ [] ∧ (line cmd).length ≤ buffLen := by
  rcases Nat.lt_or_ge buffLen (line cmd).length with hlong | hfits
  · refine iff_of_false (fun hreads => ?_) (fun hboth => Nat.not_lt.mpr hboth.2 hlong)
    exact absurd (hreads.within buffLen (mdsApiReadLine_overrun buff hlong)) (Int.lt_irrefl _)
  · rw [mdsApiReadLine_eq, if_pos (by omega), and_iff_left hfits]
    constructor
    · intro hreads hnone
      have hret := (hreads.copied (by exact_mod_cast hfits)).1
      rw [nextOffset, hnone, List.length_nil] at hret
      omega
    · intro hsome
      obtain ⟨-, -, hone, -⟩ := line_ended hsome
      refine ⟨fun hlong => by omega, fun _ => ⟨by rw [hone], storeAll_holds, ?_⟩, ?_⟩
      · exact (storeAll_start_within_iff buff).mpr (Or.inr (Int.le_refl _))
      · exact (storeAll_start_within_iff buff).mpr (Or.inr (by exact_mod_cast hfits))

/-! ## Reading the whole buffer -/

/-- Calls on what is left of a buffer, each right, each on from where the last one returned,
which is not behind the end: the lines with their terminators, and what a call refused. -/
inductive Splits (buffLen : Int) :
    List UInt8 → Memory → List (List UInt8) → List UInt8 → Prop where
  | finished {buff : Memory} : Splits buffLen [] buff [] []
  | refused {cmd : List UInt8} {buff : Memory} {left : Stores} (hne : cmd ≠ [])
      (hcall : mdsApiReadLine cmd buff buffLen = (-1, left))
      (hreads : ReadsLine cmd buffLen (-1) left) : Splits buffLen cmd buff [] cmd
  | next {cmd rest : List UInt8} {buff : Memory} {left : Stores} {n : Nat}
      {pieces : List (List UInt8)} (hne : cmd ≠ [])
      (hcall : mdsApiReadLine cmd buff buffLen = ((n : Int), left))
      (hreads : ReadsLine cmd buffLen n left) (hwithin : n ≤ cmd.length)
      (hmore : Splits buffLen (cmd.drop n) left.memory pieces rest) :
      Splits buffLen cmd buff ((line cmd ++ terminator cmd) :: pieces) rest

/-- The calls end, and the lines with their terminators are the buffer up to what was refused. -/
def SplitsBuffer (buffLen : Int) (cmd : List UInt8) (buff : Memory) : Prop :=
  ∃ pieces rest, Splits buffLen cmd buff pieces rest ∧ pieces.flatten ++ rest = cmd

/-- The last line ends too, and no line is longer than the target. -/
def EveryLineFits (buffLen : Nat) (cmd : List UInt8) : Prop :=
  (∃ c, cmd.getLast? = some c ∧ isEnd c = true) ∧
    ∀ text ∈ cmd.splitOnP isEnd, text.length ≤ buffLen

theorem everyLineFits_append {buffLen : Nat} {text : List UInt8}
    (htext : ∀ c ∈ text, isEnd c = false) {c : UInt8} (hc : isEnd c = true) (rest : List UInt8) :
    EveryLineFits buffLen (text ++ c :: rest) ↔
      text.length ≤ buffLen ∧ (rest = [] ∨ EveryLineFits buffLen rest) := by
  rw [EveryLineFits, List.splitOnP_append_cons_of_forall_mem htext c hc, List.forall_mem_cons]
  cases rest with
  | nil =>
      rw [List.splitOnP_nil, List.getLast?_concat]
      constructor
      · rintro ⟨-, hlength, -⟩
        exact ⟨hlength, Or.inl rfl⟩
      · rintro ⟨hlength, -⟩
        exact ⟨⟨c, rfl, hc⟩, hlength, by simp⟩
  | cons other more =>
      have hlast : (text ++ c :: other :: more).getLast? = (other :: more).getLast? := by
        rw [List.getLast?_append, List.getLast?_cons_cons]
        simp [List.getLast?_cons]
      rw [hlast, or_iff_right (List.cons_ne_nil _ _), EveryLineFits]
      exact and_left_comm

/-- The lines read with their terminators are the buffer. -/
theorem Splits.flatten {buffLen : Int} {cmd rest : List UInt8} {buff : Memory}
    {pieces : List (List UInt8)} (hsplits : Splits buffLen cmd buff pieces rest) :
    pieces.flatten ++ rest = cmd := by
  induction hsplits with
  | finished => rfl
  | refused => rfl
  | @next cmd rest buff left n pieces _ _ hreads _ _ ih =>
      have hoffset : n = nextOffset cmd := by
        rcases Int.lt_or_le buffLen (line cmd).length with hlong | hfits
        · have hret := hreads.refused hlong
          omega
        · exact Int.ofNat_inj.mp (hreads.copied hfits).1
      rw [List.flatten_cons, List.append_assoc, ih, hoffset, line_next]

/-- Where every call is right, every line ends and fits. -/
theorem everyLineFits_of_splits {buffLen : Nat} {cmd rest : List UInt8} {buff : Memory}
    {pieces : List (List UInt8)} (hsplits : Splits buffLen cmd buff pieces rest) (hne : cmd ≠ []) :
    EveryLineFits buffLen cmd := by
  have hright : ∀ {cmd : List UInt8} {buff : Memory} {left : Stores} {ret : Int},
      mdsApiReadLine cmd buff buffLen = (ret, left) → ReadsLine cmd buffLen ret left →
      terminator cmd ≠ [] ∧ (line cmd).length ≤ buffLen := by
    intro cmd buff left ret hcall hreads
    rw [← readsLine_iff cmd buff, hcall]
    exact hreads
  induction hsplits with
  | finished => exact absurd rfl hne
  | @refused cmd buff left _ hcall hreads =>
      have hret := (hreads.copied (by exact_mod_cast (hright hcall hreads).2)).1
      omega
  | @next cmd rest buff left n pieces _ hcall hreads _ _ ih =>
      obtain ⟨hsome, hfits⟩ := hright hcall hreads
      have hoffset : n = nextOffset cmd :=
        Int.ofNat_inj.mp (hreads.copied (by exact_mod_cast hfits)).1
      obtain ⟨c, hc, -, hcmd⟩ := line_ended hsome
      rw [← hoffset] at hcmd
      rw [← hcmd]
      refine (everyLineFits_append not_isEnd_of_mem_line hc _).mpr ⟨hfits, ?_⟩
      exact (Decidable.em (cmd.drop n = [])).imp id ih

/-- Where every line ends and fits, every call is right. -/
theorem splits_of_everyLineFits {buffLen : Nat} {cmd : List UInt8} (buff : Memory)
    (hfits : cmd = [] ∨ EveryLineFits buffLen cmd) :
    ∃ pieces, Splits buffLen cmd buff pieces [] := by
  induction hlength : cmd.length using Nat.strongRecOn generalizing cmd buff with
  | ind length ih =>
      rcases hfits with rfl | hfits
      · exact ⟨[], .finished⟩
      · have hsome : terminator cmd ≠ [] := by
          rw [terminator_ne_nil_iff]
          obtain ⟨⟨c, hlast, hc⟩, -⟩ := hfits
          exact ⟨c, List.mem_of_getLast? hlast, hc⟩
        obtain ⟨c, hc, hone, hcmd⟩ := line_ended hsome
        obtain ⟨hline, hrest⟩ :=
          (everyLineFits_append not_isEnd_of_mem_line hc _).mp (hcmd.symm ▸ hfits)
        have hreads := (readsLine_iff cmd buff buffLen).mpr ⟨hsome, hline⟩
        have hret := (hreads.copied (by exact_mod_cast hline)).1
        have hlengths := congrArg List.length hcmd
        rw [List.length_append, List.length_cons] at hlengths
        obtain ⟨pieces, hmore⟩ := ih (cmd.drop (nextOffset cmd)).length (by omega)
          (mdsApiReadLine cmd buff buffLen).2.memory hrest rfl
        rw [hret] at hreads
        refine ⟨_, Splits.next ?_ (Prod.ext hret rfl) hreads (by omega) hmore⟩
        rintro rfl
        exact hsome rfl

/-- A call is right exactly when the line it reads ends and fits, and reading the whole buffer
is right exactly when every line ends and fits. -/
theorem mdsApiReadLine_right_iff (cmd : List UInt8) (buffLen : Nat) (buff : Memory)
    (hne : cmd ≠ []) :
    (ReadsLine cmd buffLen (mdsApiReadLine cmd buff buffLen).1
        (mdsApiReadLine cmd buff buffLen).2 ↔
      (∃ c ∈ cmd, isEnd c = true) ∧ (line cmd).length ≤ buffLen) ∧
      (SplitsBuffer buffLen cmd buff ↔ EveryLineFits buffLen cmd) := by
  constructor
  · rw [readsLine_iff]
    exact and_congr_left fun _ => terminator_ne_nil_iff cmd
  · constructor
    · rintro ⟨pieces, rest, hsplits, -⟩
      exact everyLineFits_of_splits hsplits hne
    · intro hfits
      obtain ⟨pieces, hsplits⟩ := splits_of_everyLineFits buff (Or.inr hfits)
      exact ⟨pieces, [], hsplits, hsplits.flatten⟩

/-- Two lines that end and fit. -/
theorem mdsApiReadLine_right_two_lines :
    ([97, 10, 98, 13] : List UInt8) ≠ [] ∧
      (ReadsLine [97, 10, 98, 13] 1 (mdsApiReadLine [97, 10, 98, 13] (fun _ => 0) 1).1
          (mdsApiReadLine [97, 10, 98, 13] (fun _ => 0) 1).2 ↔
        (∃ c ∈ ([97, 10, 98, 13] : List UInt8), isEnd c = true) ∧
          (line [97, 10, 98, 13]).length ≤ 1) ∧
      (SplitsBuffer 1 [97, 10, 98, 13] (fun _ => 0) ↔ EveryLineFits 1 [97, 10, 98, 13]) :=
  ⟨by decide, mdsApiReadLine_right_iff [97, 10, 98, 13] 1 (fun _ => 0) (by decide)⟩

/-- A single byte without a CR or LF is counted as two. -/
theorem mdsApiReadLine_past_the_end :
    ¬∀ (cmd : List UInt8) (buffLen : Nat) (buff : Memory), cmd ≠ [] →
      ReadsLine cmd buffLen (mdsApiReadLine cmd buff buffLen).1
        (mdsApiReadLine cmd buff buffLen).2 := by
  intro hall
  have hreads := hall [97] 1 (fun _ => 0) (by decide)
  have hret : (2 : Int) = 1 := (hreads.copied (by decide)).1
  cases hret

end MdsFormal.Text.ReadLine
