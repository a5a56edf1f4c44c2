import Mathlib.Data.List.DropRight

/-!
# Conversions of `scanf`

Each conversion takes characters from the front of the input and gives what it
converts and what is left, or nothing when it does not match.
-/

namespace MdsFormal.Library.Scan

/-- `isspace` in the C locale. -/
def isSpace (c : Char) : Bool := c = ' ' || (9 ≤ c.toNat && c.toNat ≤ 13)

/-- White space in a format. -/
def skipSpace (input : List Char) : List Char := input.dropWhile isSpace

/-- An optional sign, and whether it is a minus. -/
def scanSign : List Char → Bool × List Char
  | [] => (false, [])
  | c :: rest =>
      if c = '-' then (true, rest) else if c = '+' then (false, rest) else (false, c :: rest)

/-- One or more decimal digits. -/
def scanDigits (input : List Char) : Option (Nat × List Char) :=
  match input.takeWhile Char.isDigit with
  | [] => none
  | digit :: more =>
      some (Nat.ofDigitChars 10 (digit :: more) 0, input.dropWhile Char.isDigit)

/-- `%ld`; numbers outside the range of a `long` are not modelled. -/
def scanLong (input : List Char) : Option (Int × List Char) :=
  let (negative, rest) := scanSign (skipSpace input)
  (scanDigits rest).map fun (n, rest) => (if negative then -(n : Int) else n, rest)

/-- A character of the format that must be there. -/
def scanLiteral (expected : Char) : List Char → Option (List Char)
  | [] => none
  | c :: rest => if c = expected then some rest else none

/-- Characters of the format that must be there. -/
def scanLiterals (expected input : List Char) : Option (List Char) :=
  expected.foldlM (fun rest c => scanLiteral c rest) input

/-- `%[^c]`: one or more characters other than `c`. -/
def scanUntil (stop : Char) (input : List Char) : Option (List Char × List Char) :=
  match input.takeWhile (· ≠ stop) with
  | [] => none
  | c :: more => some (c :: more, input.dropWhile (· ≠ stop))

/-- `%c`. -/
def scanChar : List Char → Option (Char × List Char)
  | [] => none
  | c :: rest => some (c, rest)

/-- `atol`: 0 when there is no number. -/
def atol (input : List Char) : Int := (scanLong input).elim 0 Prod.fst

/-! ## Reading back what was printed -/

/-- A digit is neither white space nor a sign. -/
theorem isDigit_plain {c : Char} (hdigit : c.isDigit = true) :
    isSpace c = false ∧ c ≠ '-' ∧ c ≠ '+' := by
  refine ⟨?_, ?_, ?_⟩
  · simp only [Char.isDigit, Bool.and_eq_true, decide_eq_true_eq] at hdigit
    have hlow : 48 ≤ c.toNat := UInt32.le_iff_toNat_le.mp hdigit.1
    have hblank : c ≠ ' ' := by
      rintro rfl
      exact absurd hlow (by decide)
    simp only [isSpace, hblank, decide_false, Bool.false_or, Bool.and_eq_false_iff,
      decide_eq_false_iff_not]
    omega
  · rintro rfl
    cases hdigit
  · rintro rfl
    cases hdigit

theorem takeWhile_append_stop {α : Type} {test : α → Bool} {taken rest : List α}
    (htaken : ∀ a ∈ taken, test a = true) (hrest : ∀ a ∈ rest.head?, test a = false) :
    (taken ++ rest).takeWhile test = taken ∧ (taken ++ rest).dropWhile test = rest := by
  rw [List.takeWhile_append_of_pos htaken, List.dropWhile_append_of_pos htaken]
  cases rest with
  | nil => simp
  | cons a more =>
      have ha := hrest a rfl
      simp [ha]

/-- A number in decimal digits is read back up to the first character that is none. -/
theorem scanDigits_toDigits (n : Nat) {rest : List Char}
    (hrest : ∀ c ∈ rest.head?, c.isDigit = false) :
    scanDigits (Nat.toDigits 10 n ++ rest) = some (n, rest) := by
  have hdigits : ∀ c ∈ Nat.toDigits 10 n, c.isDigit = true := fun c hc =>
    Nat.isDigit_of_mem_toDigits (by decide) (by decide) hc
  obtain ⟨htake, hdrop⟩ := takeWhile_append_stop hdigits hrest
  rw [scanDigits, htake, hdrop]
  cases hcons : Nat.toDigits 10 n with
  | nil => exact absurd hcons Nat.toDigits_ne_nil
  | cons digit more =>
      dsimp only
      rw [← hcons, Nat.ofDigitChars_ten_toDigits]

theorem scanLong_toDigits (n : Nat) {rest : List Char}
    (hrest : ∀ c ∈ rest.head?, c.isDigit = false) :
    scanLong (Nat.toDigits 10 n ++ rest) = some ((n : Int), rest) := by
  have hscan := scanDigits_toDigits n hrest
  cases hcons : Nat.toDigits 10 n with
  | nil => exact absurd hcons Nat.toDigits_ne_nil
  | cons digit more =>
      have hdigit : digit.isDigit = true :=
        Nat.isDigit_of_mem_toDigits (by decide) (Nat.le_refl 10) (hcons ▸ List.mem_cons_self)
      obtain ⟨hspace, hminus, hplus⟩ := isDigit_plain hdigit
      have hskip : skipSpace (digit :: more ++ rest) = digit :: more ++ rest := by
        simp [skipSpace, hspace]
      have hsign : scanSign (digit :: more ++ rest) = (false, digit :: more ++ rest) := by
        simp [scanSign, hminus, hplus]
      rw [scanLong, hskip, hsign, ← hcons]
      simp [hscan]

theorem atol_toDigits (n : Nat) : atol (Nat.toDigits 10 n) = n := by
  have hscan : scanLong (Nat.toDigits 10 n ++ []) = some ((n : Int), []) :=
    scanLong_toDigits n (by simp)
  rw [List.append_nil] at hscan
  rw [atol, hscan]
  rfl

theorem skipSpace_blanks (blanks : Nat) (input : List Char) :
    skipSpace (List.replicate blanks ' ' ++ input) = skipSpace input := by
  refine List.dropWhile_append_of_pos fun c hc => ?_
  rw [List.eq_of_mem_replicate hc]
  rfl

/-- White space in front of a number is skipped in any case. -/
theorem scanLong_skipSpace (input : List Char) : scanLong (skipSpace input) = scanLong input := by
  have hskip : skipSpace (skipSpace input) = skipSpace input := List.dropWhile_idempotent _ _
  unfold scanLong
  rw [hskip]

theorem scanLiterals_eq_some_iff (expected : List Char) {input rest : List Char} :
    scanLiterals expected input = some rest ↔ input = expected ++ rest := by
  unfold scanLiterals
  induction expected generalizing input with
  | nil => exact Option.some_inj
  | cons c expected ih =>
      rw [List.foldlM_cons]
      cases input with
      | nil => exact iff_of_false (fun hsome => nomatch hsome) (fun hnil => nomatch hnil)
      | cons d input =>
          by_cases heq : d = c
          · have hread : scanLiteral c (d :: input) = some input := if_pos heq
            rw [hread, heq, List.cons_append, List.cons_inj_right]
            exact ih
          · have hread : scanLiteral c (d :: input) = none := if_neg heq
            rw [hread]
            exact iff_of_false (fun hsome => nomatch hsome) fun hcons => heq (List.cons.inj hcons).1

theorem scanUntil_append {stop : Char} {taken : List Char} (hne : taken ≠ [])
    (hstop : stop ∉ taken) (rest : List Char) :
    scanUntil stop (taken ++ stop :: rest) = some (taken, stop :: rest) := by
  have htest : ∀ c ∈ taken, decide (c ≠ stop) = true := by
    intro c hc
    refine decide_eq_true ?_
    rintro rfl
    exact hstop hc
  have hrest : ∀ c ∈ (stop :: rest).head?, decide (c ≠ stop) = false := by simp
  obtain ⟨htake, hdrop⟩ := takeWhile_append_stop htest hrest
  rw [scanUntil, htake, hdrop]
  cases taken with
  | nil => exact absurd rfl hne
  | cons c more => rfl

/-- What `%[^c]` converts never has `c` in it. -/
theorem notMem_of_scanUntil {stop : Char} {input taken rest : List Char}
    (hscan : scanUntil stop input = some (taken, rest)) : stop ∉ taken := by
  intro hmem
  unfold scanUntil at hscan
  cases htake : input.takeWhile (· ≠ stop) with
  | nil =>
      rw [htake] at hscan
      cases hscan
  | cons c more =>
      rw [htake] at hscan
      cases hscan
      rw [← htake] at hmem
      have hall := List.all_eq_true.mp List.all_takeWhile stop hmem
      exact absurd rfl (of_decide_eq_true hall)

end MdsFormal.Library.Scan
