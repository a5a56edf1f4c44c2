import MdsFormal.Library.CString
import MdsFormal.Library.Occurrence
import MdsFormal.Library.StoreTrace
import MdsFormal.Storage.BoundedLog

/-!
# Replacing the first occurrence

`mds_api_str_replace` joins three pieces of which none ends with a NUL, and it looks for the
text to replace without testing that it was found.  The NUL that it counted is there only
when it was in the buffer before.
-/

namespace MdsFormal.Text.StrReplace

open MdsFormal.Library.Buffer
open MdsFormal.Library.CString
open MdsFormal.Library.Occurrence
open MdsFormal.Library.StoreTrace
open MdsFormal.Storage.BoundedLog

/-! ## The code -/

/-- `strncpy(buff + index, source, n)` -/
def strncpy (buff : Stores) (index : Nat) (source : List UInt8) (n : Nat) : Stores :=
  buff.storeAll index (source.take n ++ List.replicate (n - source.length) 0)

/-- `strstr`: the string from the first occurrence on. -/
def strstr (string substr : Str) : Option (List UInt8) :=
  (occurrence substr.val string.val).map fun i => string.val.drop i

/-- `input_len - substr_len + replacement_len + 1`, from the left to the right. -/
def totalLen (string substr replacement : Str) : Option Int := do
  let difference ← checked ((string.val.length : Int) - substr.val.length)
  let sum ← checked (difference + replacement.val.length)
  checked (sum + 1)

/-- The three pieces. -/
def copyPieces (string substr replacement : Str) (buff : Stores) (tok : List UInt8) : Stores :=
  let replaceOffsetStart := string.val.length - tok.length
  let replaceOffsetEnd := replaceOffsetStart + substr.val.length
  let replacementLen := replacement.val.length
  let buff := strncpy buff 0 string.val replaceOffsetStart
  let buff := strncpy buff replaceOffsetStart replacement.val replacementLen
  strncpy buff (replaceOffsetStart + replacementLen) (string.val.drop replaceOffsetEnd)
    (string.val.length - replaceOffsetEnd)

/-- `mds_api_str_replace`; no result after `strlen(NULL)` or an overflow.  The three `strlen`
stand before the test of the arguments, which no null pointer reaches, and `strlen(tok)` has
none in front of it. -/
def mdsApiStrReplace (string substr replacement : Option Str) (buff : Memory) (buffLen : Int) :
    Option (Int × Stores) :=
  match string, substr, replacement with
  | some string, some substr, some replacement =>
      match totalLen string substr replacement with
      | none => none
      | some total =>
          if buffLen < total then some (-1, Stores.start buff)
          else (strstr string substr).map fun tok =>
            (0, copyPieces string substr replacement (Stores.start buff) tok)
  | _, _, _ => none

/-! ## The result -/

/-- The string with what stands at offset `i` replaced. -/
def replaced (string substr replacement : Str) (i : Nat) : List UInt8 :=
  string.val.take i ++ (replacement.val ++ string.val.drop (i + substr.val.length))

/-- The length that the code counts, with the NUL. -/
def total (string substr replacement : Str) : Int :=
  string.val.length - substr.val.length + replacement.val.length + 1

/-- The lengths add up within an `int`. -/
def Counts (string substr replacement : Str) : Prop :=
  (substr.val.length : Int) - string.val.length ≤ 2 ^ 31 ∧ total string substr replacement < 2 ^ 31

instance decidableCounts (string substr replacement : Str) :
    Decidable (Counts string substr replacement) :=
  inferInstanceAs (Decidable (_ ∧ _))

variable {string substr replacement : Str} {i : Nat}

/-- The length is counted exactly when every step of the sum fits an `int`. -/
theorem totalLen_eq_some_iff {result : Int} :
    totalLen string substr replacement = some result ↔
      Counts string substr replacement ∧ total string substr replacement = result := by
  simp only [totalLen, Option.bind_eq_bind, Option.bind_eq_some_iff, checked_eq_some_iff]
  constructor
  · rintro ⟨difference, ⟨hfirst, rfl⟩, sum, ⟨-, rfl⟩, hlast, rfl⟩
    exact ⟨⟨by omega, hlast.2⟩, rfl⟩
  · rintro ⟨⟨hlow, hhigh⟩, rfl⟩
    rw [total] at hhigh
    exact ⟨_, ⟨by omega, rfl⟩, _, ⟨by omega, rfl⟩, by omega, rfl⟩

theorem length_replaced (replacement : Str) (hfirst : FirstAt substr.val string.val i) :
    ((replaced string substr replacement i).length : Int) + 1 =
      total string substr replacement := by
  have hlength := hfirst.length_le
  have hstands : (string.val.take i).length = i := List.length_take_of_le (by omega)
  rw [replaced, List.length_append, List.length_append, hstands, List.length_drop, total]
  omega

/-- A piece that is as long as the number says gets no padding. -/
theorem strncpy_eq (buff : Stores) (index : Nat) {source : List UInt8} {n : Nat}
    (hlength : n ≤ source.length) :
    strncpy buff index source n = buff.storeAll index (source.take n) := by
  rw [strncpy, Nat.sub_eq_zero_of_le hlength, List.replicate_zero, List.append_nil]

/-- The three pieces are the replaced text, without its NUL. -/
theorem copyPieces_eq (replacement : Str) (buff : Stores)
    (hfirst : FirstAt substr.val string.val i) :
    copyPieces string substr replacement buff (string.val.drop i) =
      buff.storeAll 0 (replaced string substr replacement i) := by
  have hlength := hfirst.length_le
  have hstart : string.val.length - (string.val.drop i).length = i := by
    rw [List.length_drop]
    omega
  have hrest : string.val.length - (i + substr.val.length) =
      (string.val.drop (i + substr.val.length)).length := List.length_drop.symm
  have hstands : (string.val.take i).length = i := List.length_take_of_le (by omega)
  have hfront : i ≤ string.val.length := by omega
  simp only [copyPieces, hstart, hrest]
  rw [strncpy_eq _ _ hfront, strncpy_eq _ _ (Nat.le_refl _), strncpy_eq _ _ (Nat.le_refl _),
    List.take_length, List.take_length, replaced, storeAll_append, storeAll_append, hstands,
    Nat.zero_add]

theorem mdsApiStrReplace_eq (buff : Memory) (buffLen : Int) :
    mdsApiStrReplace (some string) (some substr) (some replacement) buff buffLen =
      if Counts string substr replacement then
        if buffLen < total string substr replacement then some (-1, Stores.start buff)
        else (occurrence substr.val string.val).map fun i =>
          (0, (Stores.start buff).storeAll 0 (replaced string substr replacement i))
      else none := by
  rw [mdsApiStrReplace]
  rcases Decidable.em (Counts string substr replacement) with hcounts | hcounts
  · rw [if_pos hcounts, totalLen_eq_some_iff.mpr ⟨hcounts, rfl⟩]
    dsimp only
    congr 1
    rw [strstr]
    cases hfound : occurrence substr.val string.val with
    | none => rfl
    | some i =>
        have hpieces := copyPieces_eq replacement (Stores.start buff) (occurrence_first hfound)
        simp only [Option.map_some, hpieces]
  · have hnone : totalLen string substr replacement = none := by
      refine Option.eq_none_iff_forall_ne_some.mpr fun result hresult => ?_
      exact hcounts (totalLen_eq_some_iff.mp hresult).1
    rw [if_neg hcounts, hnone]

/-! ## Replacement -/

/-- What a replacement of the first occurrence is to return and to leave in the buffer. -/
def Replaces (string substr replacement : Str) (buff : Memory) (buffLen : Int)
    (result : Option (Int × Stores)) : Prop :=
  match occurrence substr.val string.val with
  | none => result = some (-1, Stores.start buff)
  | some i =>
      if buffLen < (replaced string substr replacement i).length + 1 then
        result = some (-1, Stores.start buff)
      else
        ∃ left, result = some (0, left) ∧
          Holds left.memory 0 (replaced string substr replacement i ++ [0]) ∧ left.Within buffLen

/-- The buffer is smaller than the length that the code counts. -/
def Refused (string substr replacement : Str) (buffLen : Int) : Prop :=
  buffLen < total string substr replacement

/-- There is something to replace, and the buffer already has a NUL where the result ends. -/
def Terminated (string substr replacement : Str) (buff : Memory) : Prop :=
  substr.val <:+: string.val ∧ buff (total string substr replacement - 1).toNat = 0

/-- A text that is found and fits is replaced as it should when its NUL is there already. -/
theorem copied_iff (buff : Memory) {buffLen : Int} (hfirst : FirstAt substr.val string.val i)
    (hfits : total string substr replacement ≤ buffLen) :
    (∃ left, some ((0 : Int), (Stores.start buff).storeAll 0 (replaced string substr replacement i))
          = some (0, left) ∧
        Holds left.memory 0 (replaced string substr replacement i ++ [0]) ∧ left.Within buffLen) ↔
      buff (total string substr replacement - 1).toNat = 0 := by
  have hlength := length_replaced replacement hfirst
  have hend : (total string substr replacement - 1).toNat =
      0 + (replaced string substr replacement i).length := by omega
  rw [hend]
  constructor
  · rintro ⟨left, hleft, hholds, -⟩
    cases hleft
    exact (storeAll_holds_concat_iff 0).mp hholds
  · intro hnul
    exact ⟨_, rfl, (storeAll_holds_concat_iff 0).mpr hnul,
      (storeAll_start_within_iff buff).mpr (Or.inr (by omega))⟩

/-- Nothing that a replacement may return is undefined. -/
theorem not_replaces_none (buff : Memory) (buffLen : Int) :
    ¬Replaces string substr replacement buff buffLen none := by
  rw [Replaces]
  cases occurrence substr.val string.val with
  | none =>
      intro heq
      cases heq
  | some i =>
      dsimp only
      split
      · intro heq
        cases heq
      · rintro ⟨left, heq, -⟩
        cases heq

/-- A buffer that is too small is left alone, whether there is something to replace or not. -/
theorem replaces_refused (buff : Memory) {buffLen : Int}
    (hsmall : buffLen < total string substr replacement) :
    Replaces string substr replacement buff buffLen (some (-1, Stores.start buff)) := by
  rw [Replaces]
  cases hfound : occurrence substr.val string.val with
  | none => rfl
  | some i =>
      have hlength := length_replaced replacement (occurrence_first hfound)
      exact (if_pos (by omega)).mpr rfl

/-- The first occurrence is replaced as it should exactly when the lengths add up and either
the buffer is too small, or the text is there and the buffer has a NUL behind the result. -/
theorem mdsApiStrReplace_replaces_iff (string substr replacement : Str) (buff : Memory)
    (buffLen : Int) :
    Replaces string substr replacement buff buffLen
        (mdsApiStrReplace (some string) (some substr) (some replacement) buff buffLen) ↔
      Counts string substr replacement ∧
        (Refused string substr replacement buffLen ∨
          Terminated string substr replacement buff) := by
  rw [mdsApiStrReplace_eq, Terminated, infix_iff_occurrence, Refused]
  rcases Decidable.em (Counts string substr replacement) with hcounts | hcounts
  · rw [if_pos hcounts, and_iff_right hcounts]
    rcases Int.lt_or_le buffLen (total string substr replacement) with hsmall | hroom
    · rw [if_pos hsmall]
      exact iff_of_true (replaces_refused buff hsmall) (Or.inl hsmall)
    · rw [if_neg (Int.not_lt.mpr hroom), or_iff_right (Int.not_lt.mpr hroom)]
      cases hfound : occurrence substr.val string.val with
      | none =>
          refine iff_of_false (not_replaces_none buff buffLen) ?_
          rintro ⟨⟨i, hi⟩, -⟩
          cases hi
      | some i =>
          have hfirst := occurrence_first hfound
          have hlength := length_replaced replacement hfirst
          rw [and_iff_right ⟨i, rfl⟩, ← copied_iff buff hfirst hroom, Replaces, hfound]
          dsimp only
          rw [if_neg (by omega)]
          exact Iff.rfl
  · rw [if_neg hcounts]
    exact iff_of_false (not_replaces_none buff buffLen) fun hboth => hcounts hboth.1

/-- `b` put in the place of `a` gets no NUL in a buffer that has none. -/
theorem mdsApiStrReplace_unterminated :
    ¬∀ (string substr replacement : Str) (buff : Memory) (buffLen : Int), substr.val ≠ [] →
      Replaces string substr replacement buff buffLen
        (mdsApiStrReplace (some string) (some substr) (some replacement) buff buffLen) := by
  intro hall
  have hreplaces := hall ⟨[97], by decide⟩ ⟨[97], by decide⟩ ⟨[98], by decide⟩ (fun _ => 120) 2
    (by decide)
  obtain ⟨left, hleft, hholds, -⟩ := hreplaces
  cases hleft
  have hnul := hholds 1 0 rfl
  cases hnul

end MdsFormal.Text.StrReplace
