import Mathlib.Algebra.Group.Int.Defs
import Mathlib.Algebra.Group.Nat.Defs
import MdsFormal.Library.Scan

/-!
# Integers in a buffer of twelve characters

`mds_api_itoa_11` formats into a temporary buffer that could hold eleven characters and a
NUL, but gives `snprintf` one byte less than that.  Only the numbers with a sign and ten
digits lose their last digit.
-/

namespace MdsFormal.Text.Itoa

open MdsFormal.Library.Scan

/-! ## The code -/

def nul : Char := Char.ofNat 0

/-- `snprintf(buf, size, ..)`: at most `size - 1` characters of the text, and a NUL. -/
def snprintf (buf : List Char) (size : Nat) (text : List Char) : List Char :=
  text.take (size - 1) ++ nul :: buf.drop ((text.take (size - 1)).length + 1)

/-- The text that `"%d"` makes. -/
def decimal (value : Int32) : List Char :=
  if value.toInt < 0 then '-' :: Nat.toDigits 10 value.toInt.natAbs
  else Nat.toDigits 10 value.toInt.natAbs

/-- `char tmp_buf[12]` after `snprintf(tmp_buf, sizeof(tmp_buf) - 1, format, value)` -/
def tmpBuf (text : List Char) : List Char := snprintf (List.replicate 12 nul) (12 - 1) text

/-- `mds_api_itoa_11`; `format` gives the text that the format makes of a value.  Nothing is
returned where `memcpy` would read behind `tmp_buf`. -/
def mdsApiItoa11 (buf : List Char) (outStrLen : Int) (format : Int32 → List Char)
    (value : Int32) : Option (Int × List Char) :=
  if outStrLen ≤ 0 then some (-1, buf)
  else if 12 < outStrLen then none
  else
    some (0, (tmpBuf (format value)).take outStrLen.toNat ++ buf.drop outStrLen.toNat)

/-! ## The text -/

theorem isDigit_nul : nul.isDigit = false := rfl

theorem nul_not_mem_decimal (value : Int32) : nul ∉ decimal value := by
  have hdigits : nul ∉ Nat.toDigits 10 value.toInt.natAbs := by
    intro hmem
    have hdigit := Nat.isDigit_of_mem_toDigits (by decide) (Nat.le_refl 10) hmem
    rw [isDigit_nul] at hdigit
    cases hdigit
  rw [decimal]
  split
  · rw [List.mem_cons]
    rintro (hminus | hmem)
    · cases hminus
    · exact hdigits hmem
  · exact hdigits

/-- A sign and ten digits are the longest text, and the only one of eleven characters. -/
theorem length_decimal_le_iff (value : Int32) :
    (decimal value).length ≤ 10 ↔ -999999999 ≤ value.toInt := by
  have hhigh := Int32.toInt_lt value
  rw [decimal]
  split
  · have hlength : (Nat.toDigits 10 value.toInt.natAbs).length ≤ 9 ↔
        value.toInt.natAbs < 10 ^ 9 := Nat.length_toDigits_le_iff (by decide) (by decide)
    rw [List.length_cons]
    omega
  · have hlength : (Nat.toDigits 10 value.toInt.natAbs).length ≤ 10 ↔
        value.toInt.natAbs < 10 ^ 10 := Nat.length_toDigits_le_iff (by decide) (by decide)
    rw [hlength]
    omega

theorem scanDigits_decimal (n : Nat) : scanDigits (Nat.toDigits 10 n) = some (n, []) := by
  have hscan := @scanDigits_toDigits n [] (by simp)
  rwa [List.append_nil] at hscan

/-- The text is read back. -/
theorem atol_decimal (value : Int32) : atol (decimal value) = value.toInt := by
  rw [decimal]
  split
  · have hscan : scanLong ('-' :: Nat.toDigits 10 value.toInt.natAbs) =
        some (-(value.toInt.natAbs : Int), []) := by
      rw [scanLong]
      simp [skipSpace, isSpace, scanSign, scanDigits_decimal]
    rw [atol, hscan]
    change -(value.toInt.natAbs : Int) = value.toInt
    omega
  · rw [atol_toDigits]
    omega

/-! ## The temporary buffer -/

/-- The text padded with NULs to `count` characters, and cut to them. -/
def padded (text : List Char) (count : Nat) : List Char :=
  text.take count ++ List.replicate (count - text.length) nul

/-- The first characters of the temporary buffer are those of a text of ten characters. -/
theorem take_tmpBuf (text : List Char) {count : Nat} (hcount : count ≤ 12) :
    (tmpBuf text).take count = padded (text.take 10) count := by
  have hlength : (text.take 10).length ≤ 10 := List.length_take_le 10 text
  have hzeros : nul :: (List.replicate 12 nul).drop ((text.take 10).length + 1) =
      List.replicate (12 - (text.take 10).length) nul := by
    rw [List.drop_replicate, ← List.replicate_succ]
    congr 1
    omega
  change (text.take 10 ++ nul :: (List.replicate 12 nul).drop ((text.take 10).length + 1)).take
    count = _
  rw [hzeros, List.take_append, List.take_replicate, padded]
  congr 2
  omega

/-- Cutting the text to ten characters shows where the eleventh would be. -/
theorem padded_take_ten_iff {text : List Char} (hnul : nul ∉ text) (count : Nat) :
    padded (text.take 10) count = padded text count ↔ text.length ≤ 10 ∨ count ≤ 10 := by
  constructor
  · intro heq
    rcases Nat.lt_or_ge 10 text.length with hlong | hshort
    · rcases Nat.lt_or_ge 10 count with hmore | hless
      · have hten : (text.take 10).length = 10 := List.length_take_of_le (by omega)
        have hcut : (padded (text.take 10) count)[10]? = some nul := by
          rw [padded, List.take_of_length_le (by omega), List.getElem?_append_right (by omega),
            hten, List.getElem?_replicate_of_lt (by omega)]
        have hwhole : (padded text count)[10]? = text[10]? := by
          rw [padded, List.getElem?_append_left (by rw [List.length_take]; omega),
            List.getElem?_take_of_lt hmore]
        rw [heq, hwhole] at hcut
        exact absurd (List.mem_of_getElem? hcut) hnul
      · exact Or.inr hless
    · exact Or.inl hshort
  · rintro (hshort | hless)
    · rw [List.take_of_length_le hshort]
    · rw [padded, padded, List.take_take, Nat.min_eq_left hless, List.length_take]
      congr 2
      omega

/-- The string in characters that are padded with NULs. -/
theorem takeWhile_padded {text : List Char} (hnul : nul ∉ text) {count : Nat}
    (hcount : text.length ≤ count) : (padded text count).takeWhile (· ≠ nul) = text := by
  have hall : ∀ c ∈ text, decide (c ≠ nul) = true := by
    intro c hmem
    apply decide_eq_true
    rintro rfl
    exact hnul hmem
  rw [padded, List.take_of_length_le hcount, List.takeWhile_append_of_pos hall]
  cases count - text.length with
  | zero => exact List.append_nil text
  | succ left => exact List.append_nil text

/-! ## Keeping every digit -/

/-- The first characters of the text are in the buffer, and with room for eleven the value is
read back from them. -/
def KeepsDigits (value : Int32) (outStrLen : Nat) (result : Option (Int × List Char)) : Prop :=
  ∃ left, result = some (0, left) ∧
    left.take outStrLen = padded (decimal value) outStrLen ∧
    (11 ≤ outStrLen → atol ((left.take outStrLen).takeWhile (· ≠ nul)) = value.toInt)

theorem take_mdsApiItoa11 (buf : List Char) {outStrLen : Nat} (hpos : 1 ≤ outStrLen)
    (hmax : outStrLen ≤ 12) (format : Int32 → List Char) (value : Int32) :
    ∃ left, mdsApiItoa11 buf outStrLen format value = some (0, left) ∧
      left.take outStrLen = padded ((format value).take 10) outStrLen := by
  refine ⟨(tmpBuf (format value)).take outStrLen ++ buf.drop outStrLen, ?_, ?_⟩
  · rw [mdsApiItoa11, if_neg (by omega), if_neg (by omega), Int.toNat_natCast]
  · have htmp := take_tmpBuf (format value) (Nat.le_refl 12)
    have hlength : ((tmpBuf (format value)).take outStrLen).length = outStrLen := by
      rw [take_tmpBuf _ hmax, padded, List.length_append, List.length_replicate,
        List.length_take]
      omega
    rw [List.take_append_of_le_length (by omega), List.take_take, Nat.min_self,
      take_tmpBuf _ hmax]

/-- Every digit is kept unless the value has a sign and ten digits and all are asked for. -/
theorem mdsApiItoa11_keepsDigits_iff (buf : List Char) (outStrLen : Nat) (value : Int32)
    (hpos : 1 ≤ outStrLen) (hmax : outStrLen ≤ 12) :
    KeepsDigits value outStrLen (mdsApiItoa11 buf outStrLen decimal value) ↔
      -999999999 ≤ value.toInt ∨ outStrLen ≤ 10 := by
  obtain ⟨left, hresult, htake⟩ := take_mdsApiItoa11 buf hpos hmax decimal value
  rw [← length_decimal_le_iff, ← padded_take_ten_iff (nul_not_mem_decimal value), ← htake,
    hresult]
  constructor
  · rintro ⟨other, hother, hkept, -⟩
    cases hother
    exact hkept
  · intro hkept
    refine ⟨left, rfl, hkept, fun hroom => ?_⟩
    have hlength : (decimal value).length ≤ outStrLen := by
      rcases (padded_take_ten_iff (nul_not_mem_decimal value) outStrLen).mp
        (htake.symm.trans hkept) with hshort | hless
      · omega
      · omega
    rw [hkept, takeWhile_padded (nul_not_mem_decimal value) hlength, atol_decimal]

/-- The largest value, with room for all its digits. -/
theorem mdsApiItoa11_keepsDigits_max :
    KeepsDigits 2147483647 12 (mdsApiItoa11 (List.replicate 12 'x') (12 : Nat) decimal 2147483647) ↔
      -999999999 ≤ (2147483647 : Int32).toInt ∨ 12 ≤ 10 :=
  mdsApiItoa11_keepsDigits_iff (List.replicate 12 'x') 12 2147483647 (by decide) (by decide)

/-- The smallest value loses its last digit. -/
theorem mdsApiItoa11_loses_digit :
    ¬∀ (buf : List Char) (outStrLen : Nat) (value : Int32), 1 ≤ outStrLen → outStrLen ≤ 12 →
      KeepsDigits value outStrLen (mdsApiItoa11 buf outStrLen decimal value) := by
  intro hall
  obtain ⟨left, hleft, hkept, -⟩ := hall [] 11 (-2147483648) (by decide) (by decide)
  cases hleft
  revert hkept
  decide

end MdsFormal.Text.Itoa
