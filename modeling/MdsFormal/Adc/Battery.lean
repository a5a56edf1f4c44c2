import Mathlib.Algebra.Group.Nat.Defs
import MdsFormal.Library.Scan
import MdsFormal.Library.Tokens

/-!
# The voltage of the internal battery

The driver prints a number of microvolts, of which `mds_api_get_internal_batt_tl500` takes the
first three digits.  They are hundredths of a volt for some numbers only.
-/

namespace MdsFormal.Adc.Battery

open MdsFormal.Library.Scan
open MdsFormal.Library.Tokens

/-! ## The code -/

def nul : Char := Char.ofNat 0

def battAdcRootDir : List Char := "/sys/devices".toList

def battAdcDirPrefix : List Char := "qpnp-vadc-".toList

/-- What a call meets: the entries of the root directory, if it opens, and the files. -/
structure Env where
  entries : Option (List (List Char))
  files : List Char → Option (List Char)

/-- The search that fills `batt_adc_path` while it is empty; `none` is a path that does not
fit. -/
def findPath (battAdcPath : List Char) (env : Env) : Option (List Char) :=
  if battAdcPath = [] then
    match (env.entries.getD []).find? fun dName => battAdcDirPrefix.isPrefixOf dName with
    | none => some []
    | some dName =>
        let path := battAdcRootDir ++ '/' :: dName ++ "/vph_pwr".toList
        if path.length < 128 then some path else none
  else some battAdcPath

/-- `": "` -/
def isToken0 (c : Char) : Bool := c = ':' || c = ' '

/-- `sprintf(vol_num_buff, "%.*s\n", 3, tr)` -/
def volNumBuff (tr : List Char) : List Char := tr.take 3 ++ ['\n']

/-- The part behind `mds_api_read_data`, which has filled `read_buff` from its front; `none` is
an array without a NUL. -/
def voltageOf (content : List Char) : Option (Option Int) :=
  if content.length < 128 then
    some <|
      match strtokR isToken0 (content.takeWhile (· ≠ nul)) with
      | none => none
      | some (_, rest) =>
          match strtokR isToken0 rest with
          | none => none
          | some (tr, _) => some (atol (volNumBuff tr))
  else none

/-- `mds_api_get_internal_batt_tl500`: the voltage unless it returns `DEFINES_MDS_API_NOK`, and
the path it keeps. -/
def mdsApiGetInternalBattTl500 (battAdcPath : List Char) (env : Env) :
    Option (Option Int × List Char) := do
  let path ← findPath battAdcPath env
  match if path = [] then none else env.files path with
  | none => some (none, path)
  | some content => (voltageOf content).map fun voltage => (voltage, path)

/-! ## The first digits -/

theorem length_toDigits_div {n : Nat} (hn : 10 ≤ n) :
    (Nat.toDigits 10 n).length = (Nat.toDigits 10 (n / 10)).length + 1 := by
  rw [Nat.toDigits_of_base_le (by decide) hn, List.length_append]
  rfl

/-- Cutting a number behind its first digits divides it. -/
theorem take_toDigits {count : Nat} (hcount : 0 < count) (n : Nat) :
    (Nat.toDigits 10 n).take count =
      Nat.toDigits 10 (n / 10 ^ ((Nat.toDigits 10 n).length - count)) := by
  induction n using Nat.strong_induction_on with
  | _ n ih =>
      rcases Nat.lt_or_ge count (Nat.toDigits 10 n).length with hlong | hshort
      · have hn : 10 ≤ n := by
          by_contra hsmall
          rw [Nat.toDigits_of_lt_base (Nat.lt_of_not_le hsmall), List.length_singleton] at hlong
          omega
        have hlen := length_toDigits_div hn
        have hfits : count ≤ (Nat.toDigits 10 (n / 10)).length := by omega
        have hsub : (Nat.toDigits 10 n).length - count =
            (Nat.toDigits 10 (n / 10)).length - count + 1 := by omega
        have hsmaller : n / 10 < n := Nat.div_lt_self (by omega) (by decide)
        rw [hsub, Nat.toDigits_of_base_le (by decide) hn, List.take_append_of_le_length hfits,
          ih (n / 10) hsmaller, Nat.pow_succ', Nat.div_div_eq_div_mul]
      · rw [List.take_of_length_le hshort, Nat.sub_eq_zero_of_le hshort, Nat.pow_zero, Nat.div_one]

/-- The number that three digits are read as. -/
def leading (n : Nat) : Nat := n / 10 ^ ((Nat.toDigits 10 n).length - 3)

theorem length_leading (n : Nat) :
    (Nat.toDigits 10 (leading n)).length = min 3 (Nat.toDigits 10 n).length := by
  rw [leading, ← take_toDigits (by decide), List.length_take]

/-- A number has more than `count` digits from `10 ^ count` on. -/
theorem lt_length_toDigits_iff {count : Nat} (hcount : 0 < count) {n : Nat} :
    count < (Nat.toDigits 10 n).length ↔ 10 ^ count ≤ n := by
  rw [← Nat.not_le, Nat.length_toDigits_le_iff (by decide) hcount, Nat.not_lt]

theorem leading_lt (n : Nat) : leading n < 10 ^ 3 := by
  have hlen : (Nat.toDigits 10 (leading n)).length ≤ 3 :=
    length_leading n ▸ Nat.min_le_left _ _
  exact (Nat.length_toDigits_le_iff (by decide) (by decide)).mp hlen

theorem le_leading {n : Nat} (hn : 10 ^ 2 ≤ n) : 10 ^ 2 ≤ leading n := by
  have hlen : 2 < (Nat.toDigits 10 n).length := (lt_length_toDigits_iff (by decide)).mpr hn
  refine (lt_length_toDigits_iff (by decide)).mp ?_
  rw [length_leading]
  omega

theorem leading_small {n : Nat} (hn : n < 10 ^ 2) : leading n = n := by
  have hlen : (Nat.toDigits 10 n).length ≤ 2 :=
    (Nat.length_toDigits_le_iff (by decide) (by decide)).mpr hn
  rw [leading, Nat.sub_eq_zero_of_le (by omega), Nat.pow_zero, Nat.div_one]

/-- Seven digits are microvolts that give hundredths of a volt; no others do, except 0. -/
theorem leading_scaled_iff (n : Nat) :
    leading n = n / 10000 ↔ n = 0 ∨ 10 ^ 6 ≤ n ∧ n < 10 ^ 7 := by
  rcases Nat.lt_or_ge n (10 ^ 2) with hsmall | hlarge
  · rw [leading_small hsmall]
    omega
  · have hlow := le_leading hlarge
    have hhigh := leading_lt n
    rcases Nat.lt_or_ge n (10 ^ 6) with hshort | hlong
    · omega
    · rcases Nat.lt_or_ge n (10 ^ 7) with hfits | hmore
      · have hseven : (Nat.toDigits 10 n).length = 7 := by
          have hle := (Nat.length_toDigits_le_iff (b := 10) (by decide) (by decide)).mpr hfits
          have hlt := (lt_length_toDigits_iff (by decide)).mpr hlong
          omega
        rw [leading, hseven]
        exact iff_of_true rfl (.inr ⟨hlong, hfits⟩)
      · omega

/-! ## The text of the driver -/

def result : List Char := ['R', 'e', 's', 'u', 'l', 't']

/-- What the driver prints for a number of microvolts, with the rest of its line. -/
def sensorText (microvolts : Nat) (more : List Char) : List Char :=
  result ++ ':' :: (Nat.toDigits 10 microvolts ++ ' ' :: more)

theorem nul_not_mem_sensorText (microvolts : Nat) {more : List Char} (hnul : nul ∉ more) :
    nul ∉ sensorText microvolts more := by
  have hdigits : nul ∉ Nat.toDigits 10 microvolts := by
    intro hmem
    have hdigit := Nat.isDigit_of_mem_toDigits (by decide) (Nat.le_refl 10) hmem
    cases hdigit
  have hresult : nul ∉ result := by decide
  have hcolon : nul ≠ ':' := by decide
  have hblank : nul ≠ ' ' := by decide
  simp only [sensorText, List.mem_append, List.mem_cons, not_or]
  exact ⟨hresult, hcolon, hdigits, hblank, hnul⟩

/-- No digit is a delimiter. -/
theorem isToken0_digit {n : Nat} {c : Char} (hc : c ∈ Nat.toDigits 10 n) : isToken0 c = false := by
  have hdigit := Nat.isDigit_of_mem_toDigits (by decide) (Nat.le_refl 10) hc
  rw [isToken0, Bool.or_eq_false_iff, decide_eq_false_iff_not, decide_eq_false_iff_not]
  constructor
  · rintro rfl
    cases hdigit
  · rintro rfl
    cases hdigit

theorem voltageOf_sensorText (microvolts : Nat) {more : List Char} (hnul : nul ∉ more)
    (hlength : (sensorText microvolts more).length < 128) :
    voltageOf (sensorText microvolts more) = some (some (leading microvolts : Int)) := by
  have hwhole : (sensorText microvolts more).takeWhile (· ≠ nul) = sensorText microvolts more := by
    refine List.takeWhile_eq_self_iff.mpr fun c hc => decide_eq_true ?_
    rintro rfl
    exact nul_not_mem_sensorText microvolts hnul hc
  have hresult : ∀ c ∈ result, isToken0 c = false := by simp [result, isToken0]
  have hfirst : strtokR isToken0 (sensorText microvolts more) =
      some (result, Nat.toDigits 10 microvolts ++ ' ' :: more) :=
    strtokR_append (by decide) hresult rfl
  have hsecond : strtokR isToken0 (Nat.toDigits 10 microvolts ++ ' ' :: more) =
      some (Nat.toDigits 10 microvolts, more) :=
    strtokR_append Nat.toDigits_ne_nil (fun c hc => isToken0_digit hc) rfl
  have hnumber : atol (volNumBuff (Nat.toDigits 10 microvolts)) = leading microvolts := by
    have hscan := @scanLong_toDigits (leading microvolts) ['\n'] (by simp)
    rw [volNumBuff, take_toDigits (by decide), ← leading, atol, hscan]
    rfl
  rw [voltageOf, if_pos hlength, hwhole, hfirst]
  dsimp only
  rw [hsecond]
  dsimp only
  rw [hnumber]

/--
Whatever the path kept so far is, a call that finds the text of the driver returns the number
of its first three digits, which are its hundredths of a volt exactly when it has seven
digits or is 0.
-/
theorem voltage_of_driver (battAdcPath path : List Char) (env : Env) (microvolts : Nat)
    (more : List Char) (hpath : findPath battAdcPath env = some path) (hne : path ≠ [])
    (hfile : env.files path = some (sensorText microvolts more)) (hnul : nul ∉ more)
    (hlength : (sensorText microvolts more).length < 128) :
    mdsApiGetInternalBattTl500 battAdcPath env = some (some (leading microvolts : Int), path) ∧
      Nat.toDigits 10 (leading microvolts) = (Nat.toDigits 10 microvolts).take 3 ∧
      (leading microvolts = microvolts / 10000 ↔
        microvolts = 0 ∨ 10 ^ 6 ≤ microvolts ∧ microvolts < 10 ^ 7) := by
  refine ⟨?_, (take_toDigits (by decide) microvolts).symm, leading_scaled_iff microvolts⟩
  rw [mdsApiGetInternalBattTl500, hpath]
  change (match if path = [] then none else env.files path with
    | none => some (none, path)
    | some content => (voltageOf content).map fun voltage => (voltage, path)) = _
  rw [if_neg hne, hfile]
  dsimp only
  rw [voltageOf_sensorText microvolts hnul hlength, Option.map_some]

/-- A device directory and its file, which says `Result:4046562 Raw:967d`. -/
def vadcEnv : Env where
  entries := some ["cpu".toList, "qpnp-vadc-8".toList]
  files path :=
    if path = "/sys/devices/qpnp-vadc-8/vph_pwr".toList then
      some (sensorText 4046562 "Raw:967d\n".toList)
    else none

theorem voltage_of_driver_vadcEnv :
    mdsApiGetInternalBattTl500 [] vadcEnv =
        some (some (leading 4046562 : Int), "/sys/devices/qpnp-vadc-8/vph_pwr".toList) ∧
      Nat.toDigits 10 (leading 4046562) = (Nat.toDigits 10 4046562).take 3 ∧
      (leading 4046562 = 4046562 / 10000 ↔
        4046562 = 0 ∨ 10 ^ 6 ≤ 4046562 ∧ 4046562 < 10 ^ 7) :=
  voltage_of_driver [] "/sys/devices/qpnp-vadc-8/vph_pwr".toList vadcEnv 4046562
    "Raw:967d\n".toList rfl (by decide +kernel) rfl (by decide +kernel) (by decide +kernel)

/-- A tenth of the voltage reads the same. -/
example : leading 404656 = leading 4046562 := by decide

end MdsFormal.Adc.Battery
