import Mathlib.Data.List.Basic
import MdsFormal.Library.Faults
import MdsFormal.Text.CheckIp

/-!
# Telling valid numbers and names

The checks of `validation.c` go over a buffer up to its first character that must not be there.
`mds_api_check_apn_addr` takes a name out of its quotes into an array of 512 characters, which it
fills without a test.  A buffer is given by the bytes that can be read from it.
-/

namespace MdsFormal.Text.Validation

open MdsFormal.Library.Faults
open MdsFormal.Text.CheckIp

/-! ## The code -/

inductive Fault where
  /-- A byte behind the end of an array is read or stored to. -/
  | outside
  deriving DecidableEq

/-- `isdigit`; no byte from 128 on is a digit, with `char` signed or not. -/
def isdigit (c : UInt8) : Bool := 48 ≤ c && c ≤ 57

/-- `isalpha` in the C locale. -/
def isalpha (c : UInt8) : Bool := (97 ≤ c && c ≤ 122) || (65 ≤ c && c ≤ 90)

/-- `_isalpha_apn` -/
def isalphaApn (c : UInt8) : Bool :=
  (97 ≤ c && c ≤ 122) || (65 ≤ c && c ≤ 90) || (48 ≤ c && c ≤ 57) || c == dot

/-- `for(i = 0; i < len; i++)` over `buff[i]` with an early return; `true` is
`DEFINES_MDS_API_OK`. -/
def checkLoop (valid : UInt8 → Bool) : Nat → List UInt8 → Except Fault Bool
  | 0, _ => .ok true
  | _ + 1, [] => .error .outside
  | left + 1, c :: rest => if valid c then checkLoop valid left rest else .ok false

def strlen (buff : List UInt8) : Except Fault Nat :=
  if 0 ∈ buff then .ok (buff.takeWhile (· ≠ 0)).length else .error .outside

/-- The checks of numbers: digits in a buffer of some size, of a length that is right. -/
def checkDigits (minLen : Int) (lenRight : Nat → Bool) (buff : List UInt8) (buffLen : Int) :
    Except Fault Bool := do
  let len ← strlen buff
  if buffLen < minLen then .ok false
  else if lenRight len then checkLoop isdigit len buff
  else .ok false

/-- `mds_api_check_phonenum` -/
def mdsApiCheckPhonenum : List UInt8 → Int → Except Fault Bool := checkDigits 7 (7 ≤ ·)

/-- `mds_api_check_imei` -/
def mdsApiCheckImei : List UInt8 → Int → Except Fault Bool := checkDigits 15 (· = 15)

/-- `mds_api_check_dns_addr` -/
def mdsApiCheckDnsAddr (buff : List UInt8) (buffLen : Int) : Except Fault Bool :=
  checkLoop isalphaApn buffLen.toNat buff

/-- `mds_api_check_is_num` -/
def mdsApiCheckIsNum (buff : List UInt8) (buffLen : Int) : Except Fault Bool :=
  checkLoop (fun c => !isalpha c) buffLen.toNat buff

/-- `'"'` -/
def quote : UInt8 := 34

/-- The loop that counts the quotes; `apnAddr` is what `apn_addr[512]` holds up to `j`. -/
def apnLoop : Nat → List UInt8 → Nat → List UInt8 → Except Fault (Nat × List UInt8)
  | 0, _, chkCnt, apnAddr => .ok (chkCnt, apnAddr)
  | _ + 1, [], _, _ => .error .outside
  | left + 1, c :: rest, chkCnt, apnAddr =>
      if c = quote then apnLoop left rest (chkCnt + 1) apnAddr
      else do
        require (apnAddr.length < 512) .outside
        apnLoop left rest chkCnt (apnAddr ++ [c])

/-- `mds_api_check_apn_addr` behind its loop; `"%s"` reads its argument up to a NUL. -/
def checkUnquoted (buff : List UInt8) (chkCnt : Nat) (apnAddr : List UInt8) :
    Except Fault Bool := do
  require (0 ∈ buff) .outside
  if chkCnt > 2 then .ok false
  else if apnAddr.length = 0 then .ok false
  else
    let array := apnAddr ++ List.replicate (512 - apnAddr.length) 0
    require (0 ∈ array) .outside
    mdsApiCheckDnsAddr array apnAddr.length

/-- `mds_api_check_apn_addr` -/
def mdsApiCheckApnAddr (buff : List UInt8) (buffLen : Int) : Except Fault Bool := do
  let (chkCnt, apnAddr) ← apnLoop buffLen.toNat buff 0 []
  checkUnquoted buff chkCnt apnAddr

/-! ## Going over a buffer -/

/-- The loop stays inside of the buffer exactly when it ends there or meets a character that
must not be there. -/
theorem guarded_checkLoop (valid : UInt8 → Bool) (left : Nat) (buff : List UInt8) :
    Guarded (left ≤ buff.length ∨ ∃ c ∈ buff, valid c = false) (checkLoop valid left buff)
      fun ok => ok = true ↔ ∀ c ∈ buff.take left, valid c = true := by
  induction left generalizing buff with
  | zero =>
      refine ⟨fun _ => ⟨true, rfl, iff_of_true rfl ?_⟩, fun _ => .inl (Nat.zero_le _)⟩
      intro c hc
      cases hc
  | succ left ih =>
      cases buff with
      | nil =>
          refine ⟨?_, fun hruns => absurd hruns (not_runs_error _)⟩
          rintro (hlong | ⟨c, hc, -⟩)
          · exact absurd hlong (Nat.not_succ_le_zero left)
          · cases hc
      | cons c rest =>
          rw [checkLoop, List.take_succ_cons, List.forall_mem_cons, List.length_cons,
            List.exists_mem_cons_iff, Nat.succ_le_succ_iff]
          cases hvalid : valid c with
          | false =>
              refine ⟨fun _ => ⟨false, rfl, iff_of_false (by decide) ?_⟩, fun _ => ?_⟩
              · rintro ⟨hc, -⟩
                cases hc
              · exact .inr (.inl rfl)
          | true =>
              rw [if_pos rfl, or_iff_right (by decide : ¬(true = false)), and_iff_right rfl]
              exact ih rest

theorem guarded_strlen (buff : List UInt8) :
    Guarded (0 ∈ buff) (strlen buff) (· = (buff.takeWhile (· ≠ 0)).length) := by
  unfold strlen
  by_cases hnul : 0 ∈ buff
  · rw [if_pos hnul]
    exact ⟨fun _ => ⟨_, rfl, rfl⟩, fun _ => hnul⟩
  · rw [if_neg hnul]
    exact ⟨fun hnul' => absurd hnul' hnul, fun hruns => absurd hruns (not_runs_error _)⟩

/-! ## Names in quotes -/

def quotes (text : List UInt8) : Nat := text.count quote

def unquoted (text : List UInt8) : List UInt8 := text.filter (· ≠ quote)

section

variable {c : UInt8} (text : List UInt8)

theorem quotes_quote : quotes (quote :: text) = quotes text + 1 := List.count_cons_self

theorem quotes_cons (hc : c ≠ quote) : quotes (c :: text) = quotes text :=
  List.count_cons_of_ne hc

theorem unquoted_quote : unquoted (quote :: text) = unquoted text := rfl

theorem unquoted_cons (hc : c ≠ quote) : unquoted (c :: text) = c :: unquoted text :=
  List.filter_cons_of_pos (decide_eq_true hc)

end

theorem guarded_apnLoop (left : Nat) (buff : List UInt8) (chkCnt : Nat) (apnAddr : List UInt8)
    (hroom : apnAddr.length ≤ 512) :
    Guarded (left ≤ buff.length ∧ apnAddr.length + (unquoted (buff.take left)).length ≤ 512)
      (apnLoop left buff chkCnt apnAddr)
      (· = (chkCnt + quotes (buff.take left), apnAddr ++ unquoted (buff.take left))) := by
  induction left generalizing buff chkCnt apnAddr with
  | zero =>
      refine ⟨fun _ => ⟨_, rfl, ?_⟩, fun _ => ⟨Nat.zero_le _, hroom⟩⟩
      exact (congrArg (Prod.mk chkCnt) (List.append_nil apnAddr)).symm
  | succ left ih =>
      cases buff with
      | nil =>
          refine ⟨?_, fun hruns => absurd hruns (not_runs_error _)⟩
          rintro ⟨hlong, -⟩
          exact absurd hlong (Nat.not_succ_le_zero left)
      | cons c rest =>
          rw [apnLoop, List.take_succ_cons, List.length_cons, Nat.succ_le_succ_iff]
          by_cases hc : c = quote
          · rw [if_pos hc, hc, quotes_quote, unquoted_quote, ← Nat.add_assoc, Nat.add_right_comm]
            exact ih rest (chkCnt + 1) apnAddr hroom
          · have hstore : Guarded (apnAddr.length < 512)
                (require (apnAddr.length < 512) Fault.outside) fun _ => True := guarded_require
            have hlength : (apnAddr ++ [c]).length = apnAddr.length + 1 := List.length_append
            rw [if_neg hc, quotes_cons _ hc, unquoted_cons _ hc, List.length_cons,
              List.append_cons apnAddr c (unquoted _)]
            refine (hstore.bind fun hless _ _ => ih rest chkCnt (apnAddr ++ [c]) ?_).congr ?_
            · omega
            · rw [hlength]
              omega

/-- A name that is printed and fills its array has to end in it. -/
def NameEnds (chkCnt : Nat) (apnAddr : List UInt8) : Prop :=
  chkCnt ≤ 2 → apnAddr.length = 512 → 0 ∈ apnAddr

/-- Behind the loop the two strings that are printed have to end. -/
theorem guarded_checkUnquoted (buff : List UInt8) (chkCnt : Nat) {apnAddr : List UInt8}
    (hfits : apnAddr.length ≤ 512) :
    Guarded (0 ∈ buff ∧ NameEnds chkCnt apnAddr)
      (checkUnquoted buff chkCnt apnAddr)
      fun ok => ok = true ↔
        chkCnt ≤ 2 ∧ apnAddr ≠ [] ∧ ∀ c ∈ apnAddr, isalphaApn c = true := by
  refine guarded_require.bind fun _ _ _ => ?_
  by_cases hmany : chkCnt > 2
  · rw [if_pos hmany]
    refine ⟨fun _ => ⟨false, rfl, iff_of_false (by decide) ?_⟩, fun _ hfew => ?_⟩
    · rintro ⟨hfew, -⟩
      omega
    · omega
  rw [if_neg hmany]
  by_cases hempty : apnAddr.length = 0
  · rw [if_pos hempty]
    refine ⟨fun _ => ⟨false, rfl, iff_of_false (by decide) ?_⟩, fun _ _ hfull => ?_⟩
    · rintro ⟨-, hne, -⟩
      exact hne (List.eq_nil_of_length_eq_zero hempty)
    · omega
  rw [if_neg hempty]
  dsimp only
  have hnul : 0 ∈ apnAddr ++ List.replicate (512 - apnAddr.length) 0 ↔
      NameEnds chkCnt apnAddr := by
    rw [List.mem_append, List.mem_replicate, NameEnds]
    constructor
    · rintro (hmem | ⟨hroom, -⟩) - hfull
      · exact hmem
      · omega
    · intro hends
      rcases Nat.lt_or_ge apnAddr.length 512 with hroom | hfull
      · exact .inr ⟨by omega, rfl⟩
      · exact .inl (hends (by omega) (by omega))
  refine (guarded_require.bind_free fun _ _ _ => ?_).congr hnul
  have hcheck := guarded_checkLoop isalphaApn apnAddr.length
    (apnAddr ++ List.replicate (512 - apnAddr.length) 0)
  have hlong : apnAddr.length ≤ (apnAddr ++ List.replicate (512 - apnAddr.length) 0).length := by
    rw [List.length_append]
    exact Nat.le_add_right _ _
  have hne : apnAddr ≠ [] := fun hnil => hempty (congrArg List.length hnil)
  rw [List.take_left] at hcheck
  refine (hcheck.congr (iff_of_true (.inl hlong) trivial)).weaken fun ok hok => ?_
  rw [hok, and_iff_right (Nat.le_of_not_lt hmany), and_iff_right hne]

/-- What a check of an access point needs: the name fits the array, and both strings that are
printed end. -/
def Harmless (buff : List UInt8) (len : Nat) : Prop :=
  (len ≤ buff.length ∧ (unquoted (buff.take len)).length ≤ 512) ∧
    0 ∈ buff ∧ NameEnds (quotes (buff.take len)) (unquoted (buff.take len))

/-- A name of letters, digits and dots with two quotes at most. -/
def IsApn (text : List UInt8) : Prop :=
  quotes text ≤ 2 ∧ unquoted text ≠ [] ∧ ∀ c ∈ unquoted text, isalphaApn c = true

/--
The check of an access point stays inside of its arrays exactly for the buffers that are
harmless, and then accepts exactly the names with two quotes at most, wherever these are.
-/
theorem guarded_checkApnAddr (buff : List UInt8) (buffLen : Int) :
    Guarded (Harmless buff buffLen.toNat) (mdsApiCheckApnAddr buff buffLen)
      fun ok => ok = true ↔ IsApn (buff.take buffLen.toNat) := by
  have hloop := guarded_apnLoop buffLen.toNat buff 0 [] (Nat.zero_le 512)
  rw [List.length_nil, Nat.zero_add, Nat.zero_add, List.nil_append] at hloop
  refine hloop.bind fun hneed _ hvalue => ?_
  cases hvalue
  exact guarded_checkUnquoted buff _ hneed.2

/-! ## Numbers -/

theorem guarded_checkDigits (minLen : Int) (lenRight : Nat → Bool) (buff : List UInt8)
    (buffLen : Int) :
    Guarded (0 ∈ buff) (checkDigits minLen lenRight buff buffLen) fun ok => ok = true ↔
      minLen ≤ buffLen ∧ lenRight (buff.takeWhile (· ≠ 0)).length = true ∧
        ∀ c ∈ buff.takeWhile (· ≠ 0), isdigit c = true := by
  refine (guarded_strlen buff).bind_free fun _ len hlen => ?_
  have hfront : buff.take len = buff.takeWhile (· ≠ 0) := by
    rw [hlen]
    exact (List.prefix_iff_eq_take.mp (List.takeWhile_prefix _)).symm
  have hwithin : len ≤ buff.length := hlen ▸ (List.takeWhile_prefix _).length_le
  rw [← hlen]
  by_cases hsmall : buffLen < minLen
  · rw [if_pos hsmall]
    refine ⟨fun _ => ⟨false, rfl, iff_of_false (by decide) ?_⟩, fun _ => trivial⟩
    rintro ⟨hlarge, -⟩
    omega
  rw [if_neg hsmall, and_iff_right (Int.not_lt.mp hsmall)]
  cases hright : lenRight len with
  | false =>
      refine ⟨fun _ => ⟨false, rfl, iff_of_false (by decide) ?_⟩, fun _ => trivial⟩
      rintro ⟨hcontra, -⟩
      cases hcontra
  | true =>
      rw [if_pos rfl, and_iff_right rfl, ← hfront]
      exact (guarded_checkLoop isdigit len buff).congr (iff_of_true (.inl hwithin) trivial)

/--
The checks of phone numbers and IMEIs read up to the NUL and accept digits of the right number,
whatever else is behind; the checks of server names and of numbers go by the length they are
given alone, and leave the buffer where it is too long and nothing stops them before.
-/
theorem guarded_checks (buff : List UInt8) (buffLen : Int) :
    Guarded (0 ∈ buff) (mdsApiCheckPhonenum buff buffLen) (fun ok => ok = true ↔
      7 ≤ buffLen ∧ 7 ≤ (buff.takeWhile (· ≠ 0)).length ∧
        ∀ c ∈ buff.takeWhile (· ≠ 0), isdigit c = true) ∧
    Guarded (0 ∈ buff) (mdsApiCheckImei buff buffLen) (fun ok => ok = true ↔
      15 ≤ buffLen ∧ (buff.takeWhile (· ≠ 0)).length = 15 ∧
        ∀ c ∈ buff.takeWhile (· ≠ 0), isdigit c = true) ∧
    Guarded (buffLen.toNat ≤ buff.length ∨ ∃ c ∈ buff, isalphaApn c = false)
      (mdsApiCheckDnsAddr buff buffLen)
      (fun ok => ok = true ↔ ∀ c ∈ buff.take buffLen.toNat, isalphaApn c = true) ∧
    Guarded (buffLen.toNat ≤ buff.length ∨ ∃ c ∈ buff, isalpha c = true)
      (mdsApiCheckIsNum buff buffLen)
      (fun ok => ok = true ↔ ∀ c ∈ buff.take buffLen.toNat, isalpha c = false) := by
  have hphone := guarded_checkDigits 7 (7 ≤ ·) buff buffLen
  have himei := guarded_checkDigits 15 (· = 15) buff buffLen
  have hnum := guarded_checkLoop (fun c => !isalpha c) buffLen.toNat buff
  simp only [decide_eq_true_eq] at hphone himei
  simp only [Bool.not_eq_false', Bool.not_eq_true'] at hnum
  exact ⟨hphone, himei, guarded_checkLoop isalphaApn buffLen.toNat buff, hnum⟩

end MdsFormal.Text.Validation
