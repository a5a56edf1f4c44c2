import Mathlib.Algebra.GroupWithZero.Nat
import MdsFormal.Library.CString

/-!
# Telling addresses from names

`mds_api_check_ip` counts digits and dots, `mds_api_get_domain_to_ip` relies on it to
decide whether a name has to be looked up.  The scan keeps the length of the group of
digits it is in; the groups themselves are the text split at its dots.
-/

namespace MdsFormal.Text.CheckIp

open MdsFormal.Library.CString

/-- `'.'` -/
def dot : UInt8 := 46

/-! ## The code -/

/-- The loop of `mds_api_check_ip`: `nDotCount` at its end, or nothing for an early return. -/
def scan : List UInt8 → Nat → Nat → Option Nat
  | [], _, nDotCount => some nDotCount
  | c :: rest, nNumCount, nDotCount =>
      if c < 48 ∨ 57 < c then
        if c = dot then scan rest 0 (nDotCount + 1) else none
      else if 3 < nNumCount + 1 then none
      else scan rest (nNumCount + 1) nDotCount

/-- `DEFINES_IP_LEN` -/
def definesIpLen : Nat := 15

/-- `mds_api_check_ip`; `true` is `DEFINES_MDS_API_OK`. -/
def mdsApiCheckIp (buff : List UInt8) (buffLen : Int) : Bool :=
  let len := strnlen buff definesIpLen
  if buffLen < 7 then false
  else if len > 15 ∨ len < 7 then false
  else scan (buff.take len) 0 0 = some 3

variable {size : Nat}

/-- The return value, what `ip_buff` then holds and whether the name was looked up. -/
structure Resolution (size : Nat) where
  ret : Bool
  ipBuff : Buf size
  resolved : Bool

/-- `strncpy(dest, source, n)`: the rest of the `n` bytes is filled with NULs. -/
def strncpy (dest : Buf size) (source : List UInt8) (n : Nat) : Buf size :=
  dest.overwrite (source.take n ++ List.replicate (n - source.length) 0)

/-- `mds_api_get_domain_to_ip`; the resolver gives the text of the first address it found. -/
def mdsApiGetDomainToIp (gethostbyname : Str → Option Str) (dnBuff : Str) (dnBuffLen : Int)
    (ipBuff : Buf size) (ipBuffLen : Int) : Resolution size :=
  if mdsApiCheckIp dnBuff dnBuffLen then
    let copied := strncpy ipBuff dnBuff 40
    ⟨mdsApiCheckIp copied.bytes ipBuffLen, copied, false⟩
  else
    match gethostbyname dnBuff with
    | none => ⟨false, ipBuff, true⟩
    | some text =>
        let printed := ipBuff.strcpy text
        ⟨mdsApiCheckIp printed.bytes ipBuffLen, printed, true⟩

/-! ## Addresses -/

def IsDigit (c : UInt8) : Prop := 48 ≤ c ∧ c ≤ 57

instance decidableIsDigit (c : UInt8) : Decidable (IsDigit c) :=
  inferInstanceAs (Decidable (_ ∧ _))

/-- At most three decimal digits, as the scan has them. -/
def IsGroup (group : List UInt8) : Prop := (∀ c ∈ group, IsDigit c) ∧ group.length ≤ 3

instance decidableIsGroup (group : List UInt8) : Decidable (IsGroup group) :=
  inferInstanceAs (Decidable (_ ∧ _))

def decimal (group : List UInt8) : Nat :=
  group.foldl (fun value c => 10 * value + (c.toNat - 48)) 0

/-- One to three digits of a number up to 255. -/
def IsOctet (group : List UInt8) : Prop := IsGroup group ∧ group ≠ [] ∧ decimal group ≤ 255

instance decidableIsOctet (group : List UInt8) : Decidable (IsOctet group) :=
  inferInstanceAs (Decidable (_ ∧ _))

/-- Dotted-quad text: four octets with single dots between them. -/
def IsAddress (text : List UInt8) : Prop :=
  (text.splitOn dot).length = 4 ∧ ∀ group ∈ text.splitOn dot, IsOctet group

instance decidableIsAddress (text : List UInt8) : Decidable (IsAddress text) :=
  inferInstanceAs (Decidable (_ ∧ _))

/-- What the scan accepts: four groups, of which some may be empty. -/
def IsShaped (text : List UInt8) : Prop :=
  7 ≤ text.length ∧ (text.splitOn dot).length = 4 ∧ ∀ group ∈ text.splitOn dot, IsGroup group

instance decidableIsShaped (text : List UInt8) : Decidable (IsShaped text) :=
  inferInstanceAs (Decidable (_ ∧ _))

/-! ## The scan -/

theorem not_isDigit_iff (c : UInt8) : (c < 48 ∨ 57 < c) ↔ ¬IsDigit c := by
  rw [IsDigit, UInt8.lt_iff_toNat_lt, UInt8.lt_iff_toNat_lt, UInt8.le_iff_toNat_le,
    UInt8.le_iff_toNat_le]
  omega

theorem IsGroup.of_append {front back : List UInt8} (hgroup : IsGroup (front ++ back)) :
    IsGroup front := by
  obtain ⟨hdigits, hlength⟩ := hgroup
  rw [List.length_append] at hlength
  exact ⟨fun c hmem => hdigits c (List.mem_append_left back hmem), by omega⟩

/-- A group in progress that is none already spoils the groups it is put in front of. -/
theorem isGroup_of_splitOnPPrepend {text pending : List UInt8}
    (hgroups : ∀ group ∈ text.splitOnPPrepend (· == dot) pending, IsGroup group) :
    IsGroup pending.reverse := by
  rw [List.splitOnPPrepend_eq_modifyHead] at hgroups
  cases hsplit : text.splitOnP (· == dot) with
  | nil => exact absurd hsplit (List.splitOnP_ne_nil _ _)
  | cons first others =>
      rw [hsplit] at hgroups
      exact (hgroups _ List.mem_cons_self).of_append

theorem isGroup_reverse_cons {c : UInt8} {pending : List UInt8}
    (hpending : IsGroup pending.reverse) :
    IsGroup (c :: pending).reverse ↔ IsDigit c ∧ pending.length + 1 ≤ 3 := by
  constructor
  · rintro ⟨hdigits, hlength⟩
    rw [List.length_reverse, List.length_cons] at hlength
    exact ⟨hdigits c (List.mem_reverse.mpr List.mem_cons_self), hlength⟩
  · rintro ⟨hdigit, hlength⟩
    refine ⟨fun d hmem => ?_, ?_⟩
    · rcases List.mem_cons.mp (List.mem_reverse.mp hmem) with rfl | hmem
      · exact hdigit
      · exact hpending.1 d (List.mem_reverse.mpr hmem)
    · rwa [List.length_reverse, List.length_cons]

theorem scan_dot (rest : List UInt8) (nNumCount nDotCount : Nat) :
    scan (dot :: rest) nNumCount nDotCount = scan rest 0 (nDotCount + 1) := by
  have hnone : dot < 48 ∨ 57 < dot := Or.inl (by decide)
  rw [scan, if_pos hnone, if_pos rfl]

/-- The scan goes on while the group in progress is one. -/
theorem scan_cons {c : UInt8} {pending : List UInt8} (hdot : c ≠ dot) (rest : List UInt8)
    (nDotCount : Nat) (hpending : IsGroup pending.reverse) :
    (IsGroup (c :: pending).reverse →
        scan (c :: rest) pending.length nDotCount = scan rest (c :: pending).length nDotCount) ∧
      (¬IsGroup (c :: pending).reverse → scan (c :: rest) pending.length nDotCount = none) := by
  rw [isGroup_reverse_cons hpending, scan, List.length_cons, if_neg hdot]
  constructor
  · rintro ⟨hdigit, hlength⟩
    rw [if_neg (fun hnone => (not_isDigit_iff c).mp hnone hdigit), if_neg (Nat.not_lt.mpr hlength)]
  · intro hbad
    split
    · rfl
    · rename_i hdigit
      have hlong : 3 < pending.length + 1 := Nat.lt_of_not_le fun hlength =>
        hbad ⟨Classical.not_not.mp fun h => hdigit ((not_isDigit_iff c).mpr h), hlength⟩
      exact if_pos hlong

/--
The scan with a group in progress, of which only the length is kept: it comes through when
all groups are digits, three at most, and has then counted the dots between them.
-/
theorem scan_eq_some_iff (text pending : List UInt8) (nDotCount dots : Nat)
    (hpending : IsGroup pending.reverse) :
    scan text pending.length nDotCount = some dots ↔
      dots + 1 = nDotCount + (text.splitOnPPrepend (· == dot) pending).length ∧
        ∀ group ∈ text.splitOnPPrepend (· == dot) pending, IsGroup group := by
  induction text generalizing pending nDotCount with
  | nil =>
      rw [scan, List.splitOnPPrepend_nil, Option.some_inj, List.length_singleton,
        List.forall_mem_singleton]
      constructor
      · rintro rfl
        exact ⟨rfl, hpending⟩
      · rintro ⟨hdots, _⟩
        omega
  | cons c rest ih =>
      rw [List.splitOnPPrepend_cons_eq_if]
      by_cases hdot : c = dot
      · subst hdot
        have hempty := ih [] (nDotCount + 1) ⟨fun _ hmem => (List.not_mem_nil hmem).elim,
          Nat.zero_le 3⟩
        rw [List.splitOnPPrepend_nil_right, List.length_nil] at hempty
        rw [scan_dot, hempty, if_pos (beq_self_eq_true dot), List.length_cons,
          List.forall_mem_cons, and_iff_right hpending]
        refine and_congr_left' ?_
        omega
      · rw [if_neg (fun hbeq => hdot (beq_iff_eq.mp hbeq))]
        obtain ⟨hgoes, hstops⟩ := scan_cons hdot rest nDotCount hpending
        by_cases hgroup : IsGroup (c :: pending).reverse
        · rw [hgoes hgroup]
          exact ih (c :: pending) nDotCount hgroup
        · rw [hstops hgroup]
          refine iff_of_false (fun hsome => nomatch hsome) ?_
          rintro ⟨_, hgroups⟩
          exact hgroup (isGroup_of_splitOnPPrepend hgroups)

/-- What `mds_api_check_ip` accepts of a string: the shape of its first fifteen bytes. -/
theorem mdsApiCheckIp_eq_true_iff (s : Str) {buffLen : Int} (hlen : s.1.length ≤ buffLen) :
    mdsApiCheckIp s buffLen = true ↔ IsShaped (s.1.take definesIpLen) := by
  have hstrnlen : strnlen s.1 definesIpLen = (s.1.take definesIpLen).length := by
    rw [strnlen, takeWhile_of_not_mem s.2, List.length_take, Nat.min_comm]
  have htake : s.1.take (strnlen s.1 definesIpLen) = s.1.take definesIpLen := by
    rw [hstrnlen, List.length_take, List.take_eq_take_iff]
    omega
  have hscan := scan_eq_some_iff (s.1.take definesIpLen) [] 0 3
    ⟨fun _ hmem => (List.not_mem_nil hmem).elim, Nat.zero_le 3⟩
  rw [List.length_nil, List.splitOnPPrepend_nil_right] at hscan
  have hbound : (s.1.take definesIpLen).length ≤ 15 := List.length_take_le _ _
  have hwhole : (s.1.take definesIpLen).length ≤ s.1.length := List.length_take_le' _ _
  unfold mdsApiCheckIp
  dsimp only
  rw [htake, hstrnlen, IsShaped, List.splitOn_eq_splitOnP]
  by_cases hshort : (s.1.take definesIpLen).length < 7
  · refine iff_of_false ?_ (fun hshaped => by omega)
    rw [if_pos (Or.inr hshort)]
    split <;> exact Bool.false_ne_true
  · rw [if_neg (by omega), if_neg (by omega), decide_eq_true_iff, hscan]
    constructor
    · rintro ⟨hdots, hgroups⟩
      exact ⟨by omega, by omega, hgroups⟩
    · rintro ⟨_, hdots, hgroups⟩
      exact ⟨by omega, hgroups⟩

/-! ## Which answers are right -/

theorem sum_length_splitOnP (test : UInt8 → Bool) (text : List UInt8) :
    ((text.splitOnP test).map List.length).sum + (text.splitOnP test).length =
      text.length + 1 := by
  induction text with
  | nil => rfl
  | cons c rest ih =>
      rw [List.splitOnP_cons_eq_if_modifyHead, List.length_cons]
      split
      · rw [List.map_cons, List.sum_cons, List.length_cons, List.length_nil]
        omega
      · cases hsplit : rest.splitOnP test with
        | nil => exact absurd hsplit (List.splitOnP_ne_nil _ _)
        | cons first others =>
            rw [hsplit, List.map_cons, List.sum_cons, List.length_cons] at ih
            rw [List.modifyHead_cons, List.map_cons, List.sum_cons, List.length_cons,
              List.length_cons]
            omega

theorem sum_length_octets {groups : List (List UInt8)} (hgroups : ∀ group ∈ groups, IsOctet group) :
    groups.length ≤ (groups.map List.length).sum ∧
      (groups.map List.length).sum ≤ 3 * groups.length := by
  induction groups with
  | nil => exact ⟨Nat.le_refl 0, Nat.le_refl 0⟩
  | cons group others ih =>
      obtain ⟨⟨_, hmost⟩, hne, _⟩ := hgroups group List.mem_cons_self
      have hleast := List.length_pos_iff.mpr hne
      obtain ⟨hlow, hhigh⟩ := ih fun other hmem => hgroups other (List.mem_cons_of_mem _ hmem)
      rw [List.map_cons, List.sum_cons, List.length_cons]
      omega

/-- An address has seven to fifteen characters, so the scan sees all of it. -/
theorem length_address {text : List UInt8} (haddress : IsAddress text) :
    7 ≤ text.length ∧ text.length ≤ definesIpLen := by
  obtain ⟨hcount, hgroups⟩ := haddress
  have hsum := sum_length_splitOnP (· == dot) text
  obtain ⟨hlow, hhigh⟩ := sum_length_octets hgroups
  rw [List.splitOn_eq_splitOnP] at hcount hlow hhigh
  rw [definesIpLen]
  omega

theorem isShaped_take_of_isAddress {text : List UInt8} (haddress : IsAddress text) :
    IsShaped (text.take definesIpLen) := by
  obtain ⟨hlow, hhigh⟩ := length_address haddress
  rw [List.take_of_length_le hhigh]
  exact ⟨hlow, haddress.1, fun group hmem => (haddress.2 group hmem).1⟩

/-- The call says `DEFINES_MDS_API_OK` for addresses and for nothing else. -/
def JudgesRight (s : Str) (buffLen : Int) : Prop :=
  mdsApiCheckIp s buffLen = true ↔ IsAddress s.1

/-- A name that is not looked up is an address. -/
def SkipsOnlyAddresses (s : Str) (buffLen : Int) : Prop :=
  ∀ (gethostbyname : Str → Option Str) (size : Nat) (ipBuff : Buf size) (ipBuffLen : Int),
    (mdsApiGetDomainToIp gethostbyname s buffLen ipBuff ipBuffLen).resolved = false →
      IsAddress s.1

/--
The text does not look like an address to the scan, or it ends where the scan does and no
group is empty or too large.
-/
def IsPlainText (text : List UInt8) : Prop :=
  IsShaped (text.take definesIpLen) →
    text.length ≤ definesIpLen ∧ ∀ group ∈ text.splitOn dot, group ≠ [] ∧ decimal group ≤ 255

instance decidableIsPlainText (text : List UInt8) : Decidable (IsPlainText text) :=
  inferInstanceAs (Decidable (_ → _))

theorem resolved_eq_false_iff (gethostbyname : Str → Option Str) (s : Str) (buffLen : Int)
    (ipBuff : Buf size) (ipBuffLen : Int) :
    (mdsApiGetDomainToIp gethostbyname s buffLen ipBuff ipBuffLen).resolved = false ↔
      mdsApiCheckIp s buffLen = true := by
  unfold mdsApiGetDomainToIp
  split
  next hcheck => exact iff_of_true rfl hcheck
  next hcheck =>
      refine iff_of_false ?_ hcheck
      split <;> exact fun hfalse => nomatch hfalse

/-- An address is always accepted; what else is accepted is not plain. -/
theorem judgesRight_iff (s : Str) {buffLen : Int} (hlen : s.1.length ≤ buffLen) :
    JudgesRight s buffLen ↔ IsPlainText s.1 := by
  rw [JudgesRight, mdsApiCheckIp_eq_true_iff s hlen]
  constructor
  · intro hright hshaped
    have haddress := hright.mp hshaped
    exact ⟨(length_address haddress).2, fun group hmem => (haddress.2 group hmem).2⟩
  · intro hplain
    refine ⟨fun hshaped => ?_, isShaped_take_of_isAddress⟩
    obtain ⟨hlength, hgroups⟩ := hplain hshaped
    rw [List.take_of_length_le hlength] at hshaped
    exact ⟨hshaped.2.1, fun group hmem => ⟨hshaped.2.2 group hmem, hgroups group hmem⟩⟩

/--
`mds_api_check_ip` tells addresses from other texts, and no other text keeps its name from
being looked up, exactly when the text is plain.
-/
theorem mdsApiCheckIp_judges_right_iff (s : Str) (buffLen : Int) (hlen : s.1.length ≤ buffLen) :
    (JudgesRight s buffLen ∧ SkipsOnlyAddresses s buffLen) ↔ IsPlainText s.1 := by
  rw [← judgesRight_iff s hlen]
  refine ⟨And.left, fun hright => ⟨hright, ?_⟩⟩
  intro gethostbyname size ipBuff ipBuffLen hskipped
  exact hright.mp ((resolved_eq_false_iff gethostbyname s buffLen ipBuff ipBuffLen).mp hskipped)

theorem mdsApiCheckIp_judges_broadcast :
    ((ascii "192.168.0.255").length : Int) ≤ 13 ∧
      JudgesRight ⟨ascii "192.168.0.255", by decide⟩ 13 ∧
        SkipsOnlyAddresses ⟨ascii "192.168.0.255", by decide⟩ 13 :=
  ⟨by decide,
    (mdsApiCheckIp_judges_right_iff ⟨ascii "192.168.0.255", by decide⟩ 13 (by decide)).mpr
      (by decide +kernel)⟩

/-- `300.1.1.1` is accepted. -/
theorem mdsApiCheckIp_large_octet :
    ¬∀ (s : Str) (buffLen : Int), s.1.length ≤ buffLen →
      JudgesRight s buffLen ∧ SkipsOnlyAddresses s buffLen := by
  intro hall
  have hright := (hall ⟨ascii "300.1.1.1", by decide⟩ 9 (by decide)).1
  exact absurd (hright.mp (by decide)) (by decide +kernel)

end MdsFormal.Text.CheckIp
