import MdsFormal.Text.RemoveChars
import MdsFormal.Library.Occurrence

/-!
# Reading NMEA data

`mds_api_gpsd_get_nmea` receives a datagram, takes its spaces out and hands it to the caller
if it has both kinds of sentence in it.  Each stage passes a length on that the next one has
room for, except that the last one never looks at the length of the caller's buffer.
-/

namespace MdsFormal.Gps.Nmea

open MdsFormal.Library.Buffer
open MdsFormal.Library.CString
open MdsFormal.Library.Occurrence
open MdsFormal.Library.StoreTrace
open MdsFormal.Text.RemoveChars

/-! ## The code -/

/-- `IPC_BUFF_SIZE` -/
def ipcBuffSize : Nat := 1024

/-- An array that was declared with `= {0,}`. -/
def zeros : Memory := fun _ => 0

/-- The bytes of an array before its first NUL. -/
def stringIn (size : Nat) (memory : Memory) : List UInt8 :=
  ((List.range size).map memory).takeWhile (· ≠ 0)

theorem nul_not_mem_stringIn (size : Nat) (memory : Memory) : 0 ∉ stringIn size memory := by
  intro hnul
  have hzero := List.all_eq_true.mp List.all_takeWhile 0 hnul
  exact of_decide_eq_true hzero rfl

/-- The argument of a function that takes a string. -/
def strIn (size : Nat) (memory : Memory) : Str :=
  ⟨stringIn size memory, nul_not_mem_stringIn size memory⟩

@[simp] theorem strIn_val (size : Nat) (memory : Memory) :
    (strIn size memory).val = stringIn size memory := rfl

/-- `udp_ipc_data_recv_timeout`; nothing arrives when the socket cannot be bound, or in time.
`recvfrom` cuts a datagram at the size of `buff_rcv`. -/
def udpIpcDataRecvTimeout (arrival : Option (List UInt8)) (buff : Option Memory) (buffLen : Int) :
    Int × Option Stores :=
  match arrival with
  | none => (-1, buff.map Stores.start)
  | some datagram =>
      let buffRcv := datagram.take ipcBuffSize
      if buffRcv.length ≤ 0 then (-1, buff.map Stores.start)
      else
        match buff with
        | none => (-1, none)
        | some buff =>
            if (buffRcv.length : Int) < buffLen then
              (buffRcv.length, some ((Stores.start buff).storeAll 0 buffRcv))
            else (-1, some (Stores.start buff))

/-- What a call returns, and what it stored into the caller's buffer and its own two. -/
structure Reading where
  ret : Int
  buff : Stores
  recvBuff : Stores
  recvBuffRemoveSpace : Stores

/-- `strstr(buffer, needle) == NULL` -/
def lacks (buffer : Stores) (needle : String) : Prop :=
  occurrence (ascii needle) (stringIn ipcBuffSize buffer.memory) = none

instance decidableLacks (buffer : Stores) (needle : String) : Decidable (lacks buffer needle) :=
  inferInstanceAs (Decidable (_ = _))

/-- `mds_api_gpsd_get_nmea` behind the removal of the spaces. -/
def deliver (buff : Memory) (recvBuff : Stores) (removed : Int × Stores) : Reading :=
  if removed.1 ≤ 0 then ⟨0, Stores.start buff, recvBuff, removed.2⟩
  else if lacks removed.2 "$GPGSA" ∨ lacks removed.2 "$GPRMC" then
    ⟨0, Stores.start buff, recvBuff, removed.2⟩
  else
    ⟨removed.1,
      (Stores.start buff).storeAll 0 ((List.range removed.1.toNat).map removed.2.memory),
      recvBuff, removed.2⟩

/-- `mds_api_gpsd_get_nmea`; the length of the buffer is not used. -/
def mdsApiGpsdGetNmea (arrival : Option (List UInt8)) (buff : Memory) (_buffLen : Int) : Reading :=
  match udpIpcDataRecvTimeout arrival (some zeros) ipcBuffSize with
  | (_, none) => ⟨0, Stores.start buff, Stores.start zeros, Stores.start zeros⟩
  | (recvLen, some recvBuff) =>
      if recvLen ≤ 0 then ⟨0, Stores.start buff, recvBuff, Stores.start zeros⟩
      else
        deliver buff recvBuff
          (mdsApiRemoveChar (strIn ipcBuffSize recvBuff.memory) zeros recvLen 32)

/-! ## The arrays -/

/-- A cleared array that bytes were stored into. -/
theorem map_range_storeAll {size : Nat} {bytes : List UInt8} (hfits : bytes.length ≤ size) :
    (List.range size).map ((Stores.start zeros).storeAll 0 bytes).memory =
      bytes ++ List.replicate (size - bytes.length) 0 := by
  refine List.ext_getElem (by simp; omega) fun i hleft hright => ?_
  rw [List.getElem_map, List.getElem_range, storeAll_memory]
  rcases Nat.lt_or_ge i bytes.length with hlt | hge
  · rw [List.getElem_append_left hlt]
    have hget := @writeAt_get zeros 0 i bytes _ (List.getElem?_eq_getElem hlt)
    rwa [Nat.zero_add] at hget
  · rw [List.getElem_append_right hge, List.getElem_replicate]
    exact writeAt_outside (Or.inr (by omega))

/-- The string in a cleared array is what was stored up to a NUL. -/
theorem stringIn_storeAll {size : Nat} {bytes : List UInt8} (hfits : bytes.length ≤ size) :
    stringIn size ((Stores.start zeros).storeAll 0 bytes).memory = bytes.takeWhile (· ≠ 0) := by
  have hzeros : (List.replicate (size - bytes.length) (0 : UInt8)).takeWhile (· ≠ 0) = [] := by
    cases size - bytes.length with
    | zero => rfl
    | succ left => rfl
  rw [stringIn, map_range_storeAll hfits, List.takeWhile_append, hzeros]
  split
  · rename_i hwhole
    rw [List.append_nil]
    exact ((List.takeWhile_prefix _).eq_of_length hwhole).symm
  · rfl

/-- No index of an array was passed by a store or by a search for the NUL. -/
def InBounds (buffer : Stores) : Prop :=
  buffer.Within ipcBuffSize ∧ (stringIn ipcBuffSize buffer.memory).length < ipcBuffSize

theorem inBounds_storeAll {bytes : List UInt8} (hfits : bytes.length < ipcBuffSize) :
    InBounds ((Stores.start zeros).storeAll 0 bytes) := by
  refine ⟨(storeAll_start_within_iff zeros).mpr (Or.inr (by omega)), ?_⟩
  rw [stringIn_storeAll (Nat.le_of_lt hfits)]
  exact Nat.lt_of_le_of_lt (List.takeWhile_prefix _).length_le hfits

theorem inBounds_zeros : InBounds (Stores.start zeros) :=
  @inBounds_storeAll [] (by decide)

/-! ## One reading -/

/-- A datagram up to its first NUL, without its spaces. -/
def nmeaText (datagram : List UInt8) : List UInt8 :=
  (datagram.takeWhile (· ≠ 0)).filter (· ≠ 32)

def HasSentences (text : List UInt8) : Prop := ascii "$GPGSA" <:+: text ∧ ascii "$GPRMC" <:+: text

/-- A datagram that fits the receive buffer and has both kinds of sentence. -/
def Usable (arrival : Option (List UInt8)) (datagram : List UInt8) : Prop :=
  arrival = some datagram ∧ datagram.length < ipcBuffSize ∧ HasSentences (nmeaText datagram)

theorem nul_not_mem_nmeaText (datagram : List UInt8) : 0 ∉ nmeaText datagram := by
  intro hmem
  have hall := List.all_eq_true.mp List.all_takeWhile 0 (List.mem_of_mem_filter hmem)
  exact of_decide_eq_true hall rfl

theorem length_nmeaText_le (datagram : List UInt8) :
    (nmeaText datagram).length ≤ datagram.length :=
  Nat.le_trans (List.length_filter_le _ _) (List.takeWhile_prefix _).length_le

theorem HasSentences.pos {text : List UInt8} (hsentences : HasSentences text) :
    0 < text.length := Nat.lt_of_lt_of_le (by decide) hsentences.1.length_le

/-- The removal of the spaces has room for all that it keeps. -/
theorem removeSpace_eq {datagram : List UInt8} (hsize : datagram.length < ipcBuffSize) :
    mdsApiRemoveChar (strIn ipcBuffSize ((Stores.start zeros).storeAll 0 datagram).memory) zeros
        datagram.length 32 =
      (((nmeaText datagram).length : Int),
        (Stores.start zeros).storeAll 0 (nmeaText datagram)) := by
  have hlength := length_nmeaText_le datagram
  rw [mdsApiRemoveChar, strIn_val, stringIn_storeAll (Nat.le_of_lt hsize),
    removeLoop_eq _ _ _ _ _ (Nat.zero_le _), Nat.zero_add]
  exact if_pos hlength

theorem lacks_iff {text : List UInt8} (hnul : 0 ∉ text) (hsize : text.length < ipcBuffSize)
    (needle : String) :
    lacks ((Stores.start zeros).storeAll 0 text) needle ↔ ¬ascii needle <:+: text := by
  rw [lacks, stringIn_storeAll (Nat.le_of_lt hsize), takeWhile_of_not_mem hnul,
    infix_iff_occurrence, not_exists, Option.eq_none_iff_forall_ne_some]

/-- What is handed on of a text without spaces. -/
theorem deliver_eq (buff : Memory) (recvBuff : Stores) {text : List UInt8} (hnul : 0 ∉ text)
    (hsize : text.length < ipcBuffSize) :
    (HasSentences text →
      deliver buff recvBuff (text.length, (Stores.start zeros).storeAll 0 text) =
        ⟨text.length, (Stores.start buff).storeAll 0 text, recvBuff,
          (Stores.start zeros).storeAll 0 text⟩) ∧
      (¬HasSentences text →
        deliver buff recvBuff (text.length, (Stores.start zeros).storeAll 0 text) =
          ⟨0, Stores.start buff, recvBuff, (Stores.start zeros).storeAll 0 text⟩) := by
  have hlacks : (lacks ((Stores.start zeros).storeAll 0 text) "$GPGSA" ∨
      lacks ((Stores.start zeros).storeAll 0 text) "$GPRMC") ↔ ¬HasSentences text := by
    rw [lacks_iff hnul hsize, lacks_iff hnul hsize, HasSentences, not_and_or]
  constructor
  · intro hsentences
    have hpos := hsentences.pos
    have hbytes := map_range_storeAll (Nat.le_refl text.length)
    rw [Nat.sub_self, List.replicate_zero, List.append_nil] at hbytes
    rw [deliver, if_neg (by simp only; omega), if_neg (mt hlacks.mp (not_not_intro hsentences))]
    simp only [Int.toNat_natCast, hbytes]
  · intro hnone
    rw [deliver]
    split
    · rfl
    · exact if_pos (hlacks.mpr hnone)

/-- The receive function keeps datagrams that are shorter than its buffer. -/
theorem recv_eq (datagram : List UInt8) :
    udpIpcDataRecvTimeout (some datagram) (some zeros) ipcBuffSize =
      if 0 < datagram.length ∧ datagram.length < ipcBuffSize then
        ((datagram.length : Int), some ((Stores.start zeros).storeAll 0 datagram))
      else (-1, some (Stores.start zeros)) := by
  have hlength : (datagram.take ipcBuffSize).length = min ipcBuffSize datagram.length :=
    List.length_take
  have hbuff : 0 < ipcBuffSize := by decide
  rw [udpIpcDataRecvTimeout]
  rcases Nat.eq_zero_or_pos datagram.length with hempty | hpos
  · rw [if_pos (by omega), if_neg (by omega)]
    rfl
  · rw [if_neg (by omega)]
    rcases Nat.lt_or_ge datagram.length ipcBuffSize with hfits | hlong
    · rw [List.take_of_length_le (Nat.le_of_lt hfits), if_pos (by omega), if_pos ⟨hpos, hfits⟩]
    · rw [if_neg (by omega), if_neg (by omega)]

/-- Without a usable datagram nothing is delivered. -/
theorem reading_unusable {arrival : Option (List UInt8)} (buff : Memory) (buffLen : Int)
    (hnone : ∀ datagram, ¬Usable arrival datagram) :
    (mdsApiGpsdGetNmea arrival buff buffLen).ret = 0 ∧
      (mdsApiGpsdGetNmea arrival buff buffLen).buff = Stores.start buff ∧
      InBounds (mdsApiGpsdGetNmea arrival buff buffLen).recvBuff ∧
      InBounds (mdsApiGpsdGetNmea arrival buff buffLen).recvBuffRemoveSpace := by
  cases arrival with
  | none => exact ⟨rfl, rfl, inBounds_zeros, inBounds_zeros⟩
  | some datagram =>
      rw [mdsApiGpsdGetNmea, recv_eq]
      rcases Decidable.em (0 < datagram.length ∧ datagram.length < ipcBuffSize) with hsize | hsize
      · have htext := Nat.lt_of_le_of_lt (length_nmeaText_le datagram) hsize.2
        have hpositive : ¬(datagram.length : Int) ≤ 0 := by omega
        rw [if_pos hsize]
        dsimp only
        rw [if_neg hpositive, removeSpace_eq hsize.2,
          (deliver_eq buff _ (nul_not_mem_nmeaText datagram) htext).2
            (fun hsentences => hnone datagram ⟨rfl, hsize.2, hsentences⟩)]
        exact ⟨rfl, rfl, inBounds_storeAll hsize.2, inBounds_storeAll htext⟩
      · rw [if_neg hsize]
        exact ⟨rfl, rfl, inBounds_zeros, inBounds_zeros⟩

/-- A usable datagram is delivered, whatever the length of the caller's buffer is. -/
theorem reading_usable {arrival : Option (List UInt8)} {datagram : List UInt8} (buff : Memory)
    (buffLen : Int) (husable : Usable arrival datagram) :
    mdsApiGpsdGetNmea arrival buff buffLen =
      ⟨(nmeaText datagram).length, (Stores.start buff).storeAll 0 (nmeaText datagram),
        (Stores.start zeros).storeAll 0 datagram,
        (Stores.start zeros).storeAll 0 (nmeaText datagram)⟩ := by
  obtain ⟨rfl, hsize, hsentences⟩ := husable
  have hlength := length_nmeaText_le datagram
  have hpos := hsentences.pos
  have hpositive : ¬(datagram.length : Int) ≤ 0 := by omega
  rw [mdsApiGpsdGetNmea, recv_eq, if_pos ⟨by omega, hsize⟩]
  dsimp only
  rw [if_neg hpositive, removeSpace_eq hsize]
  exact (deliver_eq buff _ (nul_not_mem_nmeaText datagram) (by omega)).1 hsentences

/-! ## The caller's buffer -/

/-- What was returned and stored for a datagram that is handed on. -/
structure HandsOn (datagram : List UInt8) (buffLen : Int) (ret : Int) (buff : Stores) : Prop where
  length : ret = (nmeaText datagram).length
  positive : 0 < ret
  fits : ret ≤ buffLen
  content : Holds buff.memory 0 (nmeaText datagram)
  within : buff.Within buffLen
  sentences : HasSentences (nmeaText datagram)

/-- A reading that leaves the caller's buffer alone or hands on a datagram that fits it, and
stays within its own arrays. -/
structure Respects (arrival : Option (List UInt8)) (buff : Memory) (buffLen : Int)
    (reading : Reading) : Prop where
  outcome : (reading.ret = 0 ∧ reading.buff = Stores.start buff) ∨
    ∃ datagram, arrival = some datagram ∧ HandsOn datagram buffLen reading.ret reading.buff
  recvBuff : InBounds reading.recvBuff
  recvBuffRemoveSpace : InBounds reading.recvBuffRemoveSpace

/-- The caller's buffer is respected exactly when no usable datagram is too long for it. -/
theorem mdsApiGpsdGetNmea_respects_iff (arrival : Option (List UInt8)) (buff : Memory)
    (buffLen : Nat) :
    Respects arrival buff buffLen (mdsApiGpsdGetNmea arrival buff buffLen) ↔
      ∀ datagram, Usable arrival datagram → (nmeaText datagram).length ≤ buffLen := by
  constructor
  · intro hrespects datagram husable
    have hpos := husable.2.2.pos
    have houtcome := hrespects.outcome
    rw [reading_usable buff buffLen husable] at houtcome
    rcases houtcome with ⟨hzero, -⟩ | ⟨other, hother, hhands⟩
    · have hempty : ((nmeaText datagram).length : Int) = 0 := hzero
      omega
    · exact Int.ofNat_le.mp hhands.fits
  · intro hfits
    rcases Classical.em (∃ datagram, Usable arrival datagram) with ⟨datagram, husable⟩ | hnone
    · have hlength := hfits datagram husable
      have hpos := husable.2.2.pos
      have htext := Nat.lt_of_le_of_lt (length_nmeaText_le datagram) husable.2.1
      rw [reading_usable buff buffLen husable]
      refine ⟨Or.inr ⟨datagram, husable.1, rfl, ?_, ?_, storeAll_holds, ?_, husable.2.2⟩, ?_, ?_⟩
      · exact Int.natCast_pos.mpr hpos
      · exact Int.ofNat_le.mpr hlength
      · exact (storeAll_start_within_iff buff).mpr (Or.inr (Int.ofNat_le.mpr hlength))
      · exact inBounds_storeAll husable.2.1
      · exact inBounds_storeAll htext
    · obtain ⟨hret, hbuff, hrecv, hremoved⟩ :=
        @reading_unusable arrival buff buffLen fun datagram husable => hnone ⟨datagram, husable⟩
      exact ⟨Or.inl ⟨hret, hbuff⟩, hrecv, hremoved⟩

/-- Twelve characters are stored into a buffer without room. -/
theorem mdsApiGpsdGetNmea_overruns :
    ¬∀ (arrival : Option (List UInt8)) (buff : Memory) (buffLen : Nat),
      Respects arrival buff buffLen (mdsApiGpsdGetNmea arrival buff buffLen) := by
  intro hall
  have husable : Usable (some (ascii "$GPGSA$GPRMC")) (ascii "$GPGSA$GPRMC") :=
    ⟨rfl, by decide, ⟨[], ascii "$GPRMC", by decide⟩, ⟨ascii "$GPGSA", [], by decide⟩⟩
  have houtcome := (hall (some (ascii "$GPGSA$GPRMC")) zeros 0).outcome
  rw [reading_usable zeros _ husable] at houtcome
  rcases houtcome with ⟨hzero, -⟩ | ⟨datagram, -, hhands⟩
  · cases hzero
  · exact absurd hhands.fits (by decide)

end MdsFormal.Gps.Nmea
