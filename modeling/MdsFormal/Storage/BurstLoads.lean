import Mathlib.Data.List.Basic
import MdsFormal.Storage.CrashSafety
import MdsFormal.Storage.CrcBursts

/-!
# Loading a record with a burst in it

A saved file in which some bits of one short window have changed is loaded
again.  The target is little-endian: the low byte of the CRC comes first in the
file.
-/

namespace MdsFormal.Storage.BurstLoads

open MdsFormal.Library.BitWindow
open MdsFormal.Library.CrashDisk
open MdsFormal.Storage.Crc16
open MdsFormal.Storage.CrcBursts
open MdsFormal.Storage.File
open MdsFormal.Storage.FaultFree
open MdsFormal.Storage.CrashSafety

/-! ## Changed images -/

def difference (stored image : List UInt8) : List UInt8 :=
  List.zipWith (· ^^^ ·) stored image

/-- The two differ in no bit outside some window of `width` consecutive bits. -/
def DiffersWithin (width : Nat) (stored image : List UInt8) : Prop :=
  ∃ start, ∀ position, bitAt stored position ≠ bitAt image position →
    start ≤ position ∧ position < start + width

theorem getD_difference {stored image : List UInt8} (hlength : image.length = stored.length)
    (k : Nat) : (difference stored image).getD k 0 = stored.getD k 0 ^^^ image.getD k 0 := by
  have hdiff : (difference stored image).length = stored.length := by
    rw [difference, List.length_zipWith, hlength, Nat.min_self]
  rcases Nat.lt_or_ge k stored.length with hlt | hge
  · have hlt' : k < image.length := hlength.symm ▸ hlt
    rw [List.getD_eq_getElem _ _ hlt, List.getD_eq_getElem _ _ hlt',
      List.getD_eq_getElem _ _ (hdiff.symm ▸ hlt)]
    exact List.getElem_zipWith
  · have hge' : image.length ≤ k := hlength.symm ▸ hge
    rw [List.getD_eq_default _ _ hge, List.getD_eq_default _ _ hge',
      List.getD_eq_default _ _ (hdiff.symm ▸ hge)]
    rfl

theorem bitAt_difference {stored image : List UInt8} (hlength : image.length = stored.length)
    (position : Nat) :
    bitAt (difference stored image) position = (bitAt stored position ^^ bitAt image position) := by
  rw [bitAt, getD_difference hlength, UInt8.toNat_xor, Nat.testBit_xor]
  rfl

theorem within_difference {stored image : List UInt8} (hlength : image.length = stored.length)
    {width : Nat} (hwindow : DiffersWithin width stored image) :
    Within width (difference stored image) := by
  obtain ⟨start, hpositions⟩ := hwindow
  refine ⟨start, fun position hset => hpositions position ?_⟩
  rw [bitAt_difference hlength] at hset
  exact bne_iff_ne.mp hset

theorem difference_ne_zero {stored image : List UInt8} (hlength : image.length = stored.length)
    (hne : image ≠ stored) : ∃ k, (difference stored image).getD k 0 ≠ 0 := by
  apply Classical.byContradiction
  intro hnone
  apply hne
  apply List.ext_getElem hlength
  intro k himage hstored
  have hzero : (difference stored image).getD k 0 = 0 :=
    Classical.byContradiction fun h => hnone ⟨k, h⟩
  rw [getD_difference hlength, List.getD_eq_getElem _ _ hstored,
    List.getD_eq_getElem _ _ himage] at hzero
  exact (UInt8.xor_eq_zero_iff.mp hzero).symm

/-- Bits behind the last byte do not differ. -/
theorem differsWithin_of_bytes {stored image : List UInt8} {count : Nat}
    (hstored : stored.length ≤ count) (himage : image.length ≤ count) {width start : Nat}
    (hbits : ∀ position < 8 * count, bitAt stored position ≠ bitAt image position →
      start ≤ position ∧ position < start + width) : DiffersWithin width stored image := by
  refine ⟨start, fun position hdiffers => ?_⟩
  rcases Nat.lt_or_ge position (8 * count) with hlt | hge
  · exact hbits position hlt hdiffers
  · refine absurd ?_ hdiffers
    have hbyte : count ≤ position / 8 := by omega
    rw [bitAt, bitAt, List.getD_eq_default _ _ (Nat.le_trans hstored hbyte),
      List.getD_eq_default _ _ (Nat.le_trans himage hbyte)]

/-! ## Consistency of a changed image -/

/-- Of two stored bytes the first is the low one. -/
theorem loadU16_little_eq_iff (first second : UInt8) (crc : UInt16) :
    loadU16 .little [first, second] = crc ↔ low crc = first ∧ high crc = second := by
  have hlow : low (loadU16 .little [first, second]) = first := by
    apply UInt8.toNat_inj.mp
    simp [low, loadU16]
  have hhigh : high (loadU16 .little [first, second]) = second := by
    apply UInt8.toNat_inj.mp
    simp [high, loadU16, Nat.shiftRight_eq_div_pow]
    have hfirst := first.toNat_lt
    have hsecond := second.toNat_lt
    omega
  constructor
  · rintro rfl
    exact ⟨hlow, hhigh⟩
  · rintro ⟨hlow', hhigh'⟩
    exact eq_of_high_low (hhigh.trans hhigh'.symm) (hlow.trans hlow'.symm)

theorem storeU16_little (value : UInt16) : storeU16 .little value = [low value, high value] := by
  have hvalue := value.toNat_lt
  rw [storeU16, List.cons.injEq, List.cons.injEq]
  refine ⟨?_, ?_, rfl⟩
  · apply UInt8.toNat_inj.mp
    simp [low]
  · apply UInt8.toNat_inj.mp
    simp [high, Nat.shiftRight_eq_div_pow]

/-- The last two bytes apart. -/
theorem exists_payload_crc {image : Bytes} {length : Nat} (hlength : image.length = length + 2) :
    ∃ payload first second, image = payload ++ [first, second] ∧ payload.length = length := by
  obtain ⟨first, second, hlast⟩ : ∃ first second, image.drop length = [first, second] := by
    apply List.length_eq_two.mp
    rw [List.length_drop, hlength, Nat.add_sub_cancel_left]
  refine ⟨image.take length, first, second, ?_, ?_⟩
  · rw [← hlast, List.take_append_drop]
  · rw [List.length_take]
    omega

theorem difference_append {payload changed : Bytes} (hlength : changed.length = payload.length)
    (first second first' second' : UInt8) :
    difference (payload ++ [first, second]) (changed ++ [first', second']) =
      difference payload changed ++ [first ^^^ first', second ^^^ second'] := by
  rw [difference, List.zipWith_append hlength.symm]
  rfl

/-- A changed record is still one exactly when the change is consistent. -/
theorem isRecord_iff_consistent {pdata changed : Bytes} (hlength : changed.length = pdata.length)
    (first second : UInt8) :
    IsRecord .little pdata.length (changed ++ [first, second]) ↔
      Consistent (difference pdata changed) (low (mdsApiCrc16Get pdata) ^^^ first)
        (high (mdsApiCrc16Get pdata) ^^^ second) := by
  have hcrc : mdsApiCrc16Get (difference pdata changed) =
      mdsApiCrc16Get pdata ^^^ mdsApiCrc16Get changed :=
    mdsApiCrc16Get_xor hlength.symm
  have hsize : (changed ++ [first, second]).length = pdata.length + 2 := by
    rw [List.length_append, hlength]
    rfl
  rw [IsRecord, ← hlength, List.drop_left, List.take_left, hlength, loadU16_little_eq_iff,
    Consistent, hcrc, low_xor, high_xor, UInt8.xor_right_inj, UInt8.xor_right_inj]
  exact and_iff_right hsize

/-- Of the images that differ from a record within sixteen bits, the missed changes give the
only ones that are records themselves. -/
theorem isRecord_iff_missedChange {pdata image : Bytes} (hpdata : pdata ≠ [])
    (hlength : image.length = (record .little pdata).length) (hne : image ≠ record .little pdata)
    (hwindow : DiffersWithin 16 (record .little pdata) image) :
    IsRecord .little pdata.length image ↔
      MissedChange (difference (record .little pdata) image) := by
  have hwithin := within_difference hlength hwindow
  have hchange := difference_ne_zero hlength hne
  rw [length_record] at hlength
  obtain ⟨changed, first, second, rfl, hchanged⟩ := exists_payload_crc hlength
  rw [record, storeU16_little, difference_append hchanged] at hwithin hchange ⊢
  have hdiff : difference pdata changed ≠ [] := by
    apply List.ne_nil_of_length_pos
    rw [difference, List.length_zipWith, hchanged, Nat.min_self]
    exact List.length_pos_iff.mpr hpdata
  rw [isRecord_iff_consistent hchanged]
  exact consistent_iff_missedChange hdiff hwithin hchange

/-! ## Loading without faults -/

variable {endian : Endian} {disk : Disk FileName UInt8} {length : Nat} {content : Bytes}

/-- A file of the right length whose CRC does not match. -/
theorem loadFile_not_record {name : FileName} (hdisk : disk name = some content)
    (hlength : content.length = length + 2) (hnot : ¬ IsRecord endian length content) :
    loadFile endian name length (.boot disk) =
      (-errDataCrc, List.replicate length 0, .boot disk) := by
  have hcrc : loadU16 endian (content.drop length) ≠ mdsApiCrc16Get (content.take length) :=
    fun hmatch => hnot ⟨hlength, hmatch⟩
  have hwhole : content.take (length + 2) = content := by
    rw [← hlength, List.take_length]
  have hread := readLoop_enough [] hdisk (Nat.le_of_eq hlength.symm) 2 errNone
  rw [hwhole] at hread
  simp [loadFile, Kernel.boot, Kernel.attempt, Kernel.answer, Kernel.consume, Answer.succeeds,
    hread, hcrc]

/-- Whatever a load delivers is a record at the front of the file. -/
theorem loadFile_delivers {name : FileName} (hdisk : disk name = some content)
    {effects : List (Effect FileName UInt8)}
    (hnone : (loadFile endian name length ⟨disk, [], effects⟩).1 = errNone) :
    IsRecord endian length (content.take (length + 2)) ∧
      (loadFile endian name length ⟨disk, [], effects⟩).2.1 = content.take length := by
  rcases Nat.lt_or_ge content.length (length + 2) with hshort | henough
  · rw [loadFile_short effects hdisk hshort] at hnone
    exact absurd (show -errFileRead = errNone from hnone) (by decide)
  · have hread := readLoop_enough effects hdisk henough 2 errNone
    have hload : loadFile endian name length ⟨disk, [], effects⟩ =
        if loadU16 endian ((content.take (length + 2)).drop length) ≠
            mdsApiCrc16Get ((content.take (length + 2)).take length) then
          (-errDataCrc, List.replicate length 0, ⟨disk, [], effects⟩)
        else (errNone, (content.take (length + 2)).take length, ⟨disk, [], effects⟩) := by
      simp [loadFile, Kernel.attempt, Kernel.answer, Kernel.consume, Answer.succeeds, hread]
    rw [hload] at hnone ⊢
    split at hnone
    · exact absurd (show -errDataCrc = errNone from hnone) (by decide)
    · next hmatch =>
        rw [if_neg hmatch]
        refine ⟨⟨?_, not_not.mp hmatch⟩, ?_⟩
        · rw [List.length_take, Nat.min_eq_left henough]
        · rw [List.take_take, Nat.min_eq_left (Nat.le_add_right length 2)]

/-- A rejected `file` is replaced by `file.bak`; only a record found there is delivered. -/
theorem mdsApiStorageLoadFile_delivers_backup (buffer : Bytes) (hdisk : disk .file = some content)
    (hlength : content.length = length + 2) (hnot : ¬ IsRecord endian length content)
    (hnone : (mdsApiStorageLoadFile endian buffer length (.boot disk)).1 = errNone) :
    ∃ backup, disk .bak = some backup ∧ IsRecord endian length (backup.take (length + 2)) ∧
      (mdsApiStorageLoadFile endian buffer length (.boot disk)).2.1 = backup.take length := by
  have hload : mdsApiStorageLoadFile endian buffer length (.boot disk) =
      loadOrRecover endian length (.boot disk) := by
    simp [mdsApiStorageLoadFile, isExistFile, Kernel.boot, hdisk]
  have hfirst := loadFile_not_record hdisk hlength hnot
  rw [hload] at hnone ⊢
  cases hbackup : disk .bak with
  | none =>
      have hrecovery : fileRecovery (.boot disk) =
          (-errFileNotExist, (Kernel.boot disk).consume) := by
        simp [fileRecovery, mdsApiCp, Kernel.openRead, Kernel.boot, hbackup, mdsApiNok]
      have hkept : loadOrRecover endian length (.boot disk) =
          (-errDataCrc, List.replicate length 0, (Kernel.boot disk).consume) := by
        simp only [loadOrRecover, hfirst, hrecovery]
        rfl
      rw [hkept] at hnone
      exact absurd (show -errDataCrc = errNone from hnone) (by decide)
  | some backup =>
      obtain ⟨writes, hcopy, -⟩ :=
        mdsApiCp_copies [] (show FileName.bak ≠ .file by decide) hbackup
      have hrecovery : fileRecovery (.boot disk) =
          (errNone, ⟨Function.update disk .file (some backup), [], [] ++ writes⟩) := by
        simp only [fileRecovery, Kernel.boot, hcopy]
        rfl
      have hsecond : loadOrRecover endian length (.boot disk) =
          loadFile endian .file length
            ⟨Function.update disk .file (some backup), [], [] ++ writes⟩ := by
        simp only [loadOrRecover, hfirst, hrecovery, if_true]
      rw [hsecond] at hnone ⊢
      exact ⟨backup, rfl, loadFile_delivers (Function.update_self _ _ _) hnone⟩

/-! ## Bursts in a saved file -/

/--
A saved file with a change of at most sixteen consecutive bits is rejected unless
the change is a missed one, and then a load delivers nothing but a record that
`file.bak` holds.
-/
theorem burst_rejected_iff {before disk : Disk FileName UInt8} {pdata stored image : Bytes}
    (hpdata : pdata ≠ []) (hstored : savedDisk .little before pdata .file = some stored)
    (hlength : image.length = stored.length) (hne : image ≠ stored)
    (hwindow : DiffersWithin 16 stored image) (himage : disk .file = some image) :
    ((loadFile .little .file pdata.length (.boot disk)).1 = -errDataCrc ↔
        ¬ MissedChange (difference stored image)) ∧
      (¬ MissedChange (difference stored image) → ∀ buffer,
        (mdsApiStorageLoadFile .little buffer pdata.length (.boot disk)).1 = errNone →
          ∃ backup, disk .bak = some backup ∧
            IsRecord .little pdata.length (backup.take (pdata.length + 2)) ∧
            (mdsApiStorageLoadFile .little buffer pdata.length (.boot disk)).2.1 =
              backup.take pdata.length) := by
  obtain rfl : record .little pdata = stored := by
    rw [savedDisk_eq, Function.update_self] at hstored
    exact Option.some.inj hstored
  have hrecord := isRecord_iff_missedChange hpdata hlength hne hwindow
  rw [length_record] at hlength
  rw [← hrecord]
  refine ⟨⟨?_, ?_⟩, ?_⟩
  · intro hcode hisrecord
    rw [Kernel.boot, loadFile_record [] himage hisrecord] at hcode
    exact absurd (show errNone = -errDataCrc from hcode) (by decide)
  · intro hnot
    rw [loadFile_not_record himage hlength hnot]
  · intro hnot buffer hnone
    exact mdsApiStorageLoadFile_delivers_backup buffer himage hlength hnot hnone

/-- The record of one zero byte. -/
theorem savedDisk_zero : savedDisk .little (fun _ => none) [0] .file = some [0, 0, 0] := by
  rw [savedDisk_eq, Function.update_self]
  decide

/-- One bit of the payload changed. -/
theorem burst_rejected_iff_one_bit :
    ((loadFile .little .file 1 (.boot fun _ => some [0x80, 0, 0])).1 = -errDataCrc ↔
        ¬ MissedChange (difference [0, 0, 0] [0x80, 0, 0])) ∧
      (¬ MissedChange (difference [0, 0, 0] [0x80, 0, 0]) → ∀ buffer,
        (mdsApiStorageLoadFile .little buffer 1 (.boot fun _ => some [0x80, 0, 0])).1 = errNone →
          ∃ backup, some [0x80, 0, 0] = some backup ∧
            IsRecord .little 1 (backup.take (1 + 2)) ∧
            (mdsApiStorageLoadFile .little buffer 1 (.boot fun _ => some [0x80, 0, 0])).2.1 =
              backup.take 1) := by
  have hwindow : DiffersWithin 16 [0, 0, 0] [0x80, 0, 0] :=
    differsWithin_of_bytes (show 3 ≤ 3 by decide) (show 3 ≤ 3 by decide)
      (show ∀ position < 8 * 3, bitAt [0, 0, 0] position ≠ bitAt [0x80, 0, 0] position →
        0 ≤ position ∧ position < 0 + 16 by decide)
  exact burst_rejected_iff (by decide) savedDisk_zero rfl (by decide) hwindow rfl

/-- The change 01 21 10 of one zero byte and its CRC is not seen, and the changed payload is
delivered. -/
theorem burst_not_rejected :
    ¬ ∀ (before disk : Disk FileName UInt8) (pdata stored image : Bytes), pdata ≠ [] →
        savedDisk .little before pdata .file = some stored → image.length = stored.length →
          image ≠ stored → DiffersWithin 16 stored image → disk .file = some image →
            (loadFile .little .file pdata.length (.boot disk)).1 = -errDataCrc := by
  intro hall
  have hwindow : DiffersWithin 16 [0, 0, 0] [0x01, 0x21, 0x10] :=
    differsWithin_of_bytes (show 3 ≤ 3 by decide) (show 3 ≤ 3 by decide)
      (show ∀ position < 8 * 3, bitAt [0, 0, 0] position ≠ bitAt [0x01, 0x21, 0x10] position →
        7 ≤ position ∧ position < 7 + 16 by decide)
  have hrejected := hall (fun _ => none) (fun _ => some [0x01, 0x21, 0x10]) [0] [0, 0, 0]
    [0x01, 0x21, 0x10] (by decide) savedDisk_zero rfl (by decide) hwindow rfl
  exact absurd hrejected (by decide)

end MdsFormal.Storage.BurstLoads
