/-!
# Character buffers and the strings in them

A buffer has a fixed size.  The string it holds is what comes before the first
NUL; copying a string writes its bytes and one NUL and leaves the rest alone.
-/

namespace MdsFormal.Library.CString

/-- What a pointer to a string points to, without its NUL. -/
abbrev Str := { string : List UInt8 // 0 ∉ string }

def ascii (text : String) : List UInt8 := text.toList.map fun c => UInt8.ofNat c.toNat

/-- A character array of the given size. -/
structure Buf (size : Nat) where
  bytes : List UInt8
  length_eq : bytes.length = size
  deriving DecidableEq

/-- `strnlen`; an array without a NUL counts with its whole length. -/
def strnlen (string : List UInt8) (maxlen : Nat) : Nat :=
  min (string.takeWhile (· ≠ 0)).length maxlen

variable {size : Nat}

def Buf.zero (size : Nat) : Buf size := ⟨List.replicate size 0, List.length_replicate⟩

/-- The string that `strcmp` and `%s` see. -/
def Buf.str (buf : Buf size) : List UInt8 := buf.bytes.takeWhile (· ≠ 0)

theorem length_copied (buf : Buf size) (source : List UInt8) :
    ((source ++ 0 :: buf.bytes.drop (source.length + 1)).take size).length = size := by
  have hlength := buf.length_eq
  rw [List.length_take, List.length_append, List.length_cons, List.length_drop]
  omega

/-- `strcpy`; bytes behind the end of the buffer are not modelled. -/
def Buf.strcpy (buf : Buf size) (source : List UInt8) : Buf size :=
  ⟨(source ++ 0 :: buf.bytes.drop (source.length + 1)).take size, length_copied buf source⟩

theorem length_overwritten (buf : Buf size) (bytes : List UInt8) :
    ((bytes ++ buf.bytes.drop bytes.length).take size).length = size := by
  have hlength := buf.length_eq
  rw [List.length_take, List.length_append, List.length_drop]
  omega

/-- Bytes written over the front of the buffer; those behind its end are not modelled. -/
def Buf.overwrite (buf : Buf size) (bytes : List UInt8) : Buf size :=
  ⟨(bytes ++ buf.bytes.drop bytes.length).take size, length_overwritten buf bytes⟩

/-- A string that fits is read back. -/
theorem str_strcpy (buf : Buf size) {source : List UInt8} (hnul : 0 ∉ source)
    (hfits : source.length < size) : (buf.strcpy source).str = source := by
  obtain ⟨rest, hrest⟩ : ∃ rest, (buf.strcpy source).bytes = source ++ 0 :: rest := by
    refine ⟨(buf.bytes.drop (source.length + 1)).take (size - source.length - 1), ?_⟩
    have hpos : size - source.length = size - source.length - 1 + 1 := by omega
    change (source ++ 0 :: buf.bytes.drop (source.length + 1)).take size = _
    rw [List.take_append, List.take_of_length_le (Nat.le_of_lt hfits), hpos, List.take_succ_cons]
    rfl
  have hall : ∀ byte ∈ source, decide (byte ≠ 0) = true := by
    intro byte hbyte
    refine decide_eq_true ?_
    rintro rfl
    exact hnul hbyte
  rw [Buf.str, hrest, List.takeWhile_append_of_pos hall]
  simp

theorem takeWhile_append_zeros {string : List UInt8} (hnul : 0 ∉ string) (count : Nat) :
    (string ++ List.replicate count 0).takeWhile (· ≠ 0) = string := by
  have hall : ∀ byte ∈ string, decide (byte ≠ 0) = true := by
    intro byte hbyte
    apply decide_eq_true
    rintro rfl
    exact hnul hbyte
  rw [List.takeWhile_append_of_pos hall]
  cases count with
  | zero => exact List.append_nil string
  | succ count => exact List.append_nil string

theorem takeWhile_of_not_mem {string : List UInt8} (hnul : 0 ∉ string) :
    string.takeWhile (· ≠ 0) = string := by
  have hnone := takeWhile_append_zeros hnul 0
  rwa [List.replicate_zero, List.append_nil] at hnone

theorem nul_not_mem_str (buf : Buf size) : 0 ∉ buf.str := by
  intro hnul
  have hall := List.all_takeWhile (p := fun byte : UInt8 => byte ≠ 0) (l := buf.bytes)
  have hzero := List.all_eq_true.mp hall 0 hnul
  exact of_decide_eq_true hzero rfl

/-- A string copied into a cleared buffer is followed by NULs only. -/
theorem bytes_strcpy_zero {source : List UInt8} (hfits : source.length < size) :
    ((Buf.zero size).strcpy source).bytes =
      source ++ List.replicate (size - source.length) 0 := by
  obtain ⟨left, hleft⟩ : ∃ left, size - source.length = left + 1 :=
    ⟨size - source.length - 1, by omega⟩
  have hdrop : (Buf.zero size).bytes.drop (source.length + 1) = List.replicate left 0 := by
    rw [Buf.zero, List.drop_replicate]
    congr 1
    omega
  change (source ++ 0 :: (Buf.zero size).bytes.drop (source.length + 1)).take size = _
  rw [hdrop, ← List.replicate_succ, hleft]
  apply List.take_of_length_le
  rw [List.length_append, List.length_replicate]
  omega

/-- `strncmp`; behind the end of a string that is given without its NUL, the NUL is read. -/
def strncmp : Nat → List UInt8 → List UInt8 → Int
  | 0, _, _ => 0
  | count + 1, first, second =>
      if first.headD 0 ≠ second.headD 0 then
        (first.headD 0).toNat - (second.headD 0).toNat
      else if first.headD 0 = 0 then 0
      else strncmp count first.tail second.tail

theorem takeWhile_of_end {string : List UInt8} (hend : string.headD 0 = 0) :
    string.takeWhile (· ≠ 0) = [] := by
  cases string with
  | nil => rfl
  | cons byte rest =>
      have hbyte : byte = 0 := hend
      simp [hbyte]

theorem takeWhile_of_more {string : List UInt8} (hmore : string.headD 0 ≠ 0) :
    string.takeWhile (· ≠ 0) = string.headD 0 :: string.tail.takeWhile (· ≠ 0) := by
  cases string with
  | nil => exact absurd rfl hmore
  | cons byte rest =>
      have hbyte : byte ≠ 0 := hmore
      simp [hbyte]

theorem headD_take_takeWhile (string : List UInt8) (count : Nat) :
    ((string.takeWhile (· ≠ 0)).take (count + 1)).headD 0 = string.headD 0 := by
  by_cases hend : string.headD 0 = 0
  · rw [takeWhile_of_end hend, hend]
    rfl
  · rw [takeWhile_of_more hend]
    rfl

/-- The two strings are compared up to their NULs and `count` bytes at most. -/
theorem strncmp_eq_zero_iff (count : Nat) (first second : List UInt8) :
    strncmp count first second = 0 ↔
      (first.takeWhile (· ≠ 0)).take count = (second.takeWhile (· ≠ 0)).take count := by
  induction count generalizing first second with
  | zero => exact iff_of_true rfl (by rw [List.take_zero, List.take_zero])
  | succ count ih =>
      rw [strncmp]
      by_cases hhead : first.headD 0 = second.headD 0
      · rw [if_neg (not_not_intro hhead)]
        by_cases hend : first.headD 0 = 0
        · rw [if_pos hend, takeWhile_of_end hend, takeWhile_of_end (hhead ▸ hend)]
          exact iff_of_true rfl rfl
        · have hend' : second.headD 0 ≠ 0 := hhead ▸ hend
          rw [if_neg hend, ih, takeWhile_of_more hend, takeWhile_of_more hend',
            List.take_succ_cons, List.take_succ_cons, hhead, List.cons_inj_right]
      · rw [if_pos hhead]
        refine iff_of_false (fun hzero => ?_) (fun heq => ?_)
        · exact hhead (UInt8.toNat_inj.mp (by omega))
        · have hheads := congrArg (List.headD · 0) heq
          rw [headD_take_takeWhile, headD_take_takeWhile] at hheads
          exact hhead hheads

end MdsFormal.Library.CString
