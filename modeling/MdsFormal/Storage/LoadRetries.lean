import MdsFormal.Storage.File

/-!
# The three tries of `_load_file`

`while(retry++ < 3)` leaves `retry` at the number of the try that ended in
`break`, or at 4.  The test behind it is `retry >= 3`, so a third try that ended
in `break` is taken for a failure and answered with the error of the second.
-/

namespace MdsFormal.Storage.LoadRetries

open MdsFormal.Library.CrashDisk
open MdsFormal.Storage.Crc16
open MdsFormal.Storage.File

/-- One turn of the loop: what was read in full, or the error code it leaves in `err`. -/
def tryRead (name : FileName) (length : Nat) (kernel : Kernel) : Except Int Bytes × Kernel :=
  match kernel.openRead name with
  | (.ok (_ + 1), kernel) =>
      match kernel.read name 0 (length + 2) with
      | (.ok pbuf, kernel) =>
          if pbuf.length = length + 2 then (.ok pbuf, kernel) else (.error (-errFileRead), kernel)
      | (.error _, kernel) => (.error (-errFileRead), kernel)
  | (_, kernel) => (.error (-errFileOpen), kernel)

/-- The outcomes of the tries the loop makes, the first that reads in full being the last. -/
def tries (name : FileName) (length : Nat) : Nat → Kernel → List (Except Int Bytes)
  | 0, _ => []
  | left + 1, kernel =>
      match tryRead name length kernel with
      | (.ok pbuf, _) => [.ok pbuf]
      | (.error err, kernel) => .error err :: tries name length left kernel

/-- The tries of one call of `_load_file`: none when its `malloc` fails. -/
def loadTries (name : FileName) (length : Nat) (kernel : Kernel) : List (Except Int Bytes) :=
  match kernel.attempt with
  | (false, _) => []
  | (true, kernel) => tries name length 3 kernel

/-- A try that fails leaves one of two error codes. -/
theorem tryRead_error {name : FileName} {length : Nat} {kernel after : Kernel} {err : Int}
    (htry : tryRead name length kernel = (.error err, after)) :
    err = -errFileOpen ∨ err = -errFileRead := by
  unfold tryRead at htry
  split at htry
  · split at htry
    · split at htry
      · cases htry
      · cases htry
        exact Or.inr rfl
    · cases htry
      exact Or.inr rfl
  · cases htry
    exact Or.inl rfl

theorem readLoop_zero (name : FileName) (length : Nat) (err : Int) (kernel : Kernel) :
    readLoop name length 0 err kernel = (4, err, [], kernel) := rfl

theorem readLoop_succ (name : FileName) (length left : Nat) (err : Int) (kernel : Kernel) :
    readLoop name length (left + 1) err kernel =
      match tryRead name length kernel with
      | (.ok pbuf, after) => (3 - left, err, pbuf, after)
      | (.error failed, after) => readLoop name length left failed after := by
  rw [readLoop, tryRead]
  rcases kernel.openRead name with ⟨opened, afterOpen⟩
  rcases opened with errno | fd
  · rfl
  · cases fd with
    | zero => rfl
    | succ fd =>
        rcases hread : afterOpen.read name 0 (length + 2) with ⟨got, afterRead⟩
        rcases got with errno | pbuf
        · simp only [hread]
        · by_cases hfull : pbuf.length = length + 2
          · simp only [hread, hfull, if_true]
          · simp only [hread, hfull, if_false]

/-- Every try on the list failed. -/
def AllFail (outcomes : List (Except Int Bytes)) : Prop :=
  ∀ pbuf, .ok pbuf ∉ outcomes

/-- Two tries failed and the third read in full. -/
def OnlyThirdReads (outcomes : List (Except Int Bytes)) : Prop :=
  ∃ first second pbuf, outcomes = [.error first, .error second, .ok pbuf]

/--
The three ways through the loop: a first or second try ends it and is used, the
third one ends it and is not, or all three fail.
-/
theorem readLoop_cases (name : FileName) (length : Nat) (kernel : Kernel) :
    ∃ retry err pbuf after,
      readLoop name length 3 errNone kernel = (retry, err, pbuf, after) ∧
        ((retry < 3 ∧ (tries name length 3 kernel = [.ok pbuf] ∨
            ∃ first, tries name length 3 kernel = [.error first, .ok pbuf])) ∨
          (3 ≤ retry ∧ (err = -errFileOpen ∨ err = -errFileRead) ∧
            ((∃ first second, tries name length 3 kernel =
                [.error first, .error second, .ok pbuf]) ∨
              ∃ first second third, tries name length 3 kernel =
                [.error first, .error second, .error third]))) := by
  rcases hfirst : tryRead name length kernel with ⟨outcome, kernel₁⟩
  rcases outcome with first | pbuf
  · rcases hsecond : tryRead name length kernel₁ with ⟨outcome, kernel₂⟩
    rcases outcome with second | pbuf
    · rcases hthird : tryRead name length kernel₂ with ⟨outcome, kernel₃⟩
      rcases outcome with third | pbuf
      · refine ⟨4, third, [], kernel₃, ?_, Or.inr ⟨by decide, tryRead_error hthird, Or.inr ?_⟩⟩
        · simp only [readLoop_succ, readLoop_zero, hfirst, hsecond, hthird]
        · exact ⟨first, second, third, by simp only [tries, hfirst, hsecond, hthird]⟩
      · -- the third `break`: `retry` is 3 already
        refine ⟨3, second, pbuf, kernel₃, ?_,
          Or.inr ⟨Nat.le_refl 3, tryRead_error hsecond, Or.inl ?_⟩⟩
        · simp only [readLoop_succ, hfirst, hsecond, hthird, Nat.sub_zero]
        · exact ⟨first, second, by simp only [tries, hfirst, hsecond, hthird]⟩
    · refine ⟨2, first, pbuf, kernel₂, ?_, Or.inl ⟨by decide, Or.inr ⟨first, ?_⟩⟩⟩
      · simp only [readLoop_succ, hfirst, hsecond]
      · simp only [tries, hfirst, hsecond]
  · refine ⟨1, errNone, pbuf, kernel₁, ?_, Or.inl ⟨by decide, Or.inl ?_⟩⟩
    · simp only [readLoop_succ, hfirst]
    · simp only [tries, hfirst]

/-! ## The result of `_load_file` -/

/-- What was read carries the CRC of its payload. -/
def CrcMatches (endian : Endian) (length : Nat) (pbuf : Bytes) : Prop :=
  loadU16 endian (pbuf.drop length) = mdsApiCrc16Get (pbuf.take length)

instance (endian : Endian) (length : Nat) (pbuf : Bytes) :
    Decidable (CrcMatches endian length pbuf) :=
  inferInstanceAs (Decidable (_ = _))

/--
A good record that was read is delivered, and the codes of a failed `open` or
`read` are returned only when no try read in full.
-/
def DeliversWhatWasRead (endian : Endian) (name : FileName) (length : Nat)
    (kernel : Kernel) : Prop :=
  (∀ pbuf, .ok pbuf ∈ loadTries name length kernel → CrcMatches endian length pbuf →
      (loadFile endian name length kernel).1 = errNone ∧
        (loadFile endian name length kernel).2.1 = pbuf.take length) ∧
    ((loadFile endian name length kernel).1 = -errFileOpen ∨
        (loadFile endian name length kernel).1 = -errFileRead →
      AllFail (loadTries name length kernel))

/-- A try that is used decides between a CRC error and the payload. -/
theorem loadFile_of_used (endian : Endian) {name : FileName} {length : Nat}
    {kernel loop after : Kernel} {retry : Nat} {err : Int} {pbuf : Bytes}
    (hmalloc : kernel.attempt = (true, loop))
    (hloop : readLoop name length 3 errNone loop = (retry, err, pbuf, after))
    (hretry : retry < 3) :
    loadFile endian name length kernel =
      if loadU16 endian (pbuf.drop length) ≠ mdsApiCrc16Get (pbuf.take length) then
        (-errDataCrc, List.replicate length 0, after)
      else (errNone, pbuf.take length, after) := by
  simp only [loadFile, hmalloc, hloop, if_neg (Nat.not_le.mpr hretry)]

theorem loadFile_of_unused (endian : Endian) {name : FileName} {length : Nat}
    {kernel loop after : Kernel} {retry : Nat} {err : Int} {pbuf : Bytes}
    (hmalloc : kernel.attempt = (true, loop))
    (hloop : readLoop name length 3 errNone loop = (retry, err, pbuf, after))
    (hretry : 3 ≤ retry) :
    loadFile endian name length kernel = (err, List.replicate length 0, after) := by
  simp only [loadFile, hmalloc, hloop, if_pos hretry]

theorem deliversWhatWasRead_of_allFail {endian : Endian} {name : FileName} {length : Nat}
    {kernel : Kernel} (hnone : AllFail (loadTries name length kernel)) :
    DeliversWhatWasRead endian name length kernel := by
  refine ⟨?_, fun _ => hnone⟩
  intro pbuf hmem _
  exact absurd hmem (hnone pbuf)

theorem not_onlyThirdReads_of_allFail {outcomes : List (Except Int Bytes)}
    (hnone : AllFail outcomes) : ¬ OnlyThirdReads outcomes := by
  rintro ⟨first, second, pbuf, rfl⟩
  exact hnone pbuf (List.mem_cons_of_mem _ (List.mem_cons_of_mem _ List.mem_cons_self))

/-- What the first or second try has read is checked and delivered. -/
theorem deliversWhatWasRead_of_used (endian : Endian) {name : FileName} {length : Nat}
    {kernel loop after : Kernel} {retry : Nat} {err : Int} {pbuf : Bytes}
    (hmalloc : kernel.attempt = (true, loop))
    (hloop : readLoop name length 3 errNone loop = (retry, err, pbuf, after))
    (hretry : retry < 3)
    (honly : ∀ other, .ok other ∈ loadTries name length kernel → other = pbuf) :
    DeliversWhatWasRead endian name length kernel := by
  have hload := loadFile_of_used endian hmalloc hloop hretry
  refine ⟨?_, ?_⟩
  · intro other hmem hcrc
    have hother := honly other hmem
    rw [hother, CrcMatches] at hcrc
    rw [hload, if_neg (not_not_intro hcrc), hother]
    exact ⟨rfl, rfl⟩
  · intro hcode
    rw [hload] at hcode
    split at hcode
    · exact absurd (show -errDataCrc = -errFileOpen ∨ -errDataCrc = -errFileRead from hcode)
        (by decide)
    · exact absurd (show errNone = -errFileOpen ∨ errNone = -errFileRead from hcode)
        (by decide)

/-- What the third try has read is thrown away. -/
theorem not_deliversWhatWasRead_of_unused (endian : Endian) {name : FileName} {length : Nat}
    {kernel loop after : Kernel} {retry : Nat} {err : Int} {pbuf : Bytes}
    (hmalloc : kernel.attempt = (true, loop))
    (hloop : readLoop name length 3 errNone loop = (retry, err, pbuf, after))
    (hretry : 3 ≤ retry) (hcode : err = -errFileOpen ∨ err = -errFileRead)
    (hread : .ok pbuf ∈ loadTries name length kernel) :
    ¬ DeliversWhatWasRead endian name length kernel := by
  rintro ⟨_, hfailed⟩
  rw [loadFile_of_unused endian hmalloc hloop hretry] at hfailed
  exact hfailed hcode pbuf hread

theorem deliversWhatWasRead_iff_of_malloc (endian : Endian) {name : FileName} {length : Nat}
    {kernel loop : Kernel} (hmalloc : kernel.attempt = (true, loop)) :
    DeliversWhatWasRead endian name length kernel ↔
      ¬ OnlyThirdReads (loadTries name length kernel) := by
  have htries : loadTries name length kernel = tries name length 3 loop := by
    simp only [loadTries, hmalloc]
  obtain ⟨retry, err, pbuf, after, hloop, hcases⟩ := readLoop_cases name length loop
  rw [← htries] at hcases
  rcases hcases with ⟨hretry, hone | ⟨first, htwo⟩⟩ | ⟨hretry, hcode, hthird | hfailed⟩
  · refine iff_of_true (deliversWhatWasRead_of_used endian hmalloc hloop hretry ?_) ?_
    · intro other hmem
      simpa [hone] using hmem
    · rintro ⟨first, second, third, heq⟩
      cases hone.symm.trans heq
  · refine iff_of_true (deliversWhatWasRead_of_used endian hmalloc hloop hretry ?_) ?_
    · intro other hmem
      simpa [htwo] using hmem
    · rintro ⟨first', second, third, heq⟩
      cases htwo.symm.trans heq
  · obtain ⟨first, second, hthird⟩ := hthird
    refine iff_of_false ?_ (not_not_intro ⟨first, second, pbuf, hthird⟩)
    refine not_deliversWhatWasRead_of_unused endian hmalloc hloop hretry hcode ?_
    simp [hthird]
  · obtain ⟨first, second, third, hfailed⟩ := hfailed
    have hnone : AllFail (loadTries name length kernel) := by
      intro other hmem
      simp [hfailed] at hmem
    exact iff_of_true (deliversWhatWasRead_of_allFail hnone)
      (not_onlyThirdReads_of_allFail hnone)

/-- A good record is delivered exactly when it is not the third try that read it. -/
theorem deliversWhatWasRead_iff (endian : Endian) (name : FileName) (length : Nat)
    (kernel : Kernel) :
    DeliversWhatWasRead endian name length kernel ↔
      ¬ OnlyThirdReads (loadTries name length kernel) := by
  rcases hmalloc : kernel.attempt with ⟨allocated, loop⟩
  cases allocated with
  | false =>
      have hnone : AllFail (loadTries name length kernel) := by
        intro pbuf hmem
        simp only [loadTries, hmalloc] at hmem
        cases hmem
      exact iff_of_true (deliversWhatWasRead_of_allFail hnone)
        (not_onlyThirdReads_of_allFail hnone)
  | true => exact deliversWhatWasRead_iff_of_malloc endian hmalloc

/-- Two interrupted opens and a good third one: a complete record is reported as not there. -/
theorem deliversWhatWasRead_third_try :
    ¬ DeliversWhatWasRead .little .file 1
        ⟨fun _ => some [0, 0, 0], [.full, .interrupted, .interrupted], []⟩ := by
  rintro ⟨hdelivers, _⟩
  have htries : loadTries .file 1
      ⟨fun _ => some [0, 0, 0], [.full, .interrupted, .interrupted], []⟩ =
        [.error (-errFileOpen), .error (-errFileOpen), .ok [0, 0, 0]] := rfl
  have hread := hdelivers [0, 0, 0] (by rw [htries]; simp) (by decide)
  exact absurd hread.1 (by decide)

end MdsFormal.Storage.LoadRetries
