import Mathlib.Data.List.Infix
import MdsFormal.Storage.LoadRetries
import MdsFormal.Storage.SaveOutcome

/-!
# A load delivers nothing that was not saved

Runs of saves and loads in which every system call may fail or move a part, power may be
lost at any byte, and files may be damaged or deleted between the calls.  Damage is taken
to be what the CRC can see: whatever is put in the place of a file would be rejected.
-/

namespace MdsFormal.Storage.Integrity

open MdsFormal.Library.CrashDisk
open MdsFormal.Library.LabelledRun
open MdsFormal.Storage.Crc16
open MdsFormal.Storage.File
open MdsFormal.Storage.FaultFree
open MdsFormal.Storage.CrashSafety
open MdsFormal.Storage.LoadRetries
open MdsFormal.Storage.SaveOutcome

/-- What `_load_file` takes for a record: there may be more behind it. -/
def Accepted (endian : Endian) (length : Nat) (content : Bytes) : Prop :=
  length + 2 ≤ content.length ∧ CrcMatches endian length (content.take (length + 2))

instance (endian : Endian) (length : Nat) (content : Bytes) :
    Decidable (Accepted endian length content) :=
  inferInstanceAs (Decidable (_ ∧ _))

/-- A call with the answers of its system calls, or what happens between two calls. -/
inductive Event (length : Nat) where
  | save (pdata : Payload length) (answers : List Answer)
  | interruptedSave (pdata : Payload length) (answers : List Answer) (count : Nat)
  | load (buffer : Bytes) (answers : List Answer)
  | interruptedLoad (buffer : Bytes) (answers : List Answer) (count : Nat)
  | damage (name : FileName) (content : Option Bytes)

/-- The disk, and the payloads of the saves so far, completed or not. -/
structure State where
  disk : Disk FileName UInt8
  saved : List Bytes

def State.boot : State := ⟨fun _ => none, []⟩

section

variable (endian : Endian) (length : Nat)

/-- The kernel that a save leaves behind. -/
def saveKernel (disk : Disk FileName UInt8) (pdata : Bytes) (answers : List Answer) : Kernel :=
  (mdsApiStorageSaveFile endian pdata ⟨disk, answers, []⟩).2

/-- The kernel that a load leaves behind. -/
def loadKernel (disk : Disk FileName UInt8) (buffer : Bytes) (answers : List Answer) : Kernel :=
  (mdsApiStorageLoadFile endian buffer length ⟨disk, answers, []⟩).2.2

def step (s : State) : Event length → Option State
  | .save pdata answers =>
      some ⟨(saveKernel endian s.disk pdata answers).disk, pdata :: s.saved⟩
  | .interruptedSave pdata answers count =>
      some ⟨cut s.disk (saveKernel endian s.disk pdata answers).effects count, pdata :: s.saved⟩
  | .load buffer answers =>
      some ⟨(loadKernel endian length s.disk buffer answers).disk, s.saved⟩
  | .interruptedLoad buffer answers count =>
      some ⟨cut s.disk (loadKernel endian length s.disk buffer answers).effects count, s.saved⟩
  | .damage name content =>
      if ∀ bytes ∈ content, ¬Accepted endian length bytes then
        some ⟨Function.update s.disk name content, s.saved⟩
      else none

/-- A load that returns 0 has put a saved payload into its buffer; any other leaves the
buffer as it was or fills it with zeros. -/
def Delivers (saved : List Bytes) (buffer : Bytes) (ret : Int) (pdata : Bytes) : Prop :=
  ret = errNone ∧ pdata ∈ saved ∨ ret < 0 ∧ (pdata = buffer ∨ pdata = List.replicate length 0)

def DeliversSaved (s : State) : Event length → Prop
  | .load buffer answers =>
      let result := mdsApiStorageLoadFile endian buffer length ⟨s.disk, answers, []⟩
      Delivers length s.saved buffer result.1 result.2.1
  | _ => True

/-- Only a saved payload would be accepted from this content. -/
def Sound (saved : List Bytes) (content : Bytes) : Prop :=
  Accepted endian length content → content.take length ∈ saved

def SoundDisk (saved : List Bytes) (disk : Disk FileName UInt8) : Prop :=
  ∀ name content, disk name = some content → Sound endian length saved content

end

section

variable {endian : Endian} {length : Nat} {saved : List Bytes} {disk start : Disk FileName UInt8}
  {kernel after : Kernel} {name source target : FileName} {content : Bytes}

/-! ## What keeps the files sound -/

theorem Sound.of_short (hshort : content.length < length + 2) : Sound endian length saved content :=
  fun haccepted => absurd haccepted.1 (Nat.not_le.mpr hshort)

theorem Sound.mono (hsound : Sound endian length saved content) (pdata : Bytes) :
    Sound endian length (pdata :: saved) content :=
  fun haccepted => List.mem_cons_of_mem _ (hsound haccepted)

/-- A copy that stops anywhere is as sound as its source. -/
theorem Sound.take (hsound : Sound endian length saved content) (count : Nat) :
    Sound endian length saved (content.take count) := by
  rintro ⟨henough, hmatches⟩
  rw [List.length_take] at henough
  have hcount : length + 2 ≤ count := by omega
  rw [List.take_take, Nat.min_eq_left hcount] at hmatches
  rw [List.take_take, Nat.min_eq_left (by omega)]
  exact hsound ⟨by omega, hmatches⟩

/-- So is a record of which only a part was written. -/
theorem sound_stored {pdata : Bytes} (hpdata : pdata.length = length) {payload : Nat}
    (hpayload : payload ≤ length) (tail : Nat) :
    Sound endian length (pdata :: saved) (stored endian pdata payload tail) := by
  rintro ⟨henough, -⟩
  have hwhole : payload = length := by
    rw [stored, List.length_append, List.length_take, List.length_take, length_storeU16] at henough
    omega
  rw [stored, hwhole, ← hpdata, List.take_length, List.take_left]
  exact List.mem_cons_self

theorem SoundDisk.mono (hsound : SoundDisk endian length saved disk) (pdata : Bytes) :
    SoundDisk endian length (pdata :: saved) disk :=
  fun name content hcontent => (hsound name content hcontent).mono pdata

theorem SoundDisk.update (hsound : SoundDisk endian length saved disk)
    (hcontent : Sound endian length saved content) :
    SoundDisk endian length saved (Function.update disk name (some content)) := by
  intro other bytes hbytes
  by_cases hother : other = name
  · rw [hother, Function.update_self] at hbytes
    cases hbytes
    exact hcontent
  · rw [Function.update_of_ne hother] at hbytes
    exact hsound other bytes hbytes

/-! ## Writing -/

/-- The kernel was reached by effects that keep every file sound, wherever they are cut. -/
def KeepsSound (endian : Endian) (length : Nat) (saved : List Bytes) (start : Disk FileName UInt8)
    (kernel : Kernel) : Prop :=
  Kept (SoundDisk endian length saved) start kernel.effects kernel.disk

theorem KeepsSound.openWrite (hk : KeepsSound endian length saved start kernel)
    (name : FileName) :
    (∃ errno, kernel.openWrite name true = (.error errno, kernel.consume)) ∨
      ∃ fd after, kernel.openWrite name true = (.ok fd, after) ∧
        KeepsSound endian length saved start after ∧
        after.disk = Function.update kernel.disk name (some []) := by
  cases hanswer : kernel.answer.descriptor with
  | error errno =>
      refine Or.inl ⟨errno, ?_⟩
      rw [Kernel.openWrite, hanswer]
  | ok fd =>
      refine Or.inr ⟨fd, kernel.consume.emit (.truncate name), ?_, ?_, rfl⟩
      · rw [Kernel.openWrite, hanswer]
        rfl
      · exact Kept.truncate hk (hk.holds.update (Sound.of_short (Nat.succ_pos _)))

/-- A write at the end of a file appends a part of the bytes, and one that fails nothing. -/
theorem KeepsSound.write (hk : KeepsSound endian length saved start kernel)
    (hcontent : kernel.disk name = some content) (bytes : Bytes)
    (hsound : ∀ count, Sound endian length saved (content ++ bytes.take count)) :
    ∃ written after count, kernel.write name content.length bytes = (written, after) ∧
      count ≤ bytes.length ∧ KeepsSound endian length saved start after ∧
      after.disk = Function.update kernel.disk name (some (content ++ bytes.take count)) ∧
      (written = .ok count ∨ ∃ errno, written = .error errno ∧ count = 0) := by
  cases htransfer : kernel.answer.transfer bytes.length with
  | error errno =>
      refine ⟨.error errno, kernel.consume, 0, ?_, Nat.zero_le _, hk, ?_,
        Or.inr ⟨errno, rfl, rfl⟩⟩
      · rw [Kernel.write, htransfer]
      · rw [List.take_zero, List.append_nil, ← hcontent, Function.update_eq_self]
        rfl
  | ok count =>
      have hcount : count ≤ bytes.length := by
        have hmoved := moved_le bytes.length kernel.answer
        rwa [moved, htransfer] at hmoved
      have hwrite : kernel.write name content.length bytes =
          (.ok count, kernel.consume.emit (.write name content.length (bytes.take count))) := by
        rw [Kernel.write, htransfer]
      have hdisk : (kernel.consume.emit (.write name content.length (bytes.take count))).disk =
          Function.update kernel.disk name (some (content ++ bytes.take count)) :=
        apply_append hcontent _
      refine ⟨.ok count, _, count, hwrite, hcount, ?_, hdisk, Or.inl rfl⟩
      rw [KeepsSound, hdisk]
      refine Kept.append hk hcontent (bytes.take count) fun part => ?_
      rw [List.take_take]
      exact hk.holds.update (hsound _)

/-! ## Copying -/

/-- The target holds a part of the source. -/
structure Copying (endian : Endian) (length : Nat) (saved : List Bytes)
    (start : Disk FileName UInt8) (source target : FileName) (content : Bytes) (offset : Nat)
    (kernel : Kernel) : Prop where
  kept : KeepsSound endian length saved start kernel
  source : kernel.disk source = some content
  target : kernel.disk target = some (content.take offset)
  bound : offset ≤ content.length

/-- What comes next in the source, put behind what is there. -/
theorem take_append_next {offset : Nat} {chunk : Bytes} (hchunk : chunk <+: content.drop offset) :
    content.take offset ++ chunk = content.take (offset + chunk.length) := by
  obtain ⟨rest, hrest⟩ := hchunk
  rw [List.take_add, ← hrest, List.take_left]

theorem Copying.writeLoop (hne : source ≠ target) (fuel : Nat) {offset : Nat} {pending : Bytes}
    {ended : Bool} (hc : Copying endian length saved start source target content offset kernel)
    (hpending : pending <+: content.drop offset)
    (hrun : File.writeLoop target fuel offset pending kernel = (ended, after)) :
    ∃ offset', Copying endian length saved start source target content offset' after ∧
      (ended = true → offset' = offset + pending.length) := by
  induction fuel generalizing offset pending kernel with
  | zero =>
      cases hrun
      exact ⟨offset, hc, fun hfalse => by cases hfalse⟩
  | succ fuel ih =>
      have hparts : ∀ count, content.take offset ++ pending.take count =
          content.take (offset + (pending.take count).length) := fun count =>
        take_append_next ((List.take_prefix count pending).trans hpending)
      have hsource := hc.kept.holds source content hc.source
      obtain ⟨written, next, count, hwrite, hcount, hkept, hdisk, hwritten⟩ :=
        hc.kept.write hc.target pending fun count => hparts count ▸ hsource.take _
      rw [List.length_take_of_le hc.bound] at hwrite
      rw [hparts, List.length_take_of_le hcount] at hdisk
      have hfits : offset + count ≤ content.length := by
        have hleft := hpending.length_le
        rw [List.length_drop] at hleft
        have hbound := hc.bound
        omega
      have hc' : Copying endian length saved start source target content (offset + count) next := by
        refine ⟨hkept, ?_, ?_, hfits⟩
        · rw [hdisk, Function.update_of_ne hne, hc.source]
        · rw [hdisk, Function.update_self]
      rw [File.writeLoop, hwrite] at hrun
      rcases hwritten with rfl | ⟨errno, rfl, rfl⟩
      · dsimp only at hrun
        have hrest : pending.drop count <+: content.drop (offset + count) := by
          rw [← List.drop_drop]
          exact hpending.drop count
        split at hrun
        next hdone =>
            cases hrun
            refine ⟨offset + count, hc', fun _ => ?_⟩
            rw [List.drop_eq_nil_iff] at hdone
            omega
        next =>
            obtain ⟨offset', hlast, hended⟩ := ih hc' hrest hrun
            refine ⟨offset', hlast, fun htrue => ?_⟩
            rw [hended htrue, List.length_drop]
            omega
      · cases errno with
        | eintr => exact ih hc' hpending hrun
        | other =>
            cases hrun
            exact ⟨offset, hc', fun hfalse => by cases hfalse⟩

/-- `read` gives what comes next in the file, in a part. -/
theorem read_next (hcontent : kernel.disk name = some content) (offset count : Nat) :
    (∃ errno, kernel.read name offset count = (.error errno, kernel.consume)) ∨
      ∃ chunk, kernel.read name offset count = (.ok chunk, kernel.consume) ∧
        chunk <+: (content.drop offset).take count := by
  have hkernel : kernel.content name = content := by
    rw [Kernel.content, hcontent, Option.getD_some]
  cases htransfer : kernel.answer.transfer ((content.drop offset).take count).length with
  | error errno =>
      refine Or.inl ⟨errno, ?_⟩
      simp only [Kernel.read, hkernel, htransfer]
  | ok moved =>
      refine Or.inr ⟨_, ?_, List.take_prefix moved _⟩
      simp only [Kernel.read, hkernel, htransfer]

theorem Copying.copyLoop (hne : source ≠ target) (fuel : Nat) {offset : Nat} {ended : Bool}
    (hc : Copying endian length saved start source target content offset kernel)
    (hrun : File.copyLoop source target fuel offset kernel = (ended, after)) :
    KeepsSound endian length saved start after := by
  induction fuel generalizing offset kernel with
  | zero =>
      cases hrun
      exact hc.kept
  | succ fuel ih =>
      rw [File.copyLoop] at hrun
      have hc' : Copying endian length saved start source target content offset kernel.consume :=
        ⟨hc.kept, hc.source, hc.target, hc.bound⟩
      rcases read_next hc.source offset 4096 with ⟨errno, hread⟩ | ⟨chunk, hread, hchunk⟩
      · rw [hread] at hrun
        cases hrun
        exact hc.kept
      · rw [hread] at hrun
        dsimp only at hrun
        split at hrun
        · cases hrun
          exact hc.kept
        · cases hwrite : File.writeLoop target (kernel.consume.answers.length + 1) offset chunk
              kernel.consume with
          | mk done next =>
              obtain ⟨offset', hnext, hdone⟩ := hc'.writeLoop hne _
                (hchunk.trans (List.take_prefix 4096 _)) hwrite
              rw [hwrite] at hrun
              cases done with
              | false =>
                  cases hrun
                  exact hnext.kept
              | true =>
                  rw [hdone rfl] at hnext
                  exact ih hnext hrun

/-- A copy keeps every file sound, however far it gets. -/
theorem KeepsSound.mdsApiCp (hk : KeepsSound endian length saved start kernel)
    (hne : source ≠ target) :
    KeepsSound endian length saved start (File.mdsApiCp source target true kernel).2 := by
  rw [File.mdsApiCp]
  cases hsource : kernel.disk source with
  | none =>
      rw [Kernel.openRead, hsource]
      exact hk
  | some content =>
      rw [Kernel.openRead, hsource]
      dsimp only
      cases kernel.answer.descriptor with
      | error errno => exact hk
      | ok fdFrom =>
          have hk' : KeepsSound endian length saved start kernel.consume := hk
          dsimp only
          rcases hk'.openWrite target with ⟨errno, hopen⟩ | ⟨fdTo, next, hopen, hnext, hdisk⟩
          · rw [hopen]
            exact hk
          · rw [hopen]
            dsimp only
            have hc : Copying endian length saved start source target content 0 next := by
              refine ⟨hnext, ?_, ?_, Nat.zero_le _⟩
              · rw [hdisk, Function.update_of_ne hne]
                exact hsource
              · rw [hdisk, Function.update_self, List.take_zero]
            cases hcopy : File.copyLoop source target ((next.content source).length + 1) 0 next with
            | mk ended copied =>
                have hcopied := hc.copyLoop hne _ hcopy
                cases ended with
                | false => exact hcopied
                | true =>
                    dsimp only
                    cases hclose : copied.attempt with
                    | mk closed last =>
                        cases hclose
                        cases copied.answer.succeeds with
                        | false => exact hcopied
                        | true => exact hcopied

/-! ## Saving -/

theorem KeepsSound.fileBackup (hk : KeepsSound endian length saved start kernel) :
    KeepsSound endian length saved start (File.fileBackup kernel) := by
  rw [File.fileBackup]
  split
  · exact hk.mdsApiCp (by decide)
  · exact hk

/-- A save keeps every file sound for the payloads so far and its own. -/
theorem keepsSound_save (hsound : SoundDisk endian length saved disk) (pdata : Payload length)
    (answers : List Answer) :
    KeepsSound endian length (pdata.1 :: saved) disk
      (saveKernel endian disk pdata.1 answers) := by
  have hbackup : KeepsSound endian length (pdata.1 :: saved) disk
      (fileBackup ⟨disk, answers, []⟩) :=
    KeepsSound.fileBackup (Kept.nil (hsound.mono pdata.1))
  rw [saveKernel, mdsApiStorageSaveFile]
  rcases hbackup.openWrite .file with ⟨errno, hopen⟩ | ⟨fd, opened, hopen, hopened, hdisk⟩
  · rw [hopen]
    exact hbackup
  · rw [hopen]
    dsimp only
    have hempty : opened.disk .file = some [] := by rw [hdisk, Function.update_self]
    obtain ⟨written, next, count, hwrite, hcount, hnext, hdisk', hwritten⟩ :=
      hopened.write hempty pdata.1 fun count => Sound.of_short (by
        rw [List.nil_append, List.length_take, pdata.2]
        omega)
    rw [List.length_nil] at hwrite
    rw [hwrite]
    dsimp only
    have hpayload : next.disk .file = some (pdata.1.take count) := by
      rw [hdisk', Function.update_self, List.nil_append]
    obtain ⟨_, last, _, hwrite', _, hlast, _, _⟩ :=
      hnext.write hpayload (storeU16 endian (mdsApiCrc16Get pdata.1)) fun tail =>
        sound_stored pdata.2 (pdata.2 ▸ hcount) tail
    rw [List.length_take, Nat.min_eq_left hcount] at hwrite'
    -- the second write starts where the first one stopped, which is 0 when that failed
    rcases hwritten with rfl | ⟨errno, rfl, rfl⟩
    · dsimp only
      rw [hwrite']
      exact hlast
    · dsimp only
      rw [hwrite']
      exact hlast

/-! ## Loading -/

/-- Nothing but answers is used up between the two kernels. -/
def OnlyReads (kernel after : Kernel) : Prop :=
  after.disk = kernel.disk ∧ after.effects = kernel.effects

theorem OnlyReads.trans {next : Kernel} (hfirst : OnlyReads kernel next)
    (hsecond : OnlyReads next after) : OnlyReads kernel after :=
  ⟨hsecond.1.trans hfirst.1, hsecond.2.trans hfirst.2⟩

theorem KeepsSound.reads (hk : KeepsSound endian length saved start kernel)
    (hreads : OnlyReads kernel after) : KeepsSound endian length saved start after := by
  rw [KeepsSound, hreads.1, hreads.2]
  exact hk

/-- A try reads the whole record, or nothing of it is used. -/
theorem tryRead_reads {outcome : Except Int Bytes}
    (htry : tryRead name length kernel = (outcome, after)) :
    OnlyReads kernel after ∧ ∀ pbuf, outcome = .ok pbuf →
      ∃ content, kernel.disk name = some content ∧ length + 2 ≤ content.length ∧
        pbuf = content.take (length + 2) := by
  cases hcontent : kernel.disk name with
  | none =>
      rw [tryRead, Kernel.openRead, hcontent] at htry
      cases htry
      exact ⟨⟨rfl, rfl⟩, fun _ hok => by cases hok⟩
  | some content =>
      have hcontent' : kernel.consume.disk name = some content := hcontent
      rw [tryRead, Kernel.openRead, hcontent] at htry
      dsimp only at htry
      rcases hanswer : kernel.answer.descriptor with errno | fd <;> rw [hanswer] at htry
      · cases htry
        exact ⟨⟨rfl, rfl⟩, fun _ hok => by cases hok⟩
      · cases fd with
        | zero =>
            cases htry
            exact ⟨⟨rfl, rfl⟩, fun _ hok => by cases hok⟩
        | succ fd =>
            dsimp only at htry
            rcases read_next hcontent' 0 (length + 2) with ⟨errno, hread⟩ | ⟨chunk, hread, hchunk⟩
            · rw [hread] at htry
              cases htry
              exact ⟨⟨rfl, rfl⟩, fun _ hok => by cases hok⟩
            · rw [hread] at htry
              dsimp only at htry
              split at htry
              next hfull =>
                  cases htry
                  refine ⟨⟨rfl, rfl⟩, fun pbuf hok => ?_⟩
                  cases hok
                  rw [List.drop_zero] at hchunk
                  have hlength := hchunk.length_le
                  have hpart := List.length_take_le (length + 2) content
                  have henough : length + 2 ≤ content.length := by
                    rw [List.length_take] at hlength
                    omega
                  exact ⟨content, rfl, henough, hchunk.eq_of_length (by omega)⟩
              next =>
                  cases htry
                  exact ⟨⟨rfl, rfl⟩, fun _ hok => by cases hok⟩

theorem readLoop_reads (left : Nat) {err err' : Int} {retry : Nat} {pbuf : Bytes}
    (hrun : readLoop name length left err kernel = (retry, err', pbuf, after)) :
    OnlyReads kernel after ∧ (retry < 3 → ∃ content, kernel.disk name = some content ∧
      length + 2 ≤ content.length ∧ pbuf = content.take (length + 2)) := by
  induction left generalizing err kernel with
  | zero =>
      cases hrun
      exact ⟨⟨rfl, rfl⟩, fun hretry => absurd hretry (by decide)⟩
  | succ left ih =>
      rw [readLoop_succ] at hrun
      cases htry : tryRead name length kernel with
      | mk outcome next =>
          obtain ⟨hreads, hwhole⟩ := tryRead_reads htry
          rw [htry] at hrun
          cases outcome with
          | error failed =>
              obtain ⟨hlater, hused⟩ := ih hrun
              refine ⟨hreads.trans hlater, fun hretry => ?_⟩
              rw [← hreads.1]
              exact hused hretry
          | ok bytes =>
              cases hrun
              exact ⟨hreads, fun _ => hwhole _ rfl⟩

/-- `_load_file` delivers what it accepts, and zeros otherwise. -/
theorem loadFile_reads (endian : Endian) (name : FileName) (length : Nat) (kernel : Kernel) :
    ∃ ret pdata after, loadFile endian name length kernel = (ret, pdata, after) ∧
      OnlyReads kernel after ∧
      (ret = errNone ∧ (∃ content, kernel.disk name = some content ∧
          Accepted endian length content ∧ pdata = content.take length) ∨
        ret < 0 ∧ pdata = List.replicate length 0) := by
  cases hmalloc : kernel.attempt with
  | mk allocated loop =>
      have hloop : OnlyReads kernel loop := by
        cases hmalloc
        exact ⟨rfl, rfl⟩
      cases allocated with
      | false =>
          refine ⟨-errMemAlloc, _, loop, ?_, hloop, Or.inr ⟨by decide, rfl⟩⟩
          rw [loadFile, hmalloc]
      | true =>
          obtain ⟨retry, err, pbuf, after, hread, hcases⟩ := readLoop_cases name length loop
          obtain ⟨hreads, hused⟩ := readLoop_reads 3 hread
          rcases hcases with ⟨hretry, -⟩ | ⟨hretry, hcode, -⟩
          · obtain ⟨content, hcontent, henough, rfl⟩ := hused hretry
            rw [loadFile_of_used endian hmalloc hread hretry]
            rw [hloop.1] at hcontent
            split
            next => exact ⟨_, _, after, rfl, hloop.trans hreads, Or.inr ⟨by decide, rfl⟩⟩
            next hmatches =>
                refine ⟨_, _, after, rfl, hloop.trans hreads, Or.inl ⟨rfl, content, hcontent,
                  ⟨henough, not_not.mp hmatches⟩, ?_⟩⟩
                rw [List.take_take, Nat.min_eq_left (Nat.le_add_right length 2)]
          · rw [loadFile_of_unused endian hmalloc hread hretry]
            refine ⟨_, _, after, rfl, hloop.trans hreads, Or.inr ⟨?_, rfl⟩⟩
            rcases hcode with rfl | rfl <;> decide

theorem KeepsSound.fileRecovery (hk : KeepsSound endian length saved start kernel) :
    KeepsSound endian length saved start (File.fileRecovery kernel).2 :=
  hk.mdsApiCp (by decide)

theorem KeepsSound.loadFile (hk : KeepsSound endian length saved start kernel) (name : FileName)
    (buffer : Bytes) :
    ∃ ret pdata after, File.loadFile endian name length kernel = (ret, pdata, after) ∧
      KeepsSound endian length saved start after ∧ Delivers length saved buffer ret pdata := by
  obtain ⟨ret, pdata, after, hload, hreads, hresult⟩ := loadFile_reads endian name length kernel
  refine ⟨ret, pdata, after, hload, hk.reads hreads, ?_⟩
  rcases hresult with ⟨hnone, content, hcontent, haccepted, rfl⟩ | ⟨hfailed, hzeros⟩
  · exact Or.inl ⟨hnone, hk.holds name content hcontent haccepted⟩
  · exact Or.inr ⟨hfailed, Or.inr hzeros⟩

theorem KeepsSound.loadOrRecover (hk : KeepsSound endian length saved start kernel)
    (buffer : Bytes) :
    ∃ ret pdata after, File.loadOrRecover endian length kernel = (ret, pdata, after) ∧
      KeepsSound endian length saved start after ∧ Delivers length saved buffer ret pdata := by
  obtain ⟨ret, pdata, next, hload, hnext, hdelivers⟩ := hk.loadFile .file buffer
  rw [File.loadOrRecover, hload]
  dsimp only
  split
  · cases hrecovery : File.fileRecovery next with
    | mk recovered copied =>
        have hcopied := hnext.fileRecovery
        rw [hrecovery] at hcopied
        dsimp only
        split
        · exact hcopied.loadFile .file buffer
        · exact ⟨ret, pdata, copied, rfl, hcopied, hdelivers⟩
  · exact ⟨ret, pdata, next, rfl, hnext, hdelivers⟩

/-- A load keeps every file sound, and delivers a saved payload or none. -/
theorem keepsSound_load (hsound : SoundDisk endian length saved disk) (buffer : Bytes)
    (answers : List Answer) :
    ∃ ret pdata after,
      mdsApiStorageLoadFile endian buffer length ⟨disk, answers, []⟩ = (ret, pdata, after) ∧
      KeepsSound endian length saved disk after ∧ Delivers length saved buffer ret pdata := by
  have hk : KeepsSound endian length saved disk ⟨disk, answers, []⟩ := Kept.nil hsound
  rw [mdsApiStorageLoadFile]
  split
  · cases hrecovery : fileRecovery ⟨disk, answers, []⟩ with
    | mk recovered copied =>
        have hcopied := hk.fileRecovery
        rw [hrecovery] at hcopied
        dsimp only
        split
        · exact ⟨_, _, copied, rfl, hcopied, Or.inr ⟨by decide, Or.inl rfl⟩⟩
        · exact hcopied.loadOrRecover buffer
  · exact hk.loadOrRecover buffer

/-! ## Runs -/

theorem soundDisk_boot : SoundDisk endian length [] State.boot.disk := by
  intro name content hcontent
  cases hcontent

theorem soundDisk_step {s next : State} {event : Event length}
    (hs : SoundDisk endian length s.saved s.disk) (hstep : step endian length s event = some next) :
    SoundDisk endian length next.saved next.disk := by
  cases event with
  | save pdata answers =>
      cases hstep
      exact (keepsSound_save hs pdata answers).holds
  | interruptedSave pdata answers count =>
      cases hstep
      exact (keepsSound_save hs pdata answers).cuts count
  | load buffer answers =>
      obtain ⟨ret, pdata, after, hload, hkept, -⟩ := keepsSound_load hs buffer answers
      cases hstep
      rw [loadKernel, hload]
      exact hkept.holds
  | interruptedLoad buffer answers count =>
      obtain ⟨ret, pdata, after, hload, hkept, -⟩ := keepsSound_load hs buffer answers
      cases hstep
      rw [loadKernel, hload]
      exact hkept.cuts count
  | damage name content =>
      obtain ⟨hseen, rfl⟩ := Option.ite_some_none_eq_some.mp hstep
      intro other bytes hbytes
      by_cases hother : other = name
      · dsimp only at hbytes
        rw [hother, Function.update_self] at hbytes
        exact fun haccepted => absurd haccepted (hseen bytes hbytes)
      · dsimp only at hbytes
        rw [Function.update_of_ne hother] at hbytes
        exact hs other bytes hbytes

theorem deliversSaved {s : State} (hs : SoundDisk endian length s.saved s.disk)
    (event : Event length) : DeliversSaved endian length s event := by
  cases event with
  | load buffer answers =>
      obtain ⟨ret, pdata, after, hload, -, hdelivers⟩ := keepsSound_load hs buffer answers
      rw [DeliversSaved, hload]
      exact hdelivers
  | save | interruptedSave | interruptedLoad | damage => trivial

end

/-- In every run of the store from an empty disk, whatever system calls fail, wherever power
is lost and whichever files are damaged in between, a load that returns 0 delivers the payload
of a save of the run, and any other delivers nothing. -/
theorem loads_deliver_saved (endian : Endian) (length : Nat) (events : List (Event length)) :
    EachStep (step endian length) (DeliversSaved endian length) State.boot events := by
  refine eachStep_of_kept (fun s => SoundDisk endian length s.saved s.disk) ?_ ?_ soundDisk_boot
  · intro s event next hs hstep
    exact soundDisk_step hs hstep
  · intro s event hs
    exact deliversSaved hs event

end MdsFormal.Storage.Integrity
