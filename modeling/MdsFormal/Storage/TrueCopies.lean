import MdsFormal.Storage.FaultFree

/-!
# When a reported copy is a true copy

`mds_api_cp` is followed through arbitrary answers to its system calls: reads and writes
that move a part, writes that are interrupted.  A copy that is reported puts the source
over the front of what the target held when it was opened.
-/

namespace MdsFormal.Storage.TrueCopies

open MdsFormal.Library.CrashDisk
open MdsFormal.Storage.File
open MdsFormal.Storage.FaultFree

/-! ## The loops -/

variable {source target : FileName} {kernel after : Kernel}

/-- Whatever parts are written, a write loop that ends well has put them one behind the other. -/
theorem writeLoop_spec (fuel : Nat) {offset : Nat} {pending content : Bytes} {kernel : Kernel}
    (hcontent : kernel.disk target = some content) (hoffset : offset ≤ content.length)
    (hrun : writeLoop target fuel offset pending kernel = (true, after)) :
    after.disk = Function.update kernel.disk target (some (splice content offset pending)) := by
  induction fuel generalizing offset pending content kernel with
  | zero => cases hrun
  | succ fuel ih =>
      rw [writeLoop, Kernel.write] at hrun
      cases htransfer : kernel.answer.transfer pending.length with
      | error errno =>
          rw [htransfer] at hrun
          cases errno with
          | eintr => exact @ih _ _ _ kernel.consume hcontent hoffset hrun
          | other => cases hrun
      | ok nwritten =>
          rw [htransfer] at hrun
          have hwritten : (kernel.consume.emit
              (.write target offset (pending.take nwritten))).disk =
                Function.update kernel.disk target
                  (some (splice content offset (pending.take nwritten))) := by
            change Function.update kernel.disk target
              ((kernel.disk target).map fun content => splice content offset _) = _
            rw [hcontent, Option.map_some]
          dsimp only at hrun
          split at hrun
          next hnone =>
              cases hrun
              rw [hwritten, List.take_of_length_le (List.drop_eq_nil_iff.mp hnone)]
          next hmore =>
              have hlength : (pending.take nwritten).length = nwritten :=
                List.length_take_of_le (Nat.le_of_not_le fun h =>
                  hmore (List.drop_eq_nil_iff.mpr h))
              have hlonger := le_length_splice hoffset (pending.take nwritten)
              have hnext := splice_append hoffset (pending.take nwritten) (pending.drop nwritten)
              rw [hlength] at hlonger hnext
              rw [List.take_append_drop] at hnext
              have hrest := ih (by rw [hwritten, Function.update_self]) hlonger hrun
              rw [hrest, hwritten, Function.update_idem, hnext]

/-- A `read` returns 0 at the end of the file only, in each turn of the copy loop. -/
def readsAdvance (source target : FileName) : Nat → Nat → Kernel → Prop
  | 0, _, _ => True
  | fuel + 1, offset, kernel =>
      (offset < (kernel.content source).length → kernel.answer ≠ .count 0) ∧
        match kernel.read source offset 4096 with
        | (.error _, _) => True
        | (.ok chunk, kernel) => chunk ≠ [] →
            match writeLoop target (kernel.answers.length + 1) offset chunk kernel with
            | (true, kernel) => readsAdvance source target fuel (offset + chunk.length) kernel
            | (false, _) => True

/-- Only a transfer of no bytes moves none of some that were asked for. -/
theorem count_zero_of_transfer {answer : Answer} {asked : Nat} (hasked : 0 < asked)
    (htransfer : answer.transfer asked = .ok 0) : answer = .count 0 := by
  cases answer with
  | full => exact absurd (Except.ok.inj htransfer) (Nat.ne_of_gt hasked)
  | count n =>
      have hmin : min n asked = 0 := Except.ok.inj htransfer
      have hzero : n = 0 := by omega
      rw [hzero]
  | interrupted => cases htransfer
  | failed => cases htransfer

/-- A read moves a part of what is left, and nothing at the end only. -/
theorem read_chunk {content chunk : Bytes} {offset : Nat}
    (hcontent : kernel.disk source = some content)
    (hadvance : offset < (kernel.content source).length → kernel.answer ≠ .count 0)
    (hread : kernel.read source offset 4096 = (.ok chunk, after)) :
    after = kernel.consume ∧ content.take offset ++ chunk = content.take (offset + chunk.length) ∧
      offset + chunk.length ≤ max offset content.length ∧
      (chunk = [] → content.length ≤ offset) := by
  have hwhole : kernel.content source = content := by
    rw [Kernel.content, hcontent, Option.getD_some]
  rw [hwhole] at hadvance
  rw [Kernel.read, hwhole] at hread
  cases htransfer : kernel.answer.transfer ((content.drop offset).take 4096).length with
  | error errno =>
      rw [htransfer] at hread
      cases hread
  | ok moved =>
      rw [htransfer] at hread
      dsimp only at hread
      rw [List.take_take] at hread
      cases hread
      have hlength : ((content.drop offset).take (min moved 4096)).length =
          min (min moved 4096) (content.length - offset) := by
        rw [List.length_take, List.length_drop]
      refine ⟨rfl, ?_, by omega, fun hnone => ?_⟩
      · rw [List.take_add, hlength]
        congr 1
        refine List.take_eq_take_iff.mpr ?_
        rw [List.length_drop]
        omega
      · apply Nat.le_of_not_lt
        intro hmore
        have hleft : 0 < ((content.drop offset).take 4096).length := by
          rw [List.length_take, List.length_drop]
          omega
        have hzero : moved = 0 := by
          rw [hnone, List.length_nil] at hlength
          omega
        rw [hzero] at htransfer
        exact hadvance hmore (count_zero_of_transfer hleft htransfer)

/-- A chunk that is read and written moves the copied part on. -/
theorem write_chunk {content prior chunk : Bytes} {offset fuel : Nat} {kernel : Kernel}
    (htarget : kernel.disk target = some (splice prior 0 (content.take offset)))
    (hoffset : offset ≤ content.length)
    (htaken : content.take offset ++ chunk = content.take (offset + chunk.length))
    (hrun : writeLoop target fuel offset chunk kernel = (true, after)) :
    after.disk = Function.update kernel.disk target
      (some (splice prior 0 (content.take (offset + chunk.length)))) := by
  have hlength : (content.take offset).length = offset := List.length_take_of_le hoffset
  have hroom := le_length_splice (Nat.zero_le prior.length) (content.take offset)
  have hmerged := splice_append (Nat.zero_le prior.length) (content.take offset) chunk
  rw [hlength, Nat.zero_add] at hroom hmerged
  rw [htaken] at hmerged
  rw [writeLoop_spec fuel htarget hroom hrun, hmerged]

/-- A copy loop that ends well has put the source over what the target held. -/
theorem copyLoop_spec (hne : source ≠ target) (fuel : Nat) {offset : Nat} {content prior : Bytes}
    {kernel : Kernel} (hsource : kernel.disk source = some content)
    (htarget : kernel.disk target = some (splice prior 0 (content.take offset)))
    (hoffset : offset ≤ content.length)
    (hadvance : readsAdvance source target fuel offset kernel)
    (hrun : copyLoop source target fuel offset kernel = (true, after)) :
    after.disk = Function.update kernel.disk target (some (splice prior 0 content)) := by
  induction fuel generalizing offset kernel with
  | zero => cases hrun
  | succ fuel ih =>
      rw [copyLoop] at hrun
      obtain ⟨hgenuine, hlater⟩ := hadvance
      cases hread : kernel.read source offset 4096 with
      | mk outcome next =>
          rw [hread] at hrun hlater
          cases outcome with
          | error errno => cases hrun
          | ok chunk =>
              obtain ⟨rfl, htaken, hbound, hend⟩ := read_chunk hsource hgenuine hread
              dsimp only at hrun hlater
              split at hrun
              next hnone =>
                  cases hrun
                  rw [List.take_of_length_le (hend hnone)] at htarget
                  exact (Function.update_eq_self_iff.mpr htarget.symm).symm
              next hmore =>
                  replace hlater := hlater hmore
                  cases hwrite : writeLoop target (kernel.consume.answers.length + 1) offset chunk
                      kernel.consume with
                  | mk ended written =>
                      rw [hwrite] at hrun hlater
                      cases ended with
                      | false => cases hrun
                      | true =>
                          have hdisk := @write_chunk target _ _ _ _ _ _ kernel.consume htarget
                            hoffset htaken hwrite
                          have hlast := ih (by rw [hdisk, Function.update_of_ne hne]; exact hsource)
                            (by rw [hdisk, Function.update_self]) (by omega) hlater hrun
                          rw [hlast, hdisk, Function.update_idem]
                          rfl

/-! ## The whole call -/

/-- What the target holds once it is opened. -/
def opened (disk : Disk FileName UInt8) (target : FileName) (overwrite : Bool) : Bytes :=
  if overwrite then [] else (disk target).getD []

/-- No `read` of the call returns 0 before the end of the source. -/
def ReadsAdvance (source target : FileName) (overwrite : Bool) (kernel : Kernel) : Prop :=
  match (kernel.openRead source).2.openWrite target overwrite with
  | (.error _, _) => True
  | (.ok _, kernel) =>
      readsAdvance source target ((kernel.content source).length + 1) 0 kernel

theorem openWrite_disk {fd : Nat} {overwrite : Bool}
    (hopen : kernel.openWrite target overwrite = (.ok fd, after)) :
    after.disk = Function.update kernel.disk target (some (opened kernel.disk target overwrite)) := by
  rw [Kernel.openWrite] at hopen
  cases hanswer : kernel.answer.descriptor with
  | error errno =>
      rw [hanswer] at hopen
      cases hopen
  | ok fd =>
      rw [hanswer] at hopen
      cases hopen
      cases overwrite with
      | true => rfl
      | false => rfl

/-- A copy is reported after both opens, the loop and the close went well. -/
theorem mdsApiCp_ok {overwrite : Bool}
    (hok : (mdsApiCp source target overwrite kernel).1 = mdsApiOk) :
    ∃ fd start copied, (kernel.openRead source).2.openWrite target overwrite = (.ok fd, start) ∧
      copyLoop source target ((start.content source).length + 1) 0 start = (true, copied) ∧
      mdsApiCp source target overwrite kernel = (mdsApiOk, copied.consume) := by
  unfold mdsApiCp at hok ⊢
  cases hread : kernel.openRead source with
  | mk outcome next =>
      rw [hread] at hok
      cases outcome with
      | error errno => cases hok
      | ok fdFrom =>
          dsimp only at hok ⊢
          cases hopen : next.openWrite target overwrite with
          | mk outcome start =>
              rw [hopen] at hok
              cases outcome with
              | error errno => cases hok
              | ok fdTo =>
                  dsimp only at hok ⊢
                  cases hcopy : copyLoop source target ((start.content source).length + 1) 0
                      start with
                  | mk ended copied =>
                      rw [hcopy] at hok
                      cases ended with
                      | false => cases hok
                      | true =>
                          refine ⟨fdTo, start, copied, rfl, hcopy, ?_⟩
                          dsimp only [Kernel.attempt] at hok ⊢
                          cases hclose : copied.answer.succeeds with
                          | false =>
                              rw [hclose] at hok
                              cases hok
                          | true => rfl

/-- A copy that is reported has put the source over what the target held. -/
theorem mdsApiCp_spec (hne : source ≠ target) {content : Bytes} {overwrite : Bool}
    (hsource : kernel.disk source = some content)
    (hadvance : ReadsAdvance source target overwrite kernel)
    (hok : (mdsApiCp source target overwrite kernel).1 = mdsApiOk) :
    (mdsApiCp source target overwrite kernel).2.disk target =
      some (splice (opened kernel.disk target overwrite) 0 content) := by
  obtain ⟨fd, start, copied, hopen, hcopy, hresult⟩ := mdsApiCp_ok hok
  have hkept : (kernel.openRead source).2.disk = kernel.disk := by
    rw [Kernel.openRead, hsource]
    rfl
  have hstart := openWrite_disk hopen
  rw [hkept] at hstart
  have hsource' : start.disk source = some content := by
    rw [hstart, Function.update_of_ne hne, hsource]
  have htarget : start.disk target =
      some (splice (opened kernel.disk target overwrite) 0 (content.take 0)) := by
    rw [hstart, Function.update_self, List.take_zero, splice_nil]
  rw [ReadsAdvance, hopen] at hadvance
  have hdisk := copyLoop_spec hne _ hsource' htarget (Nat.zero_le _) hadvance hcopy
  rw [hresult]
  change copied.disk target = _
  rw [hdisk, Function.update_self]

/-! ## Without faults -/

theorem writeLoop_all (target : FileName) (offset : Nat) (bytes : Bytes)
    (disk : Disk FileName UInt8) (effects : List (Effect FileName UInt8)) :
    writeLoop target 1 offset bytes ⟨disk, [], effects⟩ =
      (true, ⟨(Effect.write target offset bytes).apply disk, [],
        effects ++ [.write target offset bytes]⟩) := by
  rw [writeLoop, write_all]
  dsimp only
  rw [if_pos List.drop_length]

/-- Without faults the copy loop reads on to the end of the source. -/
theorem copyLoop_ends (hne : source ≠ target) {content : Bytes} (fuel offset : Nat)
    (disk : Disk FileName UInt8) (effects : List (Effect FileName UInt8))
    (hsource : disk source = some content) (hoffset : offset ≤ content.length)
    (hfuel : content.length < offset + fuel) :
    readsAdvance source target fuel offset ⟨disk, [], effects⟩ ∧
      ∃ copied, copyLoop source target fuel offset ⟨disk, [], effects⟩ = (true, copied) ∧
        copied.answers = [] := by
  induction fuel generalizing offset disk effects with
  | zero => omega
  | succ fuel ih =>
      have hlength : ((content.drop offset).take 4096).length =
          min 4096 (content.length - offset) := by
        rw [List.length_take, List.length_drop]
      have hsource' : (Effect.write target offset ((content.drop offset).take 4096)).apply disk
          source = some content := by
        rw [Effect.apply, Function.update_of_ne hne, hsource]
      rw [readsAdvance, copyLoop, read_present hsource]
      dsimp only
      rw [List.length_nil, Nat.zero_add, writeLoop_all]
      dsimp only
      have hfull : offset < ((Kernel.mk disk [] effects).content source).length →
          (Kernel.mk disk [] effects).answer ≠ .count 0 := by
        intro _ hzero
        cases hzero
      by_cases hend : (content.drop offset).take 4096 = []
      · rw [if_pos hend]
        exact ⟨⟨hfull, fun hmore => absurd hend hmore⟩, _, rfl, rfl⟩
      · rw [if_neg hend]
        have hpos := List.length_pos_iff.mpr hend
        obtain ⟨hadvance, hcopied⟩ := ih (offset + ((content.drop offset).take 4096).length) _
          (effects ++ [.write target offset ((content.drop offset).take 4096)]) hsource'
          (by omega) (by omega)
        exact ⟨⟨hfull, fun _ => hadvance⟩, hcopied⟩

theorem openWrite_ends (hne : source ≠ target) (disk : Disk FileName UInt8) (overwrite : Bool) :
    ∃ disk' effects, (Kernel.mk disk [] []).openWrite target overwrite =
      (.ok 3, ⟨disk', [], effects⟩) ∧ disk' source = disk source := by
  cases overwrite with
  | true => exact ⟨_, _, rfl, Function.update_of_ne hne _ _⟩
  | false => exact ⟨_, _, rfl, Function.update_of_ne hne _ _⟩

theorem mdsApiCp_reported (hne : source ≠ target) {disk : Disk FileName UInt8} {content : Bytes}
    (hsource : disk source = some content) (overwrite : Bool) :
    ReadsAdvance source target overwrite ⟨disk, [], []⟩ ∧
      (mdsApiCp source target overwrite ⟨disk, [], []⟩).1 = mdsApiOk := by
  obtain ⟨disk', effects, hopen, hkept⟩ := openWrite_ends hne disk overwrite
  have hsource' := hkept.trans hsource
  have hwhole : (Kernel.mk disk' [] effects).content source = content := by
    change (disk' source).getD [] = content
    rw [hsource', Option.getD_some]
  obtain ⟨hadvance, copied, hcopied, hnone⟩ := copyLoop_ends hne (content.length + 1) 0 disk'
    effects hsource' (Nat.zero_le _) (by omega)
  refine ⟨?_, ?_⟩
  · rw [ReadsAdvance, openRead_present hsource, hopen]
    dsimp only
    rw [hwhole]
    exact hadvance
  · rw [mdsApiCp, openRead_present hsource]
    dsimp only
    rw [hopen]
    dsimp only
    rw [hwhole, hcopied]
    dsimp only
    rw [Kernel.attempt, Kernel.answer, hnone]
    rfl

/-! ## True copies -/

/-- Whatever answers the calls get, a reported copy has made the target equal to the source. -/
def CopiesTruly (source target : FileName) (overwrite : Bool) (disk : Disk FileName UInt8) :
    Prop :=
  ∀ answers, ReadsAdvance source target overwrite ⟨disk, answers, []⟩ →
    (mdsApiCp source target overwrite ⟨disk, answers, []⟩).1 = mdsApiOk →
      (mdsApiCp source target overwrite ⟨disk, answers, []⟩).2.disk target = disk source

theorem splice_zero_eq_iff (prior content : Bytes) :
    splice prior 0 content = content ↔ prior.length ≤ content.length := by
  rw [splice_zero, List.append_right_eq_self, List.drop_eq_nil_iff]

/-- A longer target that is not truncated keeps its end. -/
theorem not_copiesTruly (hne : source ≠ target) {disk : Disk FileName UInt8} {content : Bytes}
    {overwrite : Bool} (hsource : disk source = some content)
    (hlonger : content.length < (opened disk target overwrite).length) :
    ¬CopiesTruly source target overwrite disk := by
  intro htrue
  obtain ⟨hadvance, hok⟩ := mdsApiCp_reported hne hsource overwrite
  have hspec := mdsApiCp_spec hne hsource hadvance hok
  rw [htrue [] hadvance hok, hsource] at hspec
  have hfits := (splice_zero_eq_iff _ _).mp (Option.some.inj hspec).symm
  exact absurd hlonger (Nat.not_lt.mpr hfits)

/--
The copies of a source are true exactly when the target is truncated, or holds no more
than the source.
-/
theorem mdsApiCp_copies_truly_iff (source target : FileName) (overwrite : Bool)
    (disk : Disk FileName UInt8) (content : Bytes) (hne : source ≠ target)
    (hsource : disk source = some content) :
    CopiesTruly source target overwrite disk ↔
      overwrite = true ∨ ((disk target).getD []).length ≤ content.length := by
  have hopened : (opened disk target overwrite).length ≤ content.length ↔
      overwrite = true ∨ ((disk target).getD []).length ≤ content.length := by
    cases overwrite with
    | true => exact iff_of_true (Nat.zero_le _) (Or.inl rfl)
    | false => exact (or_iff_right Bool.false_ne_true).symm
  rw [← hopened]
  constructor
  · intro htrue
    apply Nat.le_of_not_lt
    exact fun hlonger => not_copiesTruly hne hsource hlonger htrue
  · intro hfits answers hadvance hok
    rw [mdsApiCp_spec hne hsource hadvance hok, (splice_zero_eq_iff _ _).mpr hfits, hsource]

/-- A file of two bytes is copied over an older backup of one. -/
theorem mdsApiCp_copies_truly_shorter :
    FileName.file ≠ FileName.bak ∧
      CopiesTruly .file .bak false fun name => if name = .file then some [65, 66] else some [67] :=
  ⟨by decide, (mdsApiCp_copies_truly_iff .file .bak false
    (fun name => if name = .file then some [65, 66] else some [67]) [65, 66] (by decide) rfl).mpr
      (Or.inr (by decide))⟩

/-- Two bytes over three: the last byte of the old backup stays. -/
theorem mdsApiCp_keeps_tail :
    ¬∀ (source target : FileName) (overwrite : Bool) (disk : Disk FileName UInt8)
      (content : Bytes), source ≠ target → disk source = some content →
        CopiesTruly source target overwrite disk := by
  intro hall
  have hne : FileName.file ≠ FileName.bak := by decide
  refine not_copiesTruly hne rfl ?_ (hall .file .bak false
    (fun name => if name = .file then some [65, 66] else some [67, 68, 69]) [65, 66] hne rfl)
  decide

end MdsFormal.Storage.TrueCopies
