import MdsFormal.Uart.SizeRead

/-!
# The bytes of a serial line over many calls

Bytes arrive while calls wait in `select`.  A call that reads puts them into its buffer; the
flush and the check read them too, and drop them.  Over any calls each byte that arrives is
taken by one call, in the order of arrival, or still waits.
-/

namespace MdsFormal.Uart.Session

open MdsFormal.Library.Buffer
open MdsFormal.Uart.SizeRead

/-! ## The line -/

/-- What happens while one `select` waits and at the `read` behind it. -/
structure Wake where
  arrived : List UInt8
  selectFails : Bool
  readFails : Bool
  /-- The descriptor counts as ready although nothing waits. -/
  hungUp : Bool
  deriving DecidableEq

/-- The bytes that wait, and what will happen. -/
structure Line where
  queue : List UInt8
  wakes : List Wake
  deriving DecidableEq

/-- All that is still to be taken. -/
def Line.toCome (line : Line) : List UInt8 := line.queue ++ line.wakes.flatMap Wake.arrived

inductive Selected where
  | failed
  | timeout
  | readable
  deriving DecidableEq

/-- `select`, which ends with these bytes in the queue. -/
def Wake.select (wake : Wake) (queue : List UInt8) : Selected :=
  if wake.selectFails then .failed
  else if queue = [] ∧ wake.hungUp = false then .timeout
  else .readable

/-- `read` of up to `count` bytes: what it returns, the bytes, and the queue behind it. -/
def Wake.read (wake : Wake) (count : Nat) (queue : List UInt8) : Int × List UInt8 × List UInt8 :=
  if wake.readFails then (-1, [], queue)
  else ((queue.take count).length, queue.take count, queue.drop count)

/-! ## The calls -/

/-- What a call returns, what it took off the line, and its buffer. -/
structure Outcome where
  ret : Int
  taken : List UInt8
  buf : Memory

/-- `while(1)` of `mds_api_uart_flush`, with what it has dropped so far; `none` still waits. -/
def flushLoop : List Wake → List UInt8 → List UInt8 → Option (Int × List UInt8 × Line)
  | [], _, _ => none
  | wake :: rest, queue, dropped =>
      let queue := queue ++ wake.arrived
      match wake.select queue with
      | .failed => some (-1, dropped, ⟨queue, rest⟩)
      | .timeout => some (0, dropped, ⟨queue, rest⟩)
      | .readable =>
          let (_, ch, queue) := wake.read 1 queue
          flushLoop rest queue (dropped ++ ch)

/-- `while(retry > 0)` of `mds_api_uart_check`; `nread` is the number of bytes dropped. -/
def checkLoop : Nat → Int → Line → List UInt8 → Option (Int × List UInt8 × Line)
  | 0, result, line, dropped => some (result, dropped, line)
  | _ + 1, _, ⟨_, []⟩, _ => none
  | retry + 1, _, ⟨queue, wake :: rest⟩, dropped =>
      let queue := queue ++ wake.arrived
      match wake.select queue with
      | .failed => some (-1, dropped, ⟨queue, rest⟩)
      | .timeout => some (0, dropped, ⟨queue, rest⟩)
      | .readable =>
          let (_, ch, queue) := wake.read 1 queue
          checkLoop retry 1 ⟨queue, rest⟩ (dropped ++ ch)

/-- What a turn of `mds_api_uart_size_read` meets. -/
def Wake.event (wake : Wake) (queue : List UInt8) : Event :=
  match wake.select queue with
  | .failed => .selectError
  | .timeout => .timeout
  | .readable => if wake.readFails then .readError else .ready queue

/-- `while(1)` of `mds_api_uart_size_read`. -/
def sizeLoop : List Wake → List UInt8 → Reading → Option (Int × Reading × Line)
  | [], _, _ => none
  | wake :: rest, queue, s =>
      let queue := queue ++ wake.arrived
      let (result, s') := turn s (wake.event queue)
      let queue := queue.drop (s'.taken.length - s.taken.length)
      match result with
      | some result => some (result, s', ⟨queue, rest⟩)
      | none => sizeLoop rest queue s'

inductive Call where
  /-- `mds_api_init_uart` with what `open` gives; it flushes the input. -/
  | init (fd : Option Nat)
  | flush
  | check (retry : Int)
  | read (buf : Memory) (nbytes : Nat)
  | read2 (buf : Memory) (nbytes : Nat)
  | sizeRead (buf : Memory) (nbytes : Nat)

def mdsApiUartFlush (line : Line) : Option (Int × List UInt8 × Line) :=
  flushLoop line.wakes line.queue []

def mdsApiUartCheck (line : Line) (retry : Int) : Option (Int × List UInt8 × Line) :=
  (checkLoop retry.toNat 0 line []).map fun (result, dropped, line) =>
    (if 1 < dropped.length then 1 else result, dropped, line)

/-- One `select`, and a `read` that is made after a timeout, too. -/
def selectRead (line : Line) (buf : Memory) (nbytes : Nat) : Option (Outcome × Line) :=
  match line.wakes with
  | [] => none
  | wake :: rest =>
      let queue := line.queue ++ wake.arrived
      if wake.select queue = .failed then some (⟨-1, [], buf⟩, ⟨queue, rest⟩)
      else
        let (result, bytes, queue) := wake.read nbytes queue
        some (⟨result, bytes, writeAt buf 0 bytes⟩, ⟨queue, rest⟩)

/-- `mds_api_uart_read`, which waits for seconds. -/
def mdsApiUartRead : Line → Memory → Nat → Option (Outcome × Line) := selectRead

/-- `mds_api_uart_read2`, which waits for microseconds. -/
def mdsApiUartRead2 : Line → Memory → Nat → Option (Outcome × Line) := selectRead

def mdsApiUartSizeRead (line : Line) (buf : Memory) (nbytes : Nat) : Option (Outcome × Line) :=
  (sizeLoop line.wakes line.queue ⟨buf, 0, nbytes, []⟩).map fun (result, s, line) =>
    (⟨result, s.taken, s.buf⟩, line)

/-- A call, with the memory it does not use as its buffer. -/
def perform (line : Line) : Call → Option (Outcome × Line)
  | .init none => some (⟨-1, [], fun _ => 0⟩, line)
  | .init (some fd) => some (⟨fd, line.queue, fun _ => 0⟩, ⟨[], line.wakes⟩)
  | .flush =>
      (mdsApiUartFlush line).map fun (ret, dropped, line) => (⟨ret, dropped, fun _ => 0⟩, line)
  | .check retry =>
      (mdsApiUartCheck line retry).map fun (ret, dropped, line) =>
        (⟨ret, dropped, fun _ => 0⟩, line)
  | .read buf nbytes => mdsApiUartRead line buf nbytes
  | .read2 buf nbytes => mdsApiUartRead2 line buf nbytes
  | .sizeRead buf nbytes => mdsApiUartSizeRead line buf nbytes

/-- The calls one after the other: what each of them did with the line behind it, and the line
behind all of them. -/
def run : Line → List Call → Option (List (Outcome × Line) × Line)
  | line, [] => some ([], line)
  | line, call :: rest =>
      match perform line call with
      | none => none
      | some (outcome, after) =>
          (run after rest).map fun (done, last) => ((outcome, after) :: done, last)

/-! ## What a call does -/

/-- The call took these bytes from the front of all that is to come. -/
def Takes (line after : Line) (taken : List UInt8) : Prop := line.toCome = taken ++ after.toCome

/-- What a call tells its caller about what it took, and leaves behind. -/
def Call.Tells (call : Call) (outcome : Outcome) (after : Line) : Prop :=
  match call with
  | .init fd => fd.isSome → after.queue = []
  | .flush => outcome.ret = 0 ∧ after.queue = [] ∨ outcome.ret = -1
  | .check retry =>
      outcome.taken.length ≤ retry.toNat ∧ (2 ≤ outcome.taken.length → outcome.ret = 1) ∧
        (outcome.ret = 0 → outcome.taken.length ≤ 1 ∧ (retry ≤ 0 ∨ after.queue = []))
  | .read buf nbytes | .read2 buf nbytes | .sizeRead buf nbytes =>
      outcome.taken.length ≤ nbytes ∧ outcome.buf = writeAt buf 0 outcome.taken ∧
        (outcome.ret = outcome.taken.length ∨ outcome.ret = -1)

section

variable {wake : Wake} {wakes rest : List Wake} {queue dropped all : List UInt8} {line after : Line}
  {count retry nbytes : Nat} {ret result : Int} {buf : Memory} {s s' : Reading}

theorem toCome_arrived :
    Line.toCome ⟨queue, wake :: rest⟩ = Line.toCome ⟨queue ++ wake.arrived, rest⟩ := by
  rw [Line.toCome, Line.toCome, List.flatMap_cons, List.append_assoc]

theorem read_takes :
    queue = (wake.read count queue).2.1 ++ (wake.read count queue).2.2 := by
  rw [Wake.read]
  split
  · rfl
  · exact (List.take_append_drop count queue).symm

theorem length_read_le : (wake.read count queue).2.1.length ≤ count := by
  rw [Wake.read]
  split
  · exact Nat.zero_le count
  · exact List.length_take_le count queue

/-- What is read first is taken from the front. -/
theorem takes_of_read {taken : List UInt8}
    (hrest : Takes ⟨(wake.read count (queue ++ wake.arrived)).2.2, rest⟩ after taken) :
    Takes ⟨queue, wake :: rest⟩ after ((wake.read count (queue ++ wake.arrived)).2.1 ++ taken) := by
  rw [Takes, toCome_arrived, List.append_assoc, ← hrest, Line.toCome, Line.toCome,
    ← List.append_assoc, ← read_takes]

theorem select_timeout (htimeout : wake.select queue = .timeout) : queue = [] := by
  rw [Wake.select] at htimeout
  split at htimeout
  · cases htimeout
  · split at htimeout
    · next hnone => exact hnone.1
    · cases htimeout

theorem flushLoop_takes (hloop : flushLoop wakes queue dropped = some (ret, all, after)) :
    ∃ more, all = dropped ++ more ∧ Takes ⟨queue, wakes⟩ after more ∧
      (ret = 0 ∧ after.queue = [] ∨ ret = -1) := by
  induction wakes generalizing queue dropped with
  | nil => cases hloop
  | cons wake rest ih =>
      rw [flushLoop] at hloop
      dsimp only at hloop
      split at hloop
      · cases hloop
        exact ⟨[], (List.append_nil _).symm, toCome_arrived, .inr rfl⟩
      · next htimeout =>
          cases hloop
          exact ⟨[], (List.append_nil _).symm, toCome_arrived, .inl ⟨rfl, select_timeout htimeout⟩⟩
      · obtain ⟨more, hall, htakes, hret⟩ := ih hloop
        exact ⟨_, hall.trans (List.append_assoc _ _ _), takes_of_read htakes, hret⟩

theorem checkLoop_takes (hloop : checkLoop retry result line dropped = some (ret, all, after)) :
    ∃ more, all = dropped ++ more ∧ Takes line after more ∧ more.length ≤ retry ∧
      (ret = 0 → retry = 0 ∧ result = 0 ∨ after.queue = []) := by
  induction retry generalizing result line dropped with
  | zero =>
      cases hloop
      exact ⟨[], (List.append_nil _).symm, rfl, Nat.le_refl 0, fun hzero => .inl ⟨rfl, hzero⟩⟩
  | succ retry ih =>
      obtain ⟨queue, wakes⟩ := line
      cases wakes with
      | nil => cases hloop
      | cons wake rest =>
          rw [checkLoop] at hloop
          dsimp only at hloop
          split at hloop
          · cases hloop
            refine ⟨[], (List.append_nil _).symm, toCome_arrived, Nat.zero_le _, fun hzero => ?_⟩
            cases hzero
          · next htimeout =>
              cases hloop
              exact ⟨[], (List.append_nil _).symm, toCome_arrived, Nat.zero_le _,
                fun _ => .inr (select_timeout htimeout)⟩
          · obtain ⟨more, hall, htakes, hlength, hzero⟩ := ih hloop
            refine ⟨_, hall.trans (List.append_assoc _ _ _), takes_of_read htakes, ?_, ?_⟩
            · rw [List.length_append, Nat.add_comm retry]
              exact Nat.add_le_add length_read_le hlength
            · intro hret
              rcases hzero hret with ⟨-, hone⟩ | hquiet
              · cases hone
              · exact .inr hquiet

/-- A turn takes what it stores from the front of the queue. -/
theorem turn_takes (event : Event)
    (hevent : ∀ available, event = .ready available → available = queue) :
    ∃ more, (turn s event).2.taken = s.taken ++ more ∧ queue = more ++ queue.drop more.length := by
  cases event with
  | ready available =>
      cases hevent available rfl
      refine ⟨queue.take s.nreadByte, rfl, ?_⟩
      rw [List.length_take]
      rcases Nat.le_total s.nreadByte queue.length with hle | hle
      · rw [Nat.min_eq_left hle, List.take_append_drop]
      · rw [Nat.min_eq_right hle, List.take_of_length_le hle, List.drop_length, List.append_nil]
  | selectError | timeout | readError => exact ⟨[], (List.append_nil _).symm, rfl⟩

theorem turn_ret {event : Event} (hturn : (turn s event).1 = some ret) :
    ret = (turn s event).2.idx ∨ ret = -1 := by
  cases event with
  | selectError =>
      cases hturn
      exact .inr rfl
  | timeout | readError =>
      cases hturn
      exact .inl rfl
  | ready available =>
      rw [turn] at hturn ⊢
      dsimp only at hturn ⊢
      split at hturn
      · cases hturn
        exact .inl rfl
      · cases hturn

theorem event_ready (available : List UInt8) (hevent : wake.event queue = .ready available) :
    available = queue := by
  rw [Wake.event] at hevent
  split at hevent
  · cases hevent
  · cases hevent
  · split at hevent
    · cases hevent
    · cases hevent
      rfl

/-- The bytes taken are in the buffer, and the call counts them or has failed. -/
theorem sizeLoop_takes (hs : Accounted buf nbytes s)
    (hloop : sizeLoop wakes queue s = some (ret, s', after)) :
    ∃ more, s'.taken = s.taken ++ more ∧ Takes ⟨queue, wakes⟩ after more ∧
      Accounted buf nbytes s' ∧ (ret = s'.taken.length ∨ ret = -1) := by
  induction wakes generalizing queue s with
  | nil => cases hloop
  | cons wake rest ih =>
      have hnext := hs.turn (wake.event (queue ++ wake.arrived))
      have hret := @turn_ret ret s (wake.event (queue ++ wake.arrived))
      obtain ⟨first, htaken, hqueue⟩ :=
        @turn_takes (queue ++ wake.arrived) s (wake.event (queue ++ wake.arrived)) event_ready
      rw [sizeLoop] at hloop
      dsimp only at hloop
      generalize turn s (wake.event (queue ++ wake.arrived)) = turned at hloop hnext hret htaken
      obtain ⟨result, next⟩ := turned
      have hcount : next.taken.length - s.taken.length = first.length := by
        rw [htaken, List.length_append, Nat.add_sub_cancel_left]
      dsimp only at hloop hret htaken
      rw [hcount] at hloop
      cases result with
      | some result =>
          cases hloop
          refine ⟨first, htaken, ?_, hnext, ?_⟩
          · rw [Takes, toCome_arrived, Line.toCome, Line.toCome, ← List.append_assoc, ← hqueue]
          · rw [← hnext.idx_eq]
            exact hret rfl
      | none =>
          obtain ⟨more, hmore, htakes, haccounted, hreturns⟩ := ih hnext hloop
          refine ⟨first ++ more, ?_, ?_, haccounted, hreturns⟩
          · rw [hmore, htaken, List.append_assoc]
          · rw [Takes, toCome_arrived, List.append_assoc, ← htakes, Line.toCome, Line.toCome,
              ← List.append_assoc, ← hqueue]

theorem read_ret : (wake.read count queue).1 = (wake.read count queue).2.1.length ∨
    (wake.read count queue).1 = -1 := by
  rw [Wake.read]
  split
  · exact .inr rfl
  · exact .inl rfl

theorem selectRead_takes {outcome : Outcome}
    (hcall : selectRead line buf nbytes = some (outcome, after)) :
    Takes line after outcome.taken ∧ outcome.taken.length ≤ nbytes ∧
      outcome.buf = writeAt buf 0 outcome.taken ∧
      (outcome.ret = outcome.taken.length ∨ outcome.ret = -1) := by
  obtain ⟨queue, wakes⟩ := line
  cases wakes with
  | nil => cases hcall
  | cons wake rest =>
      rw [selectRead] at hcall
      dsimp only at hcall
      split at hcall
      · cases hcall
        exact ⟨toCome_arrived, Nat.zero_le _, rfl, .inr rfl⟩
      · cases hcall
        refine ⟨?_, length_read_le, rfl, read_ret⟩
        have htakes := @takes_of_read wake rest queue
          ⟨(wake.read nbytes (queue ++ wake.arrived)).2.2, rest⟩ nbytes [] rfl
        rwa [List.append_nil] at htakes

theorem perform_takes {call : Call} {outcome : Outcome}
    (hcall : perform line call = some (outcome, after)) :
    Takes line after outcome.taken ∧ call.Tells outcome after := by
  cases call with
  | init fd =>
      cases fd with
      | none =>
          cases hcall
          exact ⟨rfl, fun hsome => nomatch hsome⟩
      | some fd =>
          cases hcall
          exact ⟨rfl, fun _ => rfl⟩
  | flush =>
      obtain ⟨⟨ret, dropped, next⟩, hloop, hresult⟩ := Option.map_eq_some_iff.mp hcall
      cases hresult
      obtain ⟨more, rfl, htakes, hret⟩ := flushLoop_takes hloop
      exact ⟨htakes, hret⟩
  | check retry =>
      obtain ⟨⟨ret, dropped, next⟩, hcheck, hresult⟩ := Option.map_eq_some_iff.mp hcall
      cases hresult
      obtain ⟨⟨result, all, last⟩, hloop, hresult⟩ := Option.map_eq_some_iff.mp hcheck
      cases hresult
      obtain ⟨more, rfl, htakes, hlength, hzero⟩ := checkLoop_takes hloop
      refine ⟨htakes, hlength, fun htwo => if_pos htwo, fun hret => ?_⟩
      dsimp only at hret
      split at hret
      · cases hret
      · next hone =>
          refine ⟨Nat.le_of_not_lt hone, (hzero hret).imp (fun hdone => ?_) id⟩
          exact Int.toNat_eq_zero.mp hdone.1
  | read buf nbytes => exact selectRead_takes hcall
  | read2 buf nbytes => exact selectRead_takes hcall
  | sizeRead buf nbytes =>
      obtain ⟨⟨ret, s, next⟩, hloop, hresult⟩ := Option.map_eq_some_iff.mp hcall
      cases hresult
      obtain ⟨more, hmore, htakes, haccounted, hret⟩ :=
        sizeLoop_takes (Accounted.start buf nbytes) hloop
      have htotal := haccounted.total
      rw [haccounted.idx_eq] at htotal
      rw [List.nil_append] at hmore
      rw [← hmore] at htakes
      have hlength : s.taken.length ≤ nbytes := by omega
      exact ⟨htakes, hlength, haccounted.stored, hret⟩

/--
Whatever arrives and whichever system calls fail, the calls take the bytes from the line in the
order in which they arrive, each byte once, and each call tells what it took as it promises.
-/
theorem run_takes (line last : Line) (calls : List Call) (done : List (Outcome × Line))
    (hrun : run line calls = some (done, last)) :
    line.toCome = (done.flatMap fun step => step.1.taken) ++ last.toCome ∧
      List.Forall₂ (fun call step => call.Tells step.1 step.2) calls done := by
  induction calls generalizing line done with
  | nil =>
      cases hrun
      exact ⟨rfl, .nil⟩
  | cons call rest ih =>
      rw [run] at hrun
      cases hcall : perform line call with
      | none =>
          rw [hcall] at hrun
          cases hrun
      | some step =>
          obtain ⟨outcome, after⟩ := step
          rw [hcall] at hrun
          obtain ⟨⟨later, last'⟩, hlater, hresult⟩ := Option.map_eq_some_iff.mp hrun
          cases hresult
          obtain ⟨htakes, htells⟩ := perform_takes hcall
          obtain ⟨htoCome, hall⟩ := ih _ _ hlater
          refine ⟨?_, .cons htells hall⟩
          rw [htakes, htoCome, List.flatMap_cons, List.append_assoc]

end

/-- A byte from before the flush, then three that a sized read takes in two turns. -/
def flushedLine : Line :=
  ⟨[7], [⟨[], false, false, false⟩, ⟨[], false, false, false⟩, ⟨[1, 2], false, false, false⟩,
    ⟨[3, 4], false, false, false⟩]⟩

theorem run_takes_flushedLine :
    ∃ done last, run flushedLine [.flush, .sizeRead (fun _ => 0) 3] = some (done, last) ∧
      flushedLine.toCome = (done.flatMap fun step => step.1.taken) ++ last.toCome ∧
      List.Forall₂ (fun (call : Call) step => call.Tells step.1 step.2)
        [.flush, .sizeRead (fun _ => 0) 3] done := by
  have hsome : (run flushedLine [.flush, .sizeRead (fun _ => 0) 3]).isSome = true := by decide
  obtain ⟨⟨done, last⟩, hrun⟩ := Option.isSome_iff_exists.mp hsome
  exact ⟨done, last, hrun, run_takes flushedLine last _ done hrun⟩

/-- The check returns 0 and has dropped the one byte that it has read. -/
example : (perform ⟨[7], [⟨[], false, false, false⟩, ⟨[], false, false, false⟩]⟩ (.check 3)).map
    (fun step => (step.1.ret, step.1.taken, step.2.queue)) = some (0, [7], []) := by
  decide

end MdsFormal.Uart.Session
