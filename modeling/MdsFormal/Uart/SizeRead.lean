import MdsFormal.Library.Buffer

/-!
# Reading a given number of bytes from a serial line

`mds_api_uart_size_read` waits for the descriptor and reads what is there until it has
`nbytes`.  The descriptor answers with an endless sequence of events, one for each turn
of the loop; a turn either goes on or ends the call.
-/

namespace MdsFormal.Uart.SizeRead

open MdsFormal.Library.Buffer

/-- What `select` and the `read` behind it return in one turn. -/
inductive Event where
  | selectError
  | timeout
  | readError
  /-- the descriptor is ready and has these bytes; none at the end of the file -/
  | ready (available : List UInt8)
  deriving DecidableEq

/-- The state of the loop, and the bytes taken from the descriptor so far. -/
structure Reading where
  buf : Memory
  idx : Nat
  nreadByte : Nat
  taken : List UInt8

/-- `read(fd, &buf[idx], nreadByte)` of these bytes, and the accounting behind it. -/
def Reading.store (s : Reading) (bytes : List UInt8) : Reading where
  buf := writeAt s.buf s.idx bytes
  idx := s.idx + bytes.length
  nreadByte := s.nreadByte - bytes.length
  taken := s.taken ++ bytes

/-- One turn of the loop; a `break` gives the return value. -/
def turn (s : Reading) : Event → Option Int × Reading
  -- `result` still is what `select` returned
  | .selectError => (some (-1), s)
  | .timeout => (some s.idx, s)
  | .readError => (some s.idx, s)
  | .ready available =>
      let s' := s.store (available.take s.nreadByte)
      (if s'.nreadByte = 0 then some s'.idx else none, s')

/-- The loop after some turns. -/
def turns (events : Nat → Event) (s : Reading) : Nat → Option Int × Reading
  | 0 => (none, s)
  | n + 1 =>
      match turns events s n with
      | (some result, s') => (some result, s')
      | (none, s') => turn s' (events n)

/-- `mds_api_uart_size_read` after some turns: its return value once it has returned. -/
def mdsApiUartSizeRead (events : Nat → Event) (buf : Memory) (nbytes n : Nat) :
    Option Int × Reading :=
  turns events ⟨buf, 0, nbytes, []⟩ n

/-- Bytes the first events bring. -/
def offered (events : Nat → Event) : Nat → Nat
  | 0 => 0
  | n + 1 =>
      match events n with
      | .ready available => offered events n + available.length
      | _ => offered events n

/-! ## Accounting -/

variable {events : Nat → Event} {buf : Memory} {nbytes n : Nat} {s s' : Reading} {result : Int}

/-- The bytes taken are in `buf`, counted by `idx`, and `nbytes` of them at most. -/
structure Accounted (buf : Memory) (nbytes : Nat) (s : Reading) : Prop where
  idx_eq : s.idx = s.taken.length
  total : s.idx + s.nreadByte = nbytes
  stored : s.buf = writeAt buf 0 s.taken

theorem Accounted.start (buf : Memory) (nbytes : Nat) : Accounted buf nbytes ⟨buf, 0, nbytes, []⟩ :=
  ⟨rfl, Nat.zero_add nbytes, rfl⟩

theorem Accounted.store (hs : Accounted buf nbytes s) {bytes : List UInt8}
    (hfits : bytes.length ≤ s.nreadByte) : Accounted buf nbytes (s.store bytes) := by
  have htotal := hs.total
  refine ⟨?_, ?_, ?_⟩
  · change s.idx + bytes.length = (s.taken ++ bytes).length
    rw [List.length_append, hs.idx_eq]
  · change s.idx + bytes.length + (s.nreadByte - bytes.length) = nbytes
    omega
  · change writeAt s.buf s.idx bytes = writeAt buf 0 (s.taken ++ bytes)
    rw [writeAt_append, hs.stored, hs.idx_eq, Nat.zero_add]

theorem Accounted.turn (hs : Accounted buf nbytes s) (event : Event) :
    Accounted buf nbytes (turn s event).2 := by
  cases event with
  | selectError => exact hs
  | timeout => exact hs
  | readError => exact hs
  | ready available => exact hs.store (List.length_take_le _ _)

/-- A call that has not returned after these events. -/
structure Going (events : Nat → Event) (buf : Memory) (nbytes n : Nat) (s : Reading) : Prop where
  accounted : Accounted buf nbytes s
  more : 0 < s.nreadByte
  taken_eq : offered events n = s.taken.length
  no_error : ∀ i < n, events i ≠ .selectError

theorem Going.start (events : Nat → Event) (buf : Memory) (hpos : 0 < nbytes) :
    Going events buf nbytes 0 ⟨buf, 0, nbytes, []⟩ :=
  ⟨Accounted.start buf nbytes, hpos, rfl, fun _ hi => absurd hi (Nat.not_lt_zero _)⟩

theorem Going.no_error_succ (hs : Going events buf nbytes n s)
    (hevent : events n ≠ .selectError) : ∀ i < n + 1, events i ≠ .selectError := by
  intro i hi
  rcases Nat.lt_succ_iff_lt_or_eq.mp hi with hlt | rfl
  · exact hs.no_error i hlt
  · exact hevent

/-- Only a read can leave the call going, and then it took all there was. -/
theorem Going.next (hs : Going events buf nbytes n s)
    (hturn : SizeRead.turn s (events n) = (none, s')) : Going events buf nbytes (n + 1) s' := by
  have haccounted := hs.accounted.turn (events n)
  cases hevent : events n with
  | selectError =>
      rw [hevent] at hturn
      cases hturn
  | timeout =>
      rw [hevent] at hturn
      cases hturn
  | readError =>
      rw [hevent] at hturn
      cases hturn
  | ready available =>
      rw [hturn] at haccounted
      rw [hevent, SizeRead.turn] at hturn
      split at hturn
      · cases hturn
      next hmore =>
          cases hturn
          have hleft : s.nreadByte - (available.take s.nreadByte).length ≠ 0 := hmore
          rw [List.length_take] at hleft
          have hshort : available.length ≤ s.nreadByte := by omega
          refine ⟨haccounted, Nat.pos_of_ne_zero hmore, ?_, hs.no_error_succ ?_⟩
          · rw [offered, hevent]
            change offered events n + available.length =
              (s.taken ++ available.take s.nreadByte).length
            rw [List.take_of_length_le hshort, List.length_append, hs.taken_eq]
          · rw [hevent]
            exact fun h => nomatch h

theorem going_of_turns (hpos : 0 < nbytes) (n : Nat) {s : Reading}
    (hturns : mdsApiUartSizeRead events buf nbytes n = (none, s)) :
    Going events buf nbytes n s := by
  induction n generalizing s with
  | zero =>
      cases hturns
      exact Going.start events buf hpos
  | succ n ih =>
      unfold mdsApiUartSizeRead at ih hturns
      rw [turns] at hturns
      split at hturns
      · cases hturns
      next middle hmiddle => exact (ih hmiddle).next hturns

/-- A call that has returned did so in one of the turns. -/
theorem last_turn (n : Nat)
    (hturns : mdsApiUartSizeRead events buf nbytes n = (some result, s')) :
    ∃ m < n, ∃ s, mdsApiUartSizeRead events buf nbytes m = (none, s) ∧
      turn s (events m) = (some result, s') := by
  unfold mdsApiUartSizeRead at hturns ⊢
  induction n with
  | zero => cases hturns
  | succ n ih =>
      rw [turns] at hturns
      split at hturns
      next earlier middle hmiddle =>
          cases hturns
          obtain ⟨m, hm, s, hs, hturn⟩ := ih hmiddle
          exact ⟨m, Nat.lt_succ_of_lt hm, s, hs, hturn⟩
      next middle hmiddle => exact ⟨n, Nat.lt_succ_self n, middle, hmiddle, hturns⟩

/-! ## How a call ends -/

/-- The call returns, and its value counts the bytes it took and stored. -/
def ReturnsCount (events : Nat → Event) (buf : Memory) (nbytes : Nat) : Prop :=
  ∃ n s, mdsApiUartSizeRead events buf nbytes n = (some (s.taken.length : Int), s) ∧
    s.taken.length ≤ nbytes ∧ s.buf = writeAt buf 0 s.taken

/-- Before any error of `select`, the bytes asked for have come, or there is a timeout or an
error of `read`. -/
def EndsInTime (events : Nat → Event) (nbytes : Nat) : Prop :=
  ∃ n, (∀ i < n, events i ≠ .selectError) ∧
    (nbytes ≤ offered events n ∨ events n = .timeout ∨ events n = .readError)

/-- The last turn: an error of `select` gives -1, every other end the count. -/
theorem Going.last (hs : Going events buf nbytes n s)
    (hturn : SizeRead.turn s (events n) = (some result, s')) :
    events n = .selectError ∧ result = -1 ∨
      events n ≠ .selectError ∧ result = s'.taken.length ∧ EndsInTime events nbytes := by
  have haccounted := hs.accounted.turn (events n)
  rw [hturn] at haccounted
  cases hevent : events n with
  | selectError =>
      rw [hevent] at hturn
      cases hturn
      exact Or.inl ⟨rfl, rfl⟩
  | timeout =>
      rw [hevent] at hturn
      cases hturn
      refine Or.inr ⟨(fun h => nomatch h), congrArg Int.ofNat hs.accounted.idx_eq, n, hs.no_error, ?_⟩
      exact Or.inr (Or.inl hevent)
  | readError =>
      rw [hevent] at hturn
      cases hturn
      refine Or.inr ⟨(fun h => nomatch h), congrArg Int.ofNat hs.accounted.idx_eq, n, hs.no_error, ?_⟩
      exact Or.inr (Or.inr hevent)
  | ready available =>
      have hready : events n ≠ .selectError := by
        rw [hevent]
        exact fun h => nomatch h
      rw [hevent, SizeRead.turn] at hturn
      split at hturn
      next hdone =>
          cases hturn
          refine Or.inr ⟨(fun h => nomatch h), congrArg Int.ofNat haccounted.idx_eq, n + 1,
            hs.no_error_succ hready, Or.inl ?_⟩
          have hidx := hs.accounted.idx_eq
          have htotal := hs.accounted.total
          have hleft : s.nreadByte - (available.take s.nreadByte).length = 0 := hdone
          rw [List.length_take] at hleft
          rw [offered, hevent]
          change nbytes ≤ offered events n + available.length
          rw [hs.taken_eq]
          omega
      · cases hturn

theorem returnsCount_of_last (hpos : 0 < nbytes)
    (hturns : mdsApiUartSizeRead events buf nbytes n = (none, s))
    (hevent : events n ≠ .selectError)
    (hturn : turn s (events n) = (some result, s')) : ReturnsCount events buf nbytes := by
  have hgoing := going_of_turns hpos n hturns
  have haccounted := hgoing.accounted.turn (events n)
  rw [hturn] at haccounted
  change Accounted buf nbytes s' at haccounted
  have hnext : mdsApiUartSizeRead events buf nbytes (n + 1) = (some result, s') := by
    unfold mdsApiUartSizeRead at hturns ⊢
    rw [turns, hturns]
    exact hturn
  rcases hgoing.last hturn with ⟨herror, _⟩ | ⟨_, hresult, _⟩
  · exact absurd herror hevent
  · refine ⟨n + 1, s', hresult ▸ hnext, ?_, haccounted.stored⟩
    have htotal := haccounted.total
    rw [haccounted.idx_eq] at htotal
    omega

/--
A sized read returns the number of bytes it took exactly when it ends before `select` fails.
-/
theorem mdsApiUartSizeRead_returns_count_iff (events : Nat → Event) (buf : Memory) (nbytes : Nat)
    (hpos : 1 ≤ nbytes) : ReturnsCount events buf nbytes ↔ EndsInTime events nbytes := by
  constructor
  · rintro ⟨n, s, hturns, _⟩
    obtain ⟨m, _, middle, hmiddle, hturn⟩ := last_turn n hturns
    rcases (going_of_turns hpos m hmiddle).last hturn with ⟨_, hvalue⟩ | ⟨_, _, hends⟩
    · omega
    · exact hends
  · rintro ⟨n, herror, hends⟩
    cases hturns : mdsApiUartSizeRead events buf nbytes n with
    | mk returned s =>
        cases returned with
        | some result =>
            obtain ⟨m, hm, middle, hmiddle, hturn⟩ := last_turn n hturns
            exact returnsCount_of_last hpos hmiddle (herror m hm) hturn
        | none =>
            have hgoing := going_of_turns hpos n hturns
            rcases hends with hoffered | htimeout | hfailed
            · have htotal := hgoing.accounted.total
              have hmore := hgoing.more
              rw [hgoing.taken_eq, ← hgoing.accounted.idx_eq] at hoffered
              omega
            · refine returnsCount_of_last hpos hturns ?_ (congrArg (turn s) htimeout)
              rw [htimeout]
              exact fun h => nomatch h
            · refine returnsCount_of_last hpos hturns ?_ (congrArg (turn s) hfailed)
              rw [hfailed]
              exact fun h => nomatch h

/-- Two bytes come for a read of four, then nothing more in time. -/
theorem mdsApiUartSizeRead_returns_two :
    1 ≤ 4 ∧ ReturnsCount (fun n => if n = 0 then .ready [79, 75] else .timeout) (fun _ => 0) 4 :=
  ⟨by decide,
    (mdsApiUartSizeRead_returns_count_iff (fun n => if n = 0 then .ready [79, 75] else .timeout)
      (fun _ => 0) 4 (by decide)).mpr ⟨1, by decide, Or.inr (Or.inl rfl)⟩⟩

/-- The other end has hung up: every read gives 0 bytes, and the loop has no exit for that. -/
theorem mdsApiUartSizeRead_hung_up :
    ¬∀ (events : Nat → Event) (buf : Memory) (nbytes : Nat), 1 ≤ nbytes →
      ReturnsCount events buf nbytes := by
  intro hall
  have hnothing (n : Nat) : offered (fun _ => .ready []) n = 0 := by
    induction n with
    | zero => rfl
    | succ n ih => exact ih
  obtain ⟨n, s, hturns, _⟩ := hall (fun _ => .ready []) (fun _ => 0) 4 (by decide)
  obtain ⟨m, _, middle, hmiddle, hturn⟩ := last_turn n hturns
  have hgoing := going_of_turns (by decide) m hmiddle
  rcases hgoing.last hturn with ⟨herror, _⟩ | ⟨_, _, k, _, hoffered | htimeout | hfailed⟩
  · cases herror
  · rw [hnothing] at hoffered
    exact absurd hoffered (by decide)
  · cases htimeout
  · cases hfailed

end MdsFormal.Uart.SizeRead
