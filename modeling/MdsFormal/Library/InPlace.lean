import MdsFormal.Library.Faults

/-!
# Computations in place

A computation in place works on a state that is there before it and stays as it is at a
fault.  It realizes a computation without a state when the two fault alike and the state
that is left stands for the result.  What a fault has left is not looked at, so that a
sequence of parts that realize parts realizes their sequence.
-/

namespace MdsFormal.Library.InPlace

open Faults

abbrev Writing (ε σ : Type) := ExceptT ε (StateM σ)

variable {ε σ τ α α' β β' : Type}

/-- What a computation returns and what it leaves. -/
def run (computation : Writing ε σ α) (s : σ) : Except ε α × σ := computation.run.run s

/-- A computation that does not look at the state. -/
def of (reading : Except ε α) : Writing ε σ α := fun s => (reading, s)

/-- `for(k = i; left turns; k++)`. -/
def turns (body : Nat → Writing ε σ Unit) : Nat → Nat → Writing ε σ Unit
  | 0, _ => pure ()
  | left + 1, i => do
      body i
      turns body left (i + 1)

theorem run_bind (first : Writing ε σ α) (next : α → Writing ε σ α') (s : σ) :
    run (first >>= next) s =
      match run first s with
      | (.ok value, s') => run (next value) s'
      | (.error fault, s') => (.error fault, s') := by
  simp only [run, bind, ExceptT.bind, ExceptT.mk, ExceptT.run, StateT.bind, StateT.run]
  cases first s with
  | mk result s' =>
      cases result with
      | ok value => rfl
      | error fault => rfl

@[simp]
theorem run_of (reading : Except ε α) (s : σ) : run (of reading) s = (reading, s) := rfl

@[simp]
theorem run_get (s : σ) : run (get : Writing ε σ σ) s = (.ok s, s) := rfl

@[simp]
theorem run_set (s s' : σ) : run (set s' : Writing ε σ PUnit) s = (.ok (), s') := rfl

/-- The two fault alike, and a result stands for what is returned and what is left. -/
structure Realizes (computation : Writing ε σ α) (s : σ) (reading : Except ε β)
    (stands : β → α × σ) : Prop where
  of_ok : ∀ value, reading = .ok value →
    run computation s = (.ok (stands value).1, (stands value).2)
  of_error : ∀ fault, reading = .error fault → ∃ s', run computation s = (.error fault, s')

variable {s : σ} {first : Writing ε σ α} {next : α → Writing ε σ α'} {reading : Except ε β}
  {then' : β → Except ε β'} {stands : β → α × σ} {stands' : β' → α' × σ}

theorem realizes_pure (value : β) (stands : β → α × σ) (hleft : (stands value).2 = s) :
    Realizes (pure (stands value).1) s (.ok value : Except ε β) stands where
  of_ok value' hvalue := by
    cases hvalue
    rw [hleft]
    rfl
  of_error fault hfault := by cases hfault

theorem realizes_of (reading : Except ε β) :
    Realizes (of reading) s reading fun value => (value, s) where
  of_ok value hvalue := by
    rw [hvalue]
    rfl
  of_error fault hfault := ⟨s, by rw [hfault]; rfl⟩

theorem realizes_modify (change : σ → σ) :
    Realizes (modify change : Writing ε σ Unit) s (.ok ()) fun _ => ((), change s) where
  of_ok value hvalue := rfl
  of_error fault hfault := by cases hfault

/-- A sequence realizes a sequence. -/
theorem Realizes.bind (hfirst : Realizes first s reading stands)
    (hnext : ∀ value, reading = .ok value →
      Realizes (next (stands value).1) (stands value).2 (then' value) stands') :
    Realizes (first >>= next) s (reading >>= then') stands' where
  of_ok result hresult := by
    obtain ⟨value, hvalue, hrest⟩ := bind_eq_ok_iff.mp hresult
    rw [run_bind, hfirst.of_ok value hvalue]
    exact (hnext value hvalue).of_ok result hrest
  of_error fault hfault := by
    rcases bind_eq_error_iff.mp hfault with hfails | ⟨value, hvalue, hrest⟩
    · obtain ⟨s', hs'⟩ := hfirst.of_error fault hfails
      rw [run_bind, hs']
      exact ⟨s', rfl⟩
    · rw [run_bind, hfirst.of_ok value hvalue]
      exact (hnext value hvalue).of_error fault hrest

/-- A part that has no fault is followed by one that realizes the reading. -/
theorem Realizes.andThen {value : β} {reading' : Except ε β'}
    (hfirst : Realizes first s (.ok value) stands)
    (hnext : Realizes (next (stands value).1) (stands value).2 reading' stands') :
    Realizes (first >>= next) s reading' stands' := by
  have hboth : Realizes (first >>= next) s ((.ok value : Except ε β) >>= fun _ => reading') stands' :=
    hfirst.bind fun value' hvalue => by
      cases hvalue
      exact hnext
  exact hboth

/-- Nothing comes after a fault. -/
theorem Realizes.bind_error {fault : ε}
    (hfirst : Realizes first s (.error fault : Except ε β) stands) :
    Realizes (first >>= next) s (.error fault : Except ε β') stands' := by
  have hboth : Realizes (first >>= next) s
      ((.error fault : Except ε β) >>= fun _ => (.error fault : Except ε β')) stands' :=
    hfirst.bind fun value hvalue => by cases hvalue
  exact hboth

/-- The result of the reading is named otherwise. -/
theorem Realizes.of_map {name : β → β'} {stands' : β' → α × σ}
    (hreal : Realizes first s (reading >>= fun value => pure (name value)) stands') :
    Realizes first s reading fun value => stands' (name value) where
  of_ok value hvalue := hreal.of_ok (name value) (by rw [hvalue]; rfl)
  of_error fault hfault := hreal.of_error fault (by rw [hfault]; rfl)

theorem Realizes.map {name : β → β'} {stands' : β' → α × σ}
    (hreal : Realizes first s reading fun value => stands' (name value)) :
    Realizes first s (reading >>= fun value => pure (name value)) stands' where
  of_ok result hresult := by
    obtain ⟨value, hvalue, hname⟩ := bind_eq_ok_iff.mp hresult
    cases hname
    exact hreal.of_ok value hvalue
  of_error fault hfault := by
    rcases bind_eq_error_iff.mp hfault with hfails | ⟨value, _, hname⟩
    · exact hreal.of_error fault hfails
    · cases hname

/-- A loop realizes a loop when each turn does. -/
theorem Realizes.turns {body : Nat → Writing ε σ Unit} {pureBody : Nat → τ → Except ε τ}
    {embed : τ → σ} {inv : Nat → τ → Prop}
    (hbody : ∀ k t, inv k t → Realizes (body k) (embed t) (pureBody k t) fun t' => ((), embed t'))
    (hinv : ∀ k t t', inv k t → pureBody k t = .ok t' → inv (k + 1) t') (left i : Nat) {t : τ}
    (ht : inv i t) :
    Realizes (InPlace.turns body left i) (embed t) (loop pureBody left i t) fun t' =>
      ((), embed t') := by
  induction left generalizing i t with
  | zero => exact realizes_pure t (fun t' => ((), embed t')) rfl
  | succ left ih =>
      refine (hbody i t ht).bind fun t' ht' => ?_
      exact ih (i + 1) (hinv i t t' ht ht')

theorem realizes_turns {body : Nat → Writing ε σ Unit} {pureBody : Nat → τ → Except ε τ}
    {embed : τ → σ}
    (hbody : ∀ k t, Realizes (body k) (embed t) (pureBody k t) fun t' => ((), embed t'))
    (left i : Nat) (t : τ) :
    Realizes (turns body left i) (embed t) (loop pureBody left i t) fun t' => ((), embed t') :=
  @Realizes.turns ε σ τ body pureBody embed (fun _ _ => True) (fun k t _ => hbody k t)
    (fun _ _ _ _ _ => trivial) left i t trivial

end MdsFormal.Library.InPlace
