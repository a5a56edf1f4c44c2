/-!
# Runs of a partial labelled step function

A system is a function `step : State → Label → Option State`; `none` says that
the label cannot happen in the state.  A run is the list of its labels.  The
rules below turn facts about one step into facts about every step of a run,
with an invariant carried along the way.
-/

namespace MdsFormal.Library.LabelledRun

universe u v w

section

variable {State : Type u} {Label : Type v} (step : State → Label → Option State)

/-- Perform the labels in order. -/
def run : State → List Label → Option State
  | state, [] => some state
  | state, label :: rest => (step state label).bind fun next => run next rest

/-- A run in two parts. -/
theorem run_append (state : State) (first second : List Label) :
    run step state (first ++ second) =
      (run step state first).bind fun middle => run step middle second := by
  induction first generalizing state with
  | nil => rfl
  | cons label rest ih =>
      cases hstep : step state label with
      | none => simp only [List.cons_append, run, hstep, Option.bind_none]
      | some next => simp only [List.cons_append, run, hstep, Option.bind_some, ih]

/-- Every step of the run meets `demand`, read in the state the step starts in. -/
def EachStep (demand : State → Label → Prop) : State → List Label → Prop
  | _, [] => True
  | state, label :: rest =>
      demand state label ∧
        match step state label with
        | none => True
        | some next => EachStep demand next rest

instance decidableEachStep (demand : State → Label → Prop)
    [∀ state label, Decidable (demand state label)] :
    ∀ state labels, Decidable (EachStep step demand state labels)
  | _, [] => .isTrue trivial
  | state, label :: rest =>
      have : Decidable (match step state label with
          | none => True
          | some next => EachStep step demand next rest) :=
        match step state label with
        | none => .isTrue trivial
        | some next => decidableEachStep demand next rest
      inferInstanceAs (Decidable (_ ∧ _))

variable {step}

theorem eachStep_cons {demand : State → Label → Prop} {state : State}
    {label : Label} {rest : List Label} :
    EachStep step demand state (label :: rest) ↔
      demand state label ∧
        ∀ next, step state label = some next → EachStep step demand next rest := by
  rw [EachStep]
  cases step state label <;> simp

/-- Steps that meet `guard` meet `demand` too when an invariant links the two. -/
theorem eachStep_of_invariant {guard demand : State → Label → Prop}
    (inv : State → Prop)
    (hstep : ∀ state label next, inv state → guard state label →
      step state label = some next → inv next)
    (hdemand : ∀ state label, inv state → guard state label → demand state label)
    {state : State} {labels : List Label} (hinv : inv state)
    (hguard : EachStep step guard state labels) :
    EachStep step demand state labels := by
  induction labels generalizing state with
  | nil => trivial
  | cons label rest ih =>
      obtain ⟨hhead, htail⟩ := eachStep_cons.mp hguard
      refine eachStep_cons.mpr ⟨hdemand _ _ hinv hhead, fun next hnext => ?_⟩
      exact ih (hstep _ _ _ hinv hhead hnext) (htail next hnext)

/-- A demand that follows from an invariant of every step is met by every run. -/
theorem eachStep_of_kept {demand : State → Label → Prop} (inv : State → Prop)
    (hstep : ∀ state label next, inv state → step state label = some next → inv next)
    (hdemand : ∀ state label, inv state → demand state label)
    {state : State} {labels : List Label} (hinv : inv state) :
    EachStep step demand state labels := by
  induction labels generalizing state with
  | nil => trivial
  | cons label rest ih =>
      refine eachStep_cons.mpr ⟨hdemand state label hinv, fun next hnext => ?_⟩
      exact ih (hstep state label next hinv hnext)

/-- An invariant of every step holds at the end of every run. -/
theorem inv_of_run (inv : State → Prop)
    (hstep : ∀ state label next, inv state → step state label = some next → inv next)
    {state final : State} {labels : List Label} (hinv : inv state)
    (hrun : run step state labels = some final) : inv final := by
  induction labels generalizing state with
  | nil =>
      cases hrun
      exact hinv
  | cons label rest ih =>
      obtain ⟨next, hnext, hrest⟩ := Option.bind_eq_some_iff.mp hrun
      exact ih (hstep state label next hinv hnext) hrest

/-- An invariant of the steps that meet `guard` holds at the end of a run of such steps. -/
theorem inv_of_guarded_run {guard : State → Label → Prop} (inv : State → Prop)
    (hstep : ∀ state label next, inv state → guard state label →
      step state label = some next → inv next)
    {state final : State} {labels : List Label} (hinv : inv state)
    (hguard : EachStep step guard state labels) (hrun : run step state labels = some final) :
    inv final := by
  induction labels generalizing state with
  | nil =>
      cases hrun
      exact hinv
  | cons label rest ih =>
      obtain ⟨hhead, htail⟩ := eachStep_cons.mp hguard
      obtain ⟨next, hnext, hrest⟩ := Option.bind_eq_some_iff.mp hrun
      exact ih (hstep state label next hinv hhead hnext) (htail next hnext) hrest

/-- Two demands that an invariant makes equivalent at each step are equivalent over runs. -/
theorem eachStep_iff_of_invariant {guard demand : State → Label → Prop}
    (inv : State → Prop)
    (hstep : ∀ state label next, inv state → guard state label →
      step state label = some next → inv next)
    (hiff : ∀ state label, inv state → (guard state label ↔ demand state label))
    {state : State} {labels : List Label} (hinv : inv state) :
    EachStep step guard state labels ↔ EachStep step demand state labels := by
  constructor
  · exact eachStep_of_invariant inv hstep (fun state label hs => (hiff state label hs).mp) hinv
  · refine eachStep_of_invariant inv ?_ (fun state label hs => (hiff state label hs).mpr) hinv
    intro state label next hs hd
    exact hstep state label next hs ((hiff state label hs).mpr hd)

/-- When good labels keep an invariant, under which a demand says that the label is good,
a run meets the demand exactly when all its labels are good. -/
theorem eachStep_iff_forall_label {demand : State → Label → Prop} {good : Label → Prop}
    (inv : State → Prop)
    (hstep : ∀ state label, inv state → good label →
      ∃ next, step state label = some next ∧ inv next)
    (hiff : ∀ state label, inv state → (demand state label ↔ good label))
    {state : State} {labels : List Label} (hinv : inv state) :
    EachStep step demand state labels ↔ ∀ label ∈ labels, good label := by
  induction labels generalizing state with
  | nil => exact iff_of_true trivial (by simp)
  | cons label rest ih =>
      rw [eachStep_cons, hiff state label hinv, List.forall_mem_cons]
      constructor
      · rintro ⟨hgood, hrest⟩
        obtain ⟨next, hnext, hkeep⟩ := hstep state label hinv hgood
        exact ⟨hgood, (ih hkeep).mp (hrest next hnext)⟩
      · rintro ⟨hgood, hrest⟩
        obtain ⟨next, hnext, hkeep⟩ := hstep state label hinv hgood
        refine ⟨hgood, fun other hother => ?_⟩
        cases hnext.symm.trans hother
        exact (ih hkeep).mpr hrest

/-- Two systems that stay related by every label, or get stuck together, do so in every run. -/
theorem run_rel {Abstract : Type w} {spec : Abstract → Label → Option Abstract}
    {rel : State → Abstract → Prop}
    (hstep : ∀ state abstract label, rel state abstract →
      Option.Rel rel (step state label) (spec abstract label))
    {state : State} {abstract : Abstract} (hrel : rel state abstract) (labels : List Label) :
    Option.Rel rel (run step state labels) (run spec abstract labels) := by
  induction labels generalizing state abstract with
  | nil => exact .some hrel
  | cons label rest ih =>
      have hnext := hstep state abstract label hrel
      rw [run, run]
      generalize step state label = first at hnext
      generalize spec abstract label = second at hnext
      cases hnext with
      | none => exact .none
      | some hnext => exact ih hnext

end

end MdsFormal.Library.LabelledRun
