/-!
# Systems with answers

A system takes an input in a state and gives an answer and the next state.  Two systems
answer alike when a map between their states goes along with every input.
-/

namespace MdsFormal.Library.Transducer

universe u v w x

variable {State : Type u} {Input : Type v} {Output : Type w} {Abstract : Type x}

/-- The answers to the inputs, in order. -/
def answers (perform : State → Input → Output × State) : State → List Input → List Output
  | _, [] => []
  | state, input :: rest =>
      (perform state input).1 :: answers perform (perform state input).2 rest

/-- The state behind the inputs. -/
def final (perform : State → Input → Output × State) (state : State) (inputs : List Input) :
    State :=
  inputs.foldl (fun state input => (perform state input).2) state

/-- The answers are those of the system that every input is carried over to. -/
theorem answers_eq_of_simulation {perform : State → Input → Output × State}
    {spec : Abstract → Input → Output × Abstract} {abstraction : State → Abstract}
    (hstep : ∀ state input, spec (abstraction state) input =
      ((perform state input).1, abstraction (perform state input).2))
    (state : State) (inputs : List Input) :
    answers perform state inputs = answers spec (abstraction state) inputs ∧
      abstraction (final perform state inputs) = final spec (abstraction state) inputs := by
  induction inputs generalizing state with
  | nil => exact ⟨rfl, rfl⟩
  | cons input rest ih =>
      obtain ⟨hanswers, hfinal⟩ := ih (perform state input).2
      rw [answers, answers, hstep, hanswers]
      refine ⟨rfl, ?_⟩
      rw [final, List.foldl_cons, final, List.foldl_cons, hstep]
      exact hfinal

end MdsFormal.Library.Transducer
