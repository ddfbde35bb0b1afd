import CixCache.Lib.Run

/-!
Contract: computations that record the events they perform.

Owns: `Traced`, a value with the events performed to reach it; the predicate that
every event is an allowed one, with its rules for sequencing; and runs of a traced
step.

Does not own: any kind of event.
-/

namespace CixCache.Lib

/-- A value, and the events performed to compute it. -/
structure Traced (ι α : Type) where
  value : α
  events : List ι

namespace Traced

variable {ι α β σ ε : Type}

/-- A single event and the value it answers with. -/
def perform (event : ι) (value : α) : Traced ι α := ⟨value, [event]⟩

instance : Monad (Traced ι) where
  pure value := ⟨value, []⟩
  bind first next := ⟨(next first.value).value, first.events ++ (next first.value).events⟩

@[simp] theorem value_pure (value : α) : (pure value : Traced ι α).value = value := rfl

@[simp] theorem value_perform (event : ι) (value : α) : (perform event value).value = value := rfl

@[simp] theorem value_bind (first : Traced ι α) (next : α → Traced ι β) :
    (first >>= next).value = (next first.value).value := rfl

@[simp] theorem events_bind (first : Traced ι α) (next : α → Traced ι β) :
    (first >>= next).events = first.events ++ (next first.value).events := rfl

/-! ## Allowed events -/

/-- Every event performed is an allowed one. -/
def Only (allowed : ι → Prop) (traced : Traced ι α) : Prop :=
  ∀ event ∈ traced.events, allowed event

section Rules

variable {allowed : ι → Prop} {first : Traced ι α} {next : α → Traced ι β}

theorem only_pure (value : α) : Only allowed (pure value : Traced ι α) := by
  intro event member
  exact absurd member List.not_mem_nil

theorem only_perform {event : ι} (value : α) (holds : allowed event) :
    Only allowed (perform event value) := by
  intro other member
  rw [List.mem_singleton.mp member]
  exact holds

theorem Only.bind (before : Only allowed first) (after : Only allowed (next first.value)) :
    Only allowed (first >>= next) := by
  intro event member
  rcases List.mem_append.mp member with early | late
  · exact before event early
  · exact after event late

end Rules

/-! ## Runs -/

/-- A traced step taken once for each input. -/
def steps (step : σ → ε → Traced ι σ) : σ → List ε → Traced ι σ
  | state, [] => pure state
  | state, input :: rest => step state input >>= fun next => steps step next rest

/-- What every step of a run keeps, and performs while it is kept, the run performs. -/
theorem steps_only {allowed : ι → Prop} {motive : σ → Prop} {condition : σ → ε → Prop}
    {step : σ → ε → Traced ι σ}
    (keeps : ∀ state input, motive state → condition state input →
      motive (step state input).value)
    (bounded : ∀ state input, motive state → condition state input →
      Only allowed (step state input))
    {state : σ} (start : motive state) {inputs : List ε}
    (along : Along condition (fun state input => (step state input).value) state inputs) :
    Only allowed (steps step state inputs) := by
  induction inputs generalizing state with
  | nil => exact only_pure state
  | cons head tail inductionHypothesis =>
      apply (bounded state head start along.1).bind
      exact inductionHypothesis (keeps state head start along.1) along.2

end Traced

end CixCache.Lib
