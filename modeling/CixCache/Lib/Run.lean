import Mathlib.Data.List.Basic

/-!
Contract: runs of a total step function.

Owns: `run`, the state after a list of events; `Along`, a condition that every
step of a run meets in the state it is taken from; and the induction principles
by which an invariant, or a reflexive and transitive relation between states,
passes from one step to a whole run.

Does not own: any state, event or step.
-/

namespace CixCache.Lib

variable {σ ε : Type}

def run (step : σ → ε → σ) (state : σ) (events : List ε) : σ := events.foldl step state

@[simp] theorem run_nil (step : σ → ε → σ) (state : σ) : run step state [] = state := rfl

@[simp] theorem run_cons (step : σ → ε → σ) (state : σ) (event : ε) (rest : List ε) :
    run step state (event :: rest) = run step (step state event) rest := rfl

theorem run_append (step : σ → ε → σ) (state : σ) (first second : List ε) :
    run step state (first ++ second) = run step (run step state first) second :=
  List.foldl_append

/-- Every step of the run meets the condition in the state it is taken from. -/
def Along (condition : σ → ε → Prop) (step : σ → ε → σ) : σ → List ε → Prop
  | _, [] => True
  | state, event :: rest =>
      condition state event ∧ Along condition step (step state event) rest

instance Along.decidable {condition : σ → ε → Prop} {step : σ → ε → σ}
    [∀ state event, Decidable (condition state event)] :
    ∀ (state : σ) (events : List ε), Decidable (Along condition step state events)
  | _, [] => isTrue trivial
  | state, event :: rest =>
      have : Decidable (Along condition step (step state event) rest) :=
        Along.decidable (step state event) rest
      inferInstanceAs (Decidable (condition state event ∧ Along condition step (step state event) rest))

theorem along_append {condition : σ → ε → Prop} {step : σ → ε → σ} {state : σ}
    {first second : List ε} :
    Along condition step state (first ++ second) ↔
      Along condition step state first ∧
        Along condition step (run step state first) second := by
  induction first generalizing state with
  | nil => simp [Along]
  | cons head tail inductionHypothesis =>
      simp only [List.cons_append, Along, run_cons, inductionHypothesis, and_assoc]

theorem Along.mono {condition weaker : σ → ε → Prop} {step : σ → ε → σ} {state : σ}
    {events : List ε} (implies : ∀ state event, condition state event → weaker state event)
    (along : Along condition step state events) : Along weaker step state events := by
  induction events generalizing state with
  | nil => trivial
  | cons head tail inductionHypothesis =>
      exact ⟨implies _ _ along.1, inductionHypothesis along.2⟩

theorem Along.and {condition other : σ → ε → Prop} {step : σ → ε → σ} {state : σ}
    {events : List ε} (first : Along condition step state events)
    (second : Along other step state events) :
    Along (fun state event => condition state event ∧ other state event) step state events := by
  induction events generalizing state with
  | nil => trivial
  | cons head tail inductionHypothesis =>
      exact ⟨⟨first.1, second.1⟩, inductionHypothesis first.2 second.2⟩

theorem along_of_forall {condition : σ → ε → Prop} {step : σ → ε → σ} {state : σ}
    {events : List ε} (every : ∀ event ∈ events, ∀ state, condition state event) :
    Along condition step state events := by
  induction events generalizing state with
  | nil => trivial
  | cons head tail inductionHypothesis =>
      refine ⟨every head List.mem_cons_self state, inductionHypothesis ?_⟩
      intro event member
      exact every event (List.mem_cons_of_mem _ member)

/-- What every step of a run keeps, the run keeps. -/
theorem run_invariant {motive : σ → Prop} {condition : σ → ε → Prop} {step : σ → ε → σ}
    (keeps : ∀ state event, motive state → condition state event →
      motive (step state event))
    {state : σ} {events : List ε} (holds : motive state)
    (along : Along condition step state events) : motive (run step state events) := by
  induction events generalizing state with
  | nil => exact holds
  | cons head tail inductionHypothesis =>
      exact inductionHypothesis (keeps state head holds along.1) along.2

/-- A relation that every step respects relates the ends of a run, given an
invariant the steps may use. -/
theorem run_relates {motive : σ → Prop} {condition : σ → ε → Prop} {step : σ → ε → σ}
    (relation : σ → σ → Prop) (reflexive : ∀ state, relation state state)
    (transitive : ∀ {first second third}, relation first second → relation second third →
      relation first third)
    (keeps : ∀ state event, motive state → condition state event →
      motive (step state event))
    (respects : ∀ state event, motive state → condition state event →
      relation state (step state event))
    {state : σ} {events : List ε} (holds : motive state)
    (along : Along condition step state events) : relation state (run step state events) := by
  induction events generalizing state with
  | nil => exact reflexive state
  | cons head tail inductionHypothesis =>
      exact transitive (respects state head holds along.1)
        (inductionHypothesis (keeps state head holds along.1) along.2)

end CixCache.Lib
