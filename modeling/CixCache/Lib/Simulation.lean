import CixCache.Lib.Run

/-!
Contract: forward simulation of one step function by runs of another.

Owns: `Matched`, that a state of the simulating machine is related to the end of a run of
the simulated one, and what the events of that run bring; how matches are begun and
continued; the theorem that passes from the steps of a run to the run; and the rule for what
is kept together with all that was brought.

Does not own: any machine.
-/

namespace CixCache.Lib

variable {α σ ε δ ι : Type} {related : α → σ → Prop} {step : σ → ε → σ} {brings : ε → Option ι}

/-- From `state` a run leads to what the concrete state is related to; its events bring
`brought`, in that order. -/
def Matched (related : α → σ → Prop) (step : σ → ε → σ) (brings : ε → Option ι)
    (brought : List ι) (concrete : α) (state : σ) : Prop :=
  ∃ events, events.filterMap brings = brought ∧ related concrete (run step state events)

section Matching

variable {concrete : α} {state : σ} {brought : List ι}

theorem Matched.here (holds : related concrete state) :
    Matched related step brings [] concrete state :=
  ⟨[], rfl, holds⟩

/-- An event that brings something, and one that brings nothing. -/
theorem Matched.once {event : ε} {item : ι} (something : brings event = some item)
    (rest : Matched related step brings brought concrete (step state event)) :
    Matched related step brings (item :: brought) concrete state := by
  obtain ⟨events, same, holds⟩ := rest
  exact ⟨event :: events, (List.filterMap_cons_some something).trans (congrArg _ same), holds⟩

theorem Matched.silent {event : ε} (nothing : brings event = none)
    (rest : Matched related step brings brought concrete (step state event)) :
    Matched related step brings brought concrete state := by
  obtain ⟨events, same, holds⟩ := rest
  exact ⟨event :: events, (List.filterMap_cons_none nothing).trans same, holds⟩

/-- A match is continued from the state it leads to. -/
theorem Matched.bind {first : α} {more : List ι}
    (matched : Matched related step brings brought first state)
    (onwards : ∀ next, related first next →
      Matched related step brings more concrete next) :
    Matched related step brings (brought ++ more) concrete state := by
  obtain ⟨events, same, holds⟩ := matched
  obtain ⟨others, sameOther, holdsOther⟩ := onwards _ holds
  refine ⟨events ++ others, ?_, ?_⟩
  · rw [List.filterMap_append, same, sameOther]
  · rw [run_append]
    exact holdsOther

end Matching

/-- What the steps of a run take in. -/
def taken (next : α → δ → α) (takes : α → δ → List ι) : α → List δ → List ι
  | _, [] => []
  | concrete, s :: rest => takes concrete s ++ taken next takes (next concrete s) rest

/-- When every step of the simulating machine is matched, so is a whole run of it: the
simulated one is brought what the steps took in. -/
theorem run_matched {next : α → δ → α} {takes : α → δ → List ι} {invariant : α → Prop}
    {condition : α → δ → Prop}
    (keeps : ∀ concrete s, invariant concrete → condition concrete s → invariant (next concrete s))
    (matched : ∀ concrete s state, invariant concrete → condition concrete s →
      related concrete state →
        Matched related step brings (takes concrete s) (next concrete s) state)
    {concrete : α} {steps : List δ} (holds : invariant concrete)
    (along : Along condition next concrete steps) {state : σ} (view : related concrete state) :
    Matched related step brings (taken next takes concrete steps) (run next concrete steps)
      state := by
  induction steps generalizing concrete state with
  | nil => exact Matched.here view
  | cons head tail inductionHypothesis =>
      exact (matched concrete head state holds along.1 view).bind fun other related =>
        inductionHypothesis (keeps concrete head holds along.1) along.2 related

/-- What every step keeps of a state and of all that was brought before it, the run keeps. -/
theorem run_recorded {motive : List ι → σ → Prop} {condition : σ → ε → Prop}
    (keeps : ∀ items state event, motive items state → condition state event →
      motive (items ++ (brings event).toList) (step state event))
    {items : List ι} {state : σ} {events : List ε} (holds : motive items state)
    (along : Along condition step state events) :
    motive (items ++ events.filterMap brings) (run step state events) := by
  induction events generalizing items state with
  | nil =>
      rw [List.filterMap_nil, List.append_nil]
      exact holds
  | cons head tail inductionHypothesis =>
      have later := inductionHypothesis (keeps items state head holds along.1) along.2
      have split : items ++ (head :: tail).filterMap brings =
          items ++ (brings head).toList ++ tail.filterMap brings := by
        cases brought : brings head with
        | none => rw [List.filterMap_cons_none brought, Option.toList_none, List.append_nil]
        | some item =>
            rw [List.filterMap_cons_some brought, Option.toList_some, List.append_assoc,
              List.singleton_append]
      rw [split]
      exact later

end CixCache.Lib
