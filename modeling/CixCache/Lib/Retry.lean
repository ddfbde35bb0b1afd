import Mathlib.Logic.Basic

/-!
Contract: a call that is tried again until a try is answered, and what the tries leave at the
far end.

Owns: `retry`, the answer of the first of so many tries that brings one, with the number of
tries it takes; `across`, the state of the far end behind so many tries; and that an operation
which is as good done twice as done once is done once, however many tries arrive.

Does not own: what carries a try, or an answer back.
-/

namespace CixCache.Lib

section Answers

variable {α : Type} {once : Nat → Option α}

/-- The answer of the first of so many tries, from the `k`-th on, that brings one. -/
def retry (once : Nat → Option α) : Nat → Nat → Option α
  | 0, _ => none
  | left + 1, k =>
      match once k with
      | some answer => some answer
      | none => retry once left (k + 1)

/-- How many of them are made. -/
def triesMade (once : Nat → Option α) : Nat → Nat → Nat
  | 0, _ => 0
  | left + 1, k =>
      match once k with
      | some _ => 1
      | none => triesMade once left (k + 1) + 1

/-- How a call that is tried again ends. -/
inductive Tried (once : Nat → Option α) (left k : Nat) : Prop
  | answered (j : Nat) {answer : α} (within : j < left) (brings : once (k + j) = some answer)
      (before : ∀ i < j, once (k + i) = none) (result : retry once left k = some answer)
      (made : triesMade once left k = j + 1)
  | unanswered (silent : ∀ i < left, once (k + i) = none) (result : retry once left k = none)
      (made : triesMade once left k = left)

theorem tried (once : Nat → Option α) (left k : Nat) : Tried once left k := by
  induction left generalizing k with
  | zero => exact .unanswered (fun i none_left => absurd none_left (Nat.not_lt_zero i)) rfl rfl
  | succ left inductionHypothesis =>
      cases now : once k with
      | some answer =>
          refine .answered 0 (Nat.succ_pos left) now ?_ ?_ ?_
          · exact fun i before => absurd before (Nat.not_lt_zero i)
          · rw [retry, now]
          · rw [triesMade, now]
      | none =>
          -- The tries that follow are counted from the next one on.
          have shift : ∀ i, once (k + (i + 1)) = once (k + 1 + i) := fun i => by
            rw [Nat.add_assoc, Nat.add_comm 1 i]
          have earlier : ∀ bound, (∀ i < bound, once (k + 1 + i) = none) →
              ∀ i < bound + 1, once (k + i) = none := by
            intro bound silent i within
            cases i with
            | zero => exact now
            | succ i =>
                rw [shift]
                exact silent i (Nat.lt_of_succ_lt_succ within)
          cases inductionHypothesis (k + 1) with
          | answered j within brings before result made =>
              refine .answered (j + 1) (Nat.succ_lt_succ within) ((shift j).trans brings)
                (earlier j before) ?_ ?_
              · rw [retry, now]
                exact result
              · rw [triesMade, now]
                exact congrArg (· + 1) made
          | unanswered silent result made =>
              refine .unanswered (earlier left silent) ?_ ?_
              · rw [retry, now]
                exact result
              · rw [triesMade, now]
                exact congrArg (· + 1) made

theorem triesMade_le (once : Nat → Option α) (left k : Nat) : triesMade once left k ≤ left := by
  cases tried once left k with
  | answered j within _ _ _ made =>
      rw [made]
      exact within
  | unanswered _ _ made => exact Nat.le_of_eq made

theorem triesMade_pos (once : Nat → Option α) {left : Nat} (positive : 0 < left) (k : Nat) :
    0 < triesMade once left k := by
  cases left with
  | zero => exact positive
  | succ left =>
      unfold triesMade
      split
      next => exact Nat.one_pos
      next => exact Nat.succ_pos _

end Answers

section FarEnd

variable {σ : Type} {serve : Nat → σ → σ} {perform : σ → σ}

/-- The far end behind the first so many tries. -/
def across (serve : Nat → σ → σ) : Nat → σ → σ
  | 0, s => s
  | n + 1, s => serve n (across serve n s)

/-- Where no try arrives, nothing is done. -/
theorem across_unheard (arrives : Nat → Prop) {n : Nat}
    (idle : ∀ k < n, ¬ arrives k → ∀ s, serve k s = s)
    (unheard : ∀ k < n, ¬ arrives k) (s : σ) : across serve n s = s := by
  induction n with
  | zero => rfl
  | succ n inductionHypothesis =>
      have earlier := inductionHypothesis (fun k less => idle k (Nat.lt_succ_of_lt less))
        fun k less => unheard k (Nat.lt_succ_of_lt less)
      rw [across, earlier]
      exact idle n (Nat.lt_succ_self n) (unheard n (Nat.lt_succ_self n)) s

/-- An operation that is as good done twice as once is done once, whatever arrives again. -/
theorem across_idempotent (arrives : Nat → Prop) {n : Nat}
    (idle : ∀ k < n, ¬ arrives k → ∀ s, serve k s = s)
    (performs : ∀ k < n, arrives k → ∀ s, serve k s = perform s)
    (twice : ∀ s, perform (perform s) = perform s) (heard : ∃ k < n, arrives k) (s : σ) :
    across serve n s = perform s := by
  induction n with
  | zero =>
      obtain ⟨k, less, _⟩ := heard
      exact absurd less (Nat.not_lt_zero k)
  | succ n inductionHypothesis =>
      have idleBefore : ∀ k < n, ¬ arrives k → ∀ s, serve k s = s :=
        fun k less => idle k (Nat.lt_succ_of_lt less)
      have performsBefore : ∀ k < n, arrives k → ∀ s, serve k s = perform s :=
        fun k less => performs k (Nat.lt_succ_of_lt less)
      rw [across]
      by_cases before : ∃ k < n, arrives k
      · rw [inductionHypothesis idleBefore performsBefore before]
        by_cases last : arrives n
        · rw [performs n (Nat.lt_succ_self n) last, twice]
        · exact idle n (Nat.lt_succ_self n) last _
      · have unheard : ∀ k < n, ¬ arrives k := fun k less arrived => before ⟨k, less, arrived⟩
        obtain ⟨k, less, arrived⟩ := heard
        obtain rfl : k = n :=
          Nat.eq_of_lt_succ_of_not_lt less fun earlier => unheard k earlier arrived
        rw [across_unheard arrives idleBefore unheard]
        exact performs k less arrived s

end FarEnd

end CixCache.Lib
