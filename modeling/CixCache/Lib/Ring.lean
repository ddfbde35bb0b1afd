import Mathlib.Data.List.Basic
import Mathlib.Logic.Function.Basic

/-!
Contract: a ring of fixed capacity that is overwritten oldest first.

Owns: `RingHolds`, that slots hold the last elements of a history, each at its number
modulo the capacity; that the empty history is held; and that writing the next slot
extends the history.

Does not own: what is stored, or how a number becomes an index.
-/

namespace CixCache.Lib

variable {α : Type} {capacity : Nat}

/-- The slot of an element of the history is its number modulo the capacity; only the
last `capacity` elements are still there. -/
def RingHolds (slots : Fin capacity → α) (history : List α) : Prop :=
  ∀ (number : Nat) (logged : number < history.length) (slot : Fin capacity),
    history.length ≤ number + capacity → slot.val = number % capacity →
      slots slot = history[number]

theorem ringHolds_nil (slots : Fin capacity → α) : RingHolds slots [] := by
  intro number logged
  exact absurd logged (Nat.not_lt_zero number)

/-- Numbers less than a capacity apart have different slots. -/
theorem mod_ne_of_near {older newer : Nat} (before : older < newer)
    (near : newer < older + capacity) : older % capacity ≠ newer % capacity := by
  intro same
  have divides : capacity ∣ newer - older :=
    Nat.dvd_of_mod_eq_zero (Nat.sub_mod_eq_zero_of_mod_eq same.symm)
  have wide := Nat.le_of_dvd (by omega) divides
  omega

theorem RingHolds.push {slots : Fin capacity → α} {history : List α}
    (holds : RingHolds slots history) {next : Fin capacity}
    (index : next.val = history.length % capacity) (element : α) :
    RingHolds (Function.update slots next element) (history ++ [element]) := by
  intro number logged slot recent place
  rw [List.length_append, List.length_singleton] at logged recent
  by_cases newest : number = history.length
  · subst newest
    have same : slot = next := Fin.ext (place.trans index.symm)
    rw [same, Function.update_self, List.getElem_concat_length rfl]
  · have older : number < history.length := by omega
    have apart : slot ≠ next := by
      intro same
      rw [same, index] at place
      exact mod_ne_of_near older (by omega) place.symm
    rw [Function.update_of_ne apart, List.getElem_append_left older]
    exact holds number older slot (by omega) place

end CixCache.Lib
