import Mathlib.Data.List.TakeWhile

/-!
Contract: scanners that pass over the longest run of a class of elements.

Owns: `Stops`, that a list does not begin with an element of a class, and how a run in
front of such a list is passed over.

Does not own: any grammar.
-/

namespace CixCache.Lib

variable {α : Type}

/-- The list is empty, or begins with an element outside the class. -/
def Stops (p : α → Bool) (rest : List α) : Prop := ∀ c, rest.head? = some c → p c = false

variable {p q : α → Bool} {rest : List α}

@[simp] theorem stops_nil : Stops p [] := by
  intro c head
  contradiction

@[simp] theorem stops_cons {c : α} : Stops p (c :: rest) ↔ p c = false := by
  constructor
  · intro stops
    exact stops c rfl
  · intro outside head same
    rw [← Option.some.inj same]
    exact outside

/-- What stops a class stops its part. -/
theorem Stops.mono (stops : Stops q rest) (part : ∀ c, p c = true → q c = true) :
    Stops p rest := by
  intro c head
  have outside := stops c head
  by_contra inside
  rw [part c (by simpa using inside)] at outside
  contradiction

theorem stops_append {front : List α} (stops : Stops p front) (behind : Stops p rest) :
    Stops p (front ++ rest) := by
  cases front with
  | nil => exact behind
  | cons c tail => exact stops_cons.mpr (stops_cons.mp stops)

/-- A scan ends where its class does. -/
theorem stops_dropWhile (p : α → Bool) (text : List α) : Stops p (text.dropWhile p) := by
  intro c head
  have ends := List.head?_dropWhile_not p text
  rw [head] at ends
  exact ends

/-- A scan passes over exactly the run in front. -/
theorem dropWhile_run {run : List α} (all : ∀ c ∈ run, p c = true) (stops : Stops p rest) :
    (run ++ rest).dropWhile p = rest := by
  rw [List.dropWhile_append_of_pos all]
  cases rest with
  | nil => rfl
  | cons c tail =>
      apply List.dropWhile_cons_of_neg
      rw [stops_cons.mp stops]
      exact Bool.false_ne_true

/-- What a scan passed over is a run of its class. -/
theorem exists_run (p : α → Bool) (text : List α) :
    ∃ run, (∀ c ∈ run, p c = true) ∧ text = run ++ text.dropWhile p :=
  ⟨text.takeWhile p, fun _ inside => List.mem_takeWhile_imp inside,
    List.takeWhile_append_dropWhile.symm⟩

end CixCache.Lib
