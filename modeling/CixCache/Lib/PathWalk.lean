import Mathlib.Data.List.Infix

/-!
Contract: where a path leads, links aside.

Owns: `walk`, the place that the components of a path lead to from a directory;
that it stays below the directory without a component that goes up; and that a
component is part of the text it was split from.

Does not own: any separator, or any name of the two special components.
-/

namespace CixCache.Lib

variable {α : Type} [DecidableEq α]

/-- Where some components lead from a directory, given as the names above it: an
empty one and `self` stay, `parent` goes up. -/
def walk (self parent : List α) : List (List α) → List (List α) → List (List α)
  | place, [] => place
  | place, name :: rest =>
      if name = [] ∨ name = self then walk self parent place rest
      else if name = parent then walk self parent place.dropLast rest
      else walk self parent (place ++ [name]) rest

variable {self parent : List α}

theorem walk_append (place first second : List (List α)) :
    walk self parent place (first ++ second) =
      walk self parent (walk self parent place first) second := by
  induction first generalizing place with
  | nil => rfl
  | cons name rest inductionHypothesis =>
      rw [List.cons_append, walk, walk]
      split
      next => exact inductionHypothesis place
      next =>
        split
        next => exact inductionHypothesis place.dropLast
        next => exact inductionHypothesis (place ++ [name])

/-- Components none of which goes up lead below the directory. -/
theorem walk_below {names : List (List α)} (never : parent ∉ names) (place : List (List α)) :
    place <+: walk self parent place names := by
  induction names generalizing place with
  | nil => exact List.prefix_refl place
  | cons name rest inductionHypothesis =>
      have restNever : parent ∉ rest := fun member => never (List.mem_cons_of_mem _ member)
      have other : name ≠ parent := fun same => never (same ▸ List.mem_cons_self)
      rw [walk]
      split
      next => exact inductionHypothesis restNever place
      next =>
        exact (List.prefix_append place [name]).trans (inductionHypothesis restNever _)

/-- Every component is a part of the text, and the first one begins it. -/
theorem infix_of_mem_splitOn {sep : α} {text name : List α} (member : name ∈ text.splitOn sep) :
    name <:+: text := by
  have parts : (∀ first ∈ (text.splitOn sep).head?, first <+: text) ∧
      ∀ part ∈ text.splitOn sep, part <:+: text := by
    clear member
    induction text with
    | nil => simp [List.splitOn]
    | cons c rest inductionHypothesis =>
        rw [List.splitOn_cons_eq_if_modifyHead]
        split
        next =>
          refine ⟨by simp, ?_⟩
          intro part among
          rcases List.mem_cons.mp among with rfl | later
          · exact List.nil_infix
          · exact (inductionHypothesis.2 part later).trans (List.suffix_cons c rest).isInfix
        next =>
          obtain ⟨head, tail, shape⟩ := List.exists_cons_of_ne_nil (List.splitOn_ne_nil sep rest)
          rw [shape] at inductionHypothesis ⊢
          have begins : c :: head <+: c :: rest :=
            List.cons_prefix_cons.mpr ⟨rfl, inductionHypothesis.1 head rfl⟩
          refine ⟨fun first same => (Option.some.inj same) ▸ begins, ?_⟩
          intro part among
          rcases List.mem_cons.mp among with rfl | later
          · exact begins.isInfix
          · exact (inductionHypothesis.2 part (List.mem_cons_of_mem _ later)).trans
              (List.suffix_cons c rest).isInfix
  exact parts.2 name member

end CixCache.Lib
