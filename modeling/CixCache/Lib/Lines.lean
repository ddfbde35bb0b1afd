import Mathlib.Data.List.Infix

/-!
Contract: a text as the lines that a pair of values ends.

Owns: `pairLines`, the lines of a text; how the first of them is cut off; and `upTo`,
the lines as far as the first one that is looked for.

Does not own: what a line says.
-/

namespace CixCache.Lib

section Split

variable {α : Type} [DecidableEq α] {first second : α}

/-- The lines of a text. Each is ended by the pair, the last one by the end of the text
too; a value of the pair that stands alone ends nothing. -/
def pairLines (first second : α) : List α → List (List α)
  | [] => []
  | [c] => [[c]]
  | c :: d :: rest =>
      if c = first ∧ d = second then [] :: pairLines first second rest
      else
        match pairLines first second (d :: rest) with
        | [] => [[c]]
        | line :: lines => (c :: line) :: lines

theorem pairLines_pair (rest : List α) :
    pairLines first second (first :: second :: rest) = [] :: pairLines first second rest := by
  rw [pairLines, if_pos ⟨rfl, rfl⟩]

/-- A text is empty, one line without an end, or a line, its end and the other lines. -/
theorem pairLines_cases (first second : α) (text : List α) :
    text = [] ∨ pairLines first second text = [text] ∨
      ∃ line rest, text = line ++ first :: second :: rest ∧
        pairLines first second text = line :: pairLines first second rest := by
  induction text using pairLines.induct first second with
  | case1 => exact Or.inl rfl
  | case2 c => exact Or.inr (Or.inl rfl)
  | case3 c d rest pair =>
      obtain ⟨rfl, rfl⟩ := pair
      exact Or.inr (Or.inr ⟨[], rest, rfl, pairLines_pair rest⟩)
  | case4 c d rest other nothing inductionHypothesis =>
      rcases inductionHypothesis with empty | whole | ⟨line, later, _, cut⟩
      · contradiction
      · rw [nothing] at whole
        contradiction
      · rw [nothing] at cut
        contradiction
  | case5 c d rest other line lines cut inductionHypothesis =>
      refine Or.inr ?_
      rw [pairLines, if_neg other, cut]
      rcases inductionHypothesis with empty | whole | ⟨front, later, shape, again⟩
      · contradiction
      · rw [cut] at whole
        obtain ⟨rfl, rfl⟩ := List.cons.inj whole
        exact Or.inl rfl
      · rw [cut] at again
        obtain ⟨rfl, rfl⟩ := List.cons.inj again
        exact Or.inr ⟨c :: line, later, by rw [shape, List.cons_append], rfl⟩

end Split

section Search

variable {α : Type} {found : α → Bool}

/-- The values as far as the first one that is found, which is the last. -/
def upTo (found : α → Bool) : List α → List α
  | [] => []
  | value :: rest => if found value then [value] else value :: upTo found rest

theorem find?_upTo (values : List α) : (upTo found values).find? found = values.find? found := by
  induction values with
  | nil => rfl
  | cons value rest inductionHypothesis =>
      rw [upTo]
      cases here : found value with
      | true => rw [if_pos rfl, List.find?_cons, List.find?_cons, here]
      | false =>
          rw [if_neg Bool.false_ne_true, List.find?_cons, List.find?_cons, here]
          exact inductionHypothesis

end Search

end CixCache.Lib
