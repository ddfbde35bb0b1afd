import CixCache.Lib.Lines
import CixCache.Lib.Search

/-!
Contract: a block of lines that an empty line closes.

Owns: `joinLines`, the lines with the pair between them, and `block`, the closed block;
that its lines are read back by `pairLines`; and that the end of the block is the
first place where the pair stands twice.

Does not own: what a line says.
-/

namespace CixCache.Lib

universe u

section Text

variable {α : Type} {first second : α} {line : List α} {lines : List (List α)}

/-- The lines, with the pair between each and the next. -/
def joinLines (first second : α) : List (List α) → List α
  | [] => []
  | [line] => line
  | line :: next :: rest => line ++ first :: second :: joinLines first second (next :: rest)

/-- The lines, each ended by the pair, and the pair once more. -/
def block (first second : α) : List (List α) → List α
  | [] => [first, second]
  | line :: rest => line ++ first :: second :: block first second rest

/-- Lines of which none is empty or has the first value of the pair in it. -/
def PlainLines (first : α) (lines : List (List α)) : Prop :=
  ∀ line ∈ lines, line ≠ [] ∧ first ∉ line

theorem PlainLines.tail (plain : PlainLines first (line :: lines)) : PlainLines first lines :=
  fun other member => plain other (List.mem_cons_of_mem _ member)

theorem block_eq (nonempty : lines ≠ []) :
    block first second lines = joinLines first second lines ++ [first, second, first, second] := by
  induction lines with
  | nil => contradiction
  | cons line rest inductionHypothesis =>
      cases rest with
      | nil => rfl
      | cons next others =>
          rw [block, joinLines, inductionHypothesis (by simp)]
          simp

theorem PlainLines.opens (plain : PlainLines first (line :: lines)) (more : List α) :
    (joinLines first second (line :: lines) ++ more).head? ≠ some first := by
  obtain ⟨nonempty, absent⟩ := plain line List.mem_cons_self
  obtain ⟨head, tail, rfl⟩ := List.exists_cons_of_ne_nil nonempty
  have other : head ≠ first := fun same => absent (same ▸ List.mem_cons_self)
  cases lines with
  | nil => simpa [joinLines] using other
  | cons next rest => simpa [joinLines] using other

end Text

section Skip

variable {α : Type u} [DecidableEq α] {first : α} {pattern line : List α}

/-- An occurrence begins with the first value of the pattern. -/
theorem memmem_skip (absent : first ∉ line) (text : List α) :
    memmem (first :: pattern) (line ++ text) =
      (memmem (first :: pattern) text).map (· + line.length) := by
  induction line with
  | nil => simp
  | cons head tail inductionHypothesis =>
      rw [List.mem_cons, not_or] at absent
      have apart : ¬ first :: pattern <+: head :: (tail ++ text) := by
        rw [List.cons_prefix_cons]
        exact fun occurs => absent.1 occurs.1
      rw [List.cons_append, memmem, if_neg apart, inductionHypothesis absent.2, Option.map_map]
      rfl

end Skip

section Lines

variable {α : Type} [DecidableEq α] {first second : α} {line : List α} {lines : List (List α)}

theorem pairLines_last (nonempty : line ≠ []) (absent : first ∉ line) :
    pairLines first second line = [line] := by
  rcases pairLines_cases first second line with empty | whole | cut
  · contradiction
  · exact whole
  · obtain ⟨front, back, rfl, _⟩ := cut
    exact absurd (List.mem_append_right _ List.mem_cons_self) absent

theorem pairLines_line (absent : first ∉ line) (rest : List α) :
    pairLines first second (line ++ first :: second :: rest) =
      line :: pairLines first second rest := by
  induction line with
  | nil => exact pairLines_pair rest
  | cons head tail inductionHypothesis =>
      rw [List.mem_cons, not_or] at absent
      obtain ⟨next, others, shape⟩ :
          ∃ next others, tail ++ first :: second :: rest = next :: others :=
        List.exists_cons_of_ne_nil (by simp)
      have again := inductionHypothesis absent.2
      rw [List.cons_append, shape] at *
      have other : ¬ (head = first ∧ next = second) := fun pair => absent.1 pair.1.symm
      rw [pairLines, if_neg other, again]

/-- The lines of joined lines are these lines. -/
theorem pairLines_joinLines (plain : PlainLines first lines) :
    pairLines first second (joinLines first second lines) = lines := by
  induction lines with
  | nil => rfl
  | cons line rest inductionHypothesis =>
      obtain ⟨nonempty, absent⟩ := plain line List.mem_cons_self
      cases rest with
      | nil => exact pairLines_last nonempty absent
      | cons next others =>
          rw [joinLines, pairLines_line absent, inductionHypothesis plain.tail]

theorem memmem_pair (absent : first ∉ line) (rest : List α) :
    memmem [first, second] (line ++ first :: second :: rest) = some line.length := by
  have here : [first, second] <+: first :: second :: rest := ⟨rest, rfl⟩
  rw [memmem_skip absent, memmem_of_prefix here]
  simp

/-- Behind a line that another line follows the pair does not stand twice. -/
theorem memmem_line (differ : first ≠ second) (absent : first ∉ line) {rest : List α}
    (opens : rest.head? ≠ some first) :
    memmem [first, second, first, second] (line ++ first :: second :: rest) =
      (memmem [first, second, first, second] rest).map (· + (line.length + 2)) := by
  have atPair : ¬ [first, second, first, second] <+: first :: second :: rest := by
    rintro ⟨more, same⟩
    apply opens
    rw [← List.tail_eq_of_cons_eq (List.tail_eq_of_cons_eq same)]
    rfl
  have atSecond : ¬ [first, second, first, second] <+: second :: rest := by
    rw [List.cons_prefix_cons]
    exact fun occurs => differ occurs.1
  rw [memmem_skip absent, memmem, if_neg atPair, memmem, if_neg atSecond, Option.map_map,
    Option.map_map]
  congr 1
  funext offset
  simp only [Function.comp]
  omega

/-- The pair stands twice for the first time at the end of the block. -/
theorem memmem_block (differ : first ≠ second) (nonempty : lines ≠ [])
    (plain : PlainLines first lines) (more : List α) :
    memmem [first, second, first, second] (block first second lines ++ more) =
      some (joinLines first second lines).length := by
  induction lines with
  | nil => contradiction
  | cons line rest inductionHypothesis =>
      obtain ⟨_, absent⟩ := plain line List.mem_cons_self
      rw [block, List.append_assoc, List.cons_append, List.cons_append]
      cases rest with
      | nil =>
          have here : [first, second, first, second] <+:
              first :: second :: (block first second [] ++ more) := ⟨more, rfl⟩
          rw [memmem_skip absent, memmem_of_prefix here]
          simp [joinLines]
      | cons next others =>
          have opens : (block first second (next :: others) ++ more).head? ≠ some first := by
            rw [block_eq (by simp), List.append_assoc]
            exact plain.tail.opens _
          rw [memmem_line differ absent opens, inductionHypothesis (by simp) plain.tail]
          simp only [Option.map_some, joinLines, List.length_append, List.length_cons]
          congr 1
          omega

/-- What follows joined lines decides whether the pair stands twice. -/
theorem memmem_joinLines (differ : first ≠ second) (plain : PlainLines first lines)
    {last : List α} (opens : last.head? ≠ some first)
    (absent : memmem [first, second, first, second] last = none) :
    memmem [first, second, first, second]
      (joinLines first second (lines ++ [last])) = none := by
  induction lines with
  | nil => exact absent
  | cons line rest inductionHypothesis =>
      obtain ⟨_, noPair⟩ := plain line List.mem_cons_self
      have again := inductionHypothesis plain.tail
      obtain ⟨next, others, shape⟩ : ∃ next others, rest ++ [last] = next :: others :=
        List.exists_cons_of_ne_nil (by simp)
      have front : (joinLines first second (rest ++ [last])).head? ≠ some first := by
        cases rest with
        | nil => exact opens
        | cons other more =>
            obtain ⟨filled, clean⟩ := plain.tail other List.mem_cons_self
            obtain ⟨head, tail, rfl⟩ := List.exists_cons_of_ne_nil filled
            have differs : head ≠ first := fun same => clean (same ▸ List.mem_cons_self)
            cases more with
            | nil => simpa [joinLines] using differs
            | cons another later => simpa [joinLines] using differs
      rw [List.cons_append]
      rw [shape] at again front ⊢
      rw [joinLines, memmem_line differ noPair front, again]
      rfl

end Lines

end CixCache.Lib
