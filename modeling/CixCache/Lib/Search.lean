import Mathlib.Data.List.Infix

/-!
Contract: the first occurrence of a pattern in a list.

Owns: `memmem`, its exact characterization, and how the answer behaves when the
list grows at its end: an occurrence that was found stays the first one, and one
that was not found reaches into what was added.

Does not own: any particular pattern or alphabet.
-/

namespace CixCache.Lib

universe u

variable {α : Type u} [DecidableEq α]

/-- The offset of the first occurrence of the pattern. -/
def memmem (pattern : List α) : List α → Option Nat
  | [] => if pattern = [] then some 0 else none
  | head :: tail =>
      if pattern <+: head :: tail then some 0 else (memmem pattern tail).map (· + 1)

variable {pattern text more : List α} {offset : Nat}

theorem memmem_of_prefix (occurs : pattern <+: text) : memmem pattern text = some 0 := by
  cases text with
  | nil => simp [memmem, List.prefix_nil.mp occurs]
  | cons head tail => simp [memmem, occurs]

/-- What is found occurs at its offset. -/
theorem memmem_sound (found : memmem pattern text = some offset) :
    pattern <+: text.drop offset := by
  induction text generalizing offset with
  | nil =>
      rw [memmem] at found
      split at found
      next empty => rw [empty]; exact List.nil_prefix
      next => contradiction
  | cons head tail inductionHypothesis =>
      rw [memmem] at found
      split at found
      next occurs =>
        rw [← Option.some.inj found]
        exact occurs
      next =>
        obtain ⟨earlier, later, rfl⟩ := Option.map_eq_some_iff.mp found
        exact inductionHypothesis later

theorem memmem_eq_none : memmem pattern text = none ↔ ¬ pattern <:+: text := by
  induction text with
  | nil =>
      rw [memmem]
      split
      next empty => simp [empty]
      next nonempty => simpa using nonempty
  | cons head tail inductionHypothesis =>
      rw [memmem, List.infix_cons_iff]
      split
      next occurs => simp [occurs]
      next absent => simp [absent, inductionHypothesis]

/-- The whole occurrence lies inside the list. -/
theorem memmem_bound (found : memmem pattern text = some offset) :
    offset + pattern.length ≤ text.length := by
  have fits := (memmem_sound found).length_le
  rw [List.length_drop] at fits
  by_cases inside : offset ≤ text.length
  · omega
  · -- An empty pattern is found at the very beginning.
    exfalso
    have empty : pattern = [] := List.eq_nil_of_length_eq_zero (by omega)
    rw [empty, memmem_of_prefix List.nil_prefix] at found
    rw [← Option.some.inj found] at inside
    omega

/-- What was found stays found when the list grows. -/
theorem memmem_append (found : memmem pattern text = some offset) (more : List α) :
    memmem pattern (text ++ more) = some offset := by
  induction text generalizing offset with
  | nil =>
      rw [memmem] at found
      split at found
      next empty =>
        rw [empty, memmem_of_prefix List.nil_prefix]
        exact found
      next => contradiction
  | cons head tail inductionHypothesis =>
      have bound := memmem_bound found
      rw [memmem] at found
      rw [List.cons_append, memmem]
      split at found
      next occurs =>
        have longer : pattern <+: head :: (tail ++ more) :=
          occurs.trans (List.prefix_append (head :: tail) more)
        rw [if_pos longer]
        exact found
      next absent =>
        obtain ⟨later, foundLater, rfl⟩ := Option.map_eq_some_iff.mp found
        have apart : ¬ pattern <+: head :: (tail ++ more) := by
          intro occurs
          apply absent
          refine List.prefix_of_prefix_length_le occurs (List.prefix_append (head :: tail) more) ?_
          omega
        rw [if_neg apart, inductionHypothesis foundLater]
        rfl

/-- An occurrence that was found only after the list had grown reaches beyond what
was there before. -/
theorem memmem_of_append (absent : memmem pattern text = none)
    (found : memmem pattern (text ++ more) = some offset) :
    text.length < offset + pattern.length := by
  by_contra inside
  have occurs := memmem_sound found
  have shorter : pattern <+: text.drop offset := by
    refine List.prefix_of_prefix_length_le occurs ?_ ?_
    · rw [List.drop_append_of_le_length (by omega)]
      exact List.prefix_append _ _
    · rw [List.length_drop]
      omega
  exact memmem_eq_none.mp absent (shorter.isInfix.trans (List.drop_suffix offset text).isInfix)

end CixCache.Lib
