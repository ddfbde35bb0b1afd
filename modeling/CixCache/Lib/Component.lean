import Mathlib.Data.List.Basic
import Mathlib.Data.List.Induction

/-!
Contract: the last separator-delimited component of a list.

Owns: `rsplit`, which cuts a list at the last occurrence of a separator, its
exact characterization, and `lastComponent`, the part behind that separator
(the whole list when the separator does not occur).

Does not own: any particular separator or alphabet.
-/

namespace CixCache.Lib

universe u

variable {α : Type u} [DecidableEq α]

/-- Cut at the last occurrence of `sep`, or `none` when it does not occur. -/
def rsplit (sep : α) : List α → Option (List α × List α)
  | [] => none
  | head :: tail =>
      match rsplit sep tail with
      | some (front, last) => some (head :: front, last)
      | none => if head = sep then some ([], tail) else none

/-- The part behind the last separator. -/
def lastComponent (sep : α) (values : List α) : List α :=
  match rsplit sep values with
  | some (_, last) => last
  | none => values

theorem rsplit_eq_none {sep : α} {values : List α} :
    rsplit sep values = none ↔ sep ∉ values := by
  induction values with
  | nil => simp [rsplit]
  | cons head tail inductionHypothesis =>
      cases found : rsplit sep tail with
      | none =>
          have absent := inductionHypothesis.mp found
          simp only [rsplit, found, List.mem_cons, absent, or_false]
          split
          next same => simp [same]
          next different => simpa using fun same => different same.symm
      | some pair =>
          have present : sep ∈ tail := by
            by_contra absent
            rw [inductionHypothesis.mpr absent] at found
            contradiction
          simp [rsplit, found, present]

/-- The cut falls at the written separator when no other one follows it. -/
theorem rsplit_append {sep : α} {last : List α} (free : sep ∉ last)
    (front : List α) :
    rsplit sep (front ++ sep :: last) = some (front, last) := by
  induction front with
  | nil => simp [rsplit, rsplit_eq_none.mpr free]
  | cons head tail inductionHypothesis =>
      simp [rsplit, inductionHypothesis]

theorem rsplit_eq_some {sep : α} {values front last : List α} :
    rsplit sep values = some (front, last) ↔
      values = front ++ sep :: last ∧ sep ∉ last := by
  refine ⟨fun found => ?_, fun ⟨shape, free⟩ => shape ▸ rsplit_append free front⟩
  induction values generalizing front with
  | nil => simp [rsplit] at found
  | cons head tail inductionHypothesis =>
      cases rest : rsplit sep tail with
      | none =>
          simp only [rsplit, rest] at found
          split at found
          next same =>
            obtain ⟨rfl, rfl⟩ := Prod.mk.inj (Option.some.inj found)
            exact ⟨by simp [same], rsplit_eq_none.mp rest⟩
          next different => contradiction
      | some pair =>
          simp only [rsplit, rest, Option.some.injEq, Prod.mk.injEq] at found
          obtain ⟨rfl, rfl⟩ := found
          obtain ⟨shape, free⟩ := inductionHypothesis rest
          exact ⟨by simp [shape], free⟩

theorem rsplit_concat_sep (sep : α) (values : List α) :
    rsplit sep (values ++ [sep]) = some (values, []) :=
  rsplit_append (by simp) values

theorem rsplit_concat_ne {sep value : α} (different : value ≠ sep)
    (values : List α) :
    rsplit sep (values ++ [value]) =
      (rsplit sep values).map fun cut => (cut.1, cut.2 ++ [value]) := by
  cases found : rsplit sep values with
  | none =>
      have absent := rsplit_eq_none.mp found
      simpa [rsplit_eq_none, absent] using different.symm
  | some cut =>
      obtain ⟨shape, free⟩ := rsplit_eq_some.mp found
      rw [shape]
      have kept : sep ∉ cut.2 ++ [value] := by
        simpa [free] using different.symm
      simpa using rsplit_append kept cut.1

@[simp] theorem lastComponent_nil (sep : α) : lastComponent sep [] = [] := rfl

theorem lastComponent_append {sep : α} {last : List α} (free : sep ∉ last)
    (front : List α) : lastComponent sep (front ++ sep :: last) = last := by
  simp [lastComponent, rsplit_append free]

theorem lastComponent_concat_sep (sep : α) (values : List α) :
    lastComponent sep (values ++ [sep]) = [] := by
  simp [lastComponent, rsplit_concat_sep]

theorem lastComponent_concat_ne {sep value : α} (different : value ≠ sep)
    (values : List α) :
    lastComponent sep (values ++ [value]) =
      lastComponent sep values ++ [value] := by
  unfold lastComponent
  rw [rsplit_concat_ne different]
  cases rsplit sep values <;> rfl

end CixCache.Lib
