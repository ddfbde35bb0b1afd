import Mathlib.Data.List.Sort

/-!
Contract: sorting and binary search under a comparison function.

Owns: `qsort`, some sorted arrangement of its input; `bsearch`, the halving
search over a half-open window; and that searching what is ascending finds
exactly the members.

Does not own: any comparison function.
-/

namespace CixCache.Lib

variable {α : Type} (cmp : α → α → Ordering)

def qsort (items : List α) : List α :=
  items.insertionSort fun left right => (cmp left right).isLE

/-- The search inside `[lower, upper)`; the first argument bounds the halvings. -/
def bsearchLoop (items : List α) (key : α) : Nat → Nat → Nat → Option Nat
  | 0, _, _ => none
  | fuel + 1, lower, upper =>
      if lower < upper then
        let middle := (lower + upper) / 2
        match items[middle]? with
        | none => none
        | some item =>
            match cmp key item with
            | .lt => bsearchLoop items key fuel lower middle
            | .gt => bsearchLoop items key fuel (middle + 1) upper
            | .eq => some middle
      else none

def bsearch (items : List α) (key : α) : Option Nat :=
  bsearchLoop cmp items key items.length 0 items.length

/-- Sorted under the comparison function. -/
def Ascending (items : List α) : Prop :=
  items.Pairwise fun left right => (cmp left right).isLE = true

theorem mem_qsort {items : List α} {item : α} : item ∈ qsort cmp items ↔ item ∈ items :=
  List.mem_insertionSort _

theorem ascending_qsort [Std.TransCmp cmp] (items : List α) : Ascending cmp (qsort cmp items) := by
  have total : Std.Total fun left right : α => (cmp left right).isLE = true := by
    refine ⟨fun left right => ?_⟩
    cases order : cmp left right with
    | lt => exact Or.inl rfl
    | eq => exact Or.inl rfl
    | gt =>
        have flipped : cmp right left = .lt := Std.OrientedCmp.lt_of_gt order
        exact Or.inr (by rw [flipped]; rfl)
  have trans : IsTrans α fun left right => (cmp left right).isLE = true :=
    ⟨fun _ _ _ => Std.TransCmp.isLE_trans⟩
  exact List.pairwise_insertionSort _ items

variable {cmp}

theorem bsearchLoop_sound [Std.LawfulEqCmp cmp] {items : List α} {key : α} {fuel lower upper index : Nat}
    (found : bsearchLoop cmp items key fuel lower upper = some index) :
    items[index]? = some key := by
  induction fuel generalizing lower upper with
  | zero => contradiction
  | succ fuel inductionHypothesis =>
      unfold bsearchLoop at found
      split at found
      next nonempty =>
        dsimp only at found
        split at found
        next => contradiction
        next item read =>
          split at found
          next => exact inductionHypothesis found
          next => exact inductionHypothesis found
          next equal =>
            have same := Option.some.inj found
            rw [← same, read, Std.LawfulEqCmp.compare_eq_iff_eq.mp equal]
      next => contradiction

section Searching

variable [Std.TransCmp cmp] [Std.LawfulEqCmp cmp]

/-- A key inside the window of a sorted list is found. The window keeps the
key because everything left of the middle is at most the middle. -/
theorem bsearchLoop_complete {items : List α} {key : α} (sorted : Ascending cmp items)
    {fuel lower upper position : Nat} (enough : upper - lower ≤ fuel)
    (bounded : upper ≤ items.length) (above : lower ≤ position) (below : position < upper)
    (present : items[position]? = some key) :
    (bsearchLoop cmp items key fuel lower upper).isSome := by
  induction fuel generalizing lower upper with
  | zero => omega
  | succ fuel inductionHypothesis =>
      have nonempty : lower < upper := by omega
      have middleBound : (lower + upper) / 2 < items.length := by omega
      obtain ⟨positionBound, positionRead⟩ := List.getElem?_eq_some_iff.mp present
      have order := List.pairwise_iff_getElem.mp sorted
      have self : cmp key key = .eq := Std.ReflCmp.compare_self
      unfold bsearchLoop
      rw [if_pos nonempty]
      dsimp only
      rw [List.getElem?_eq_getElem middleBound]
      dsimp only
      split
      next less =>
        apply inductionHypothesis (by omega) (by omega) above
        by_contra notBelow
        rcases Nat.lt_or_eq_of_le (Nat.le_of_not_lt notBelow) with later | same
        · have ordered := order _ _ middleBound positionBound later
          rw [positionRead] at ordered
          have flipped : cmp items[(lower + upper) / 2] key = .gt :=
            Std.OrientedCmp.gt_of_lt less
          rw [flipped] at ordered
          contradiction
        · subst same
          rw [positionRead, self] at less
          contradiction
      next greater =>
        apply inductionHypothesis (by omega) bounded _ below
        by_contra notAbove
        rcases Nat.lt_or_eq_of_le (Nat.le_of_lt_succ (Nat.lt_of_not_le notAbove)) with
          earlier | same
        · have ordered := order _ _ positionBound middleBound earlier
          rw [positionRead, greater] at ordered
          contradiction
        · subst same
          rw [positionRead, self] at greater
          contradiction
      next => rfl

theorem bsearch_isSome {items : List α} {key : α} (sorted : Ascending cmp items) :
    (bsearch cmp items key).isSome ↔ key ∈ items := by
  constructor
  · intro found
    obtain ⟨index, hit⟩ := Option.isSome_iff_exists.mp found
    exact List.mem_of_getElem? (bsearchLoop_sound hit)
  · intro member
    obtain ⟨position, bound, read⟩ := List.mem_iff_getElem.mp member
    apply bsearchLoop_complete sorted (by omega) (by omega) (Nat.zero_le position) bound
    rw [List.getElem?_eq_getElem bound, read]

end Searching

end CixCache.Lib
