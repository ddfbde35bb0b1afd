import CixCache.Lib.SortedSearch

/-!
Contract: a sorting routine of which only its promise is known.

Owns: `Qsort`, any routine that rearranges its input in ascending order for a
consistent comparison function; that two such routines agree on what the
comparison tells apart; and comparisons of what a function reads of two items.

Does not own: how the routine sorts.
-/

namespace CixCache.Lib

/-- A weaker condition that another item meets counts more. -/
theorem countP_lt_countP {α : Type} {p q : α → Bool} {items : List α} {item : α}
    (weaker : ∀ other ∈ items, p other = true → q other = true) (member : item ∈ items)
    (fails : p item = false) (holds : q item = true) : items.countP p < items.countP q := by
  obtain ⟨front, back, rfl⟩ := List.append_of_mem member
  have inFront : front.countP p ≤ front.countP q :=
    List.countP_mono_left fun other inside => weaker other (List.mem_append_left _ inside)
  have inBack : back.countP p ≤ back.countP q :=
    List.countP_mono_left fun other inside =>
      weaker other (List.mem_append_right _ (List.mem_cons_of_mem _ inside))
  rw [List.countP_append, List.countP_append, List.countP_cons_of_neg (by simp [fails]),
    List.countP_cons_of_pos holds]
  omega

/-- A sorting routine, and what it promises for a consistent comparison. -/
structure Qsort where
  sort : {α : Type} → (α → α → Ordering) → List α → List α
  perm : ∀ {α : Type} (cmp : α → α → Ordering) [Std.TransCmp cmp] (items : List α),
    (sort cmp items).Perm items
  ascending : ∀ {α : Type} (cmp : α → α → Ordering) [Std.TransCmp cmp] (items : List α),
    Ascending cmp (sort cmp items)

/-- Insertion sort keeps the promise. -/
def Qsort.insertion : Qsort where
  sort := qsort
  perm _ _ items := List.perm_insertionSort _ items
  ascending cmp _ items := ascending_qsort cmp items

variable {α : Type} {cmp : α → α → Ordering} [Std.TransCmp cmp]

/-- Comparing what a function reads of two items is consistent. -/
theorem transCmp_on {β : Type} (key : β → α) :
    Std.TransCmp fun a b => cmp (key a) (key b) where
  eq_swap := Std.OrientedCmp.eq_swap
  isLE_trans := Std.TransCmp.isLE_trans

/-- Two ascending arrangements of the same items are one when no two of them
compare equal. -/
theorem ascending_unique {left right : List α} (leftAscending : Ascending cmp left)
    (rightAscending : Ascending cmp right) (same : left.Perm right)
    (strict : ∀ a ∈ left, ∀ b ∈ left, cmp a b = .eq → a = b) : left = right := by
  apply List.Perm.eq_of_pairwise _ leftAscending rightAscending same
  intro a b aMember bMember below above
  exact strict a aMember b (same.symm.subset bMember)
    (Std.OrientedCmp.isLE_antisymm below above)

/-- What a sorting routine returns depends on the items alone. -/
theorem Qsort.sort_unique (left right : Qsort) {items other : List α} (same : items.Perm other)
    (strict : ∀ a ∈ items, ∀ b ∈ items, cmp a b = .eq → a = b) :
    left.sort cmp items = right.sort cmp other := by
  have rearranged : (left.sort cmp items).Perm (right.sort cmp other) :=
    (left.perm cmp items).trans (same.trans (right.perm cmp other).symm)
  apply ascending_unique (left.ascending cmp items) (right.ascending cmp other) rearranged
  intro a aMember b bMember equal
  exact strict a ((left.perm cmp items).subset aMember) b ((left.perm cmp items).subset bMember)
    equal

theorem Qsort.mem_sort (routine : Qsort) {items : List α} {item : α} :
    item ∈ routine.sort cmp items ↔ item ∈ items :=
  (routine.perm cmp items).mem_iff

theorem Qsort.sort_nil (routine : Qsort) : routine.sort cmp ([] : List α) = [] :=
  List.perm_nil.mp (routine.perm cmp [])

/-- A sorting routine puts distinct items in strict order. -/
theorem Qsort.sort_strict (routine : Qsort) {items : List α} (distinct : items.Nodup)
    (strict : ∀ a ∈ items, ∀ b ∈ items, cmp a b = .eq → a = b) :
    (routine.sort cmp items).Pairwise fun a b => cmp a b = .lt := by
  have perm := routine.perm cmp items
  have ordered := (routine.ascending cmp items).and (perm.nodup_iff.mpr distinct)
  apply ordered.imp_of_mem
  intro a b aMember bMember facts
  cases order : cmp a b with
  | lt => rfl
  | eq => exact absurd (strict a (perm.subset aMember) b (perm.subset bMember) order) facts.2
  | gt =>
      have below := facts.1
      rw [order] at below
      contradiction

/-- More items are below what is above. -/
theorem countP_below_lt {items : List α} {low high : α} (member : low ∈ items)
    (below : cmp low high = .lt) :
    items.countP (fun other => cmp other low == .lt) <
      items.countP (fun other => cmp other high == .lt) := by
  have self : cmp low low = .eq := Std.ReflCmp.compare_self
  refine countP_lt_countP ?_ member (by simp [self]) (by simp [below])
  intro other _ smaller
  exact beq_iff_eq.mpr (Std.TransCmp.lt_trans (eq_of_beq smaller) below)

/-- The place of an item in strict order is the number of smaller items. -/
theorem idxOf_strict [DecidableEq α] {sorted : List α}
    (strict : sorted.Pairwise fun a b => cmp a b = .lt) {item : α} (member : item ∈ sorted) :
    sorted.idxOf item = sorted.countP fun other => cmp other item == .lt := by
  induction sorted with
  | nil => contradiction
  | cons first rest inductionHypothesis =>
      have above := (List.pairwise_cons.mp strict).1
      have later := (List.pairwise_cons.mp strict).2
      by_cases same : first = item
      · have none : rest.countP (fun other => cmp other item == .lt) = 0 := by
          apply List.countP_eq_zero.mpr
          intro other inRest smaller
          have larger := above other inRest
          have swapped : cmp item other = (cmp other item).swap := Std.OrientedCmp.eq_swap
          rw [same, swapped, eq_of_beq smaller] at larger
          contradiction
        have self : cmp item item = .eq := Std.ReflCmp.compare_self
        rw [same, List.idxOf_cons_self, List.countP_cons, none, self]
        rfl
      · have inRest : item ∈ rest := by
          rcases List.mem_cons.mp member with isFirst | further
          · exact absurd isFirst.symm same
          · exact further
        rw [List.idxOf_cons_ne _ same, inductionHypothesis later inRest, List.countP_cons,
          above item inRest]
        rfl

end CixCache.Lib
