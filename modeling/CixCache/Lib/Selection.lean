import Mathlib.Data.List.Induction
import Mathlib.Data.List.Perm.Basic
import Mathlib.Data.List.Sort
import Mathlib.Order.Defs.LinearOrder

/-!
Contract: the greatest few of each group of items.

Owns: `grouped`, a dictionary of lists filled item by item, and what it holds under a key;
`greatest`, the first few of a stable sort in descending order; and that an item is among
these exactly when few enough items exceed it.

Does not own: what the items are, or how a rank is read off one.
-/

namespace CixCache.Lib

section Groups

variable {α κ : Type} [DecidableEq κ]

/-- The item behind those of its key; a new key comes last. -/
def appendTo (key : κ) (item : α) : List (κ × List α) → List (κ × List α)
  | [] => [(key, [item])]
  | (other, members) :: rest =>
      if other = key then (other, members ++ [item]) :: rest
      else (other, members) :: appendTo key item rest

/-- The items under their keys, in the order they come. -/
def grouped (key : α → κ) (items : List α) : List (κ × List α) :=
  items.foldl (fun groups item => appendTo (key item) item groups) []

/-- The members of a group, none if there is no such group. -/
def membersOf (groups : List (κ × List α)) (key : κ) : List α := (groups.lookup key).getD []

theorem membersOf_cons (other : κ) (members : List α) (rest : List (κ × List α)) (key : κ) :
    membersOf ((other, members) :: rest) key =
      if key = other then members else membersOf rest key := by
  unfold membersOf
  rw [List.lookup_cons]
  by_cases same : key = other
  · rw [beq_iff_eq.mpr same, if_pos same, Option.getD_some]
  · rw [beq_eq_false_iff_ne.mpr same, if_neg same]

theorem membersOf_appendTo (groups : List (κ × List α)) (key other : κ) (item : α) :
    membersOf (appendTo key item groups) other =
      if other = key then membersOf groups key ++ [item] else membersOf groups other := by
  induction groups with
  | nil => rw [appendTo, membersOf_cons]; rfl
  | cons group rest inductionHypothesis =>
      obtain ⟨first, members⟩ := group
      rw [appendTo]
      by_cases here : first = key
      · subst here
        rw [if_pos rfl, membersOf_cons, membersOf_cons, membersOf_cons, if_pos rfl]
        split <;> rfl
      · rw [if_neg here, membersOf_cons, inductionHypothesis, membersOf_cons, membersOf_cons,
          if_neg (Ne.symm here)]
        by_cases same : other = first
        · subst same
          rw [if_pos rfl, if_neg here, if_pos rfl]
        · rw [if_neg same, if_neg same]

/-- Under a key are the items of that key, in their order. -/
theorem membersOf_grouped (key : α → κ) (items : List α) (k : κ) :
    membersOf (grouped key items) k = items.filter fun item => key item = k := by
  unfold grouped
  induction items using List.reverseRecOn with
  | nil => rfl
  | append_singleton front item inductionHypothesis =>
      rw [List.foldl_append, List.foldl_cons, List.foldl_nil, membersOf_appendTo,
        List.filter_append]
      by_cases same : k = key item
      · subst same
        rw [if_pos rfl, inductionHypothesis, List.filter_cons_of_pos (by simp), List.filter_nil]
      · rw [if_neg same, inductionHypothesis, List.filter_cons_of_neg (by simpa using Ne.symm same),
          List.filter_nil, List.append_nil]

/-- The keys of the groups are those of their members. -/
theorem key_mem_of_membersOf {groups : List (κ × List α)} {key : κ} {item : α}
    (member : item ∈ membersOf groups key) : key ∈ groups.map Prod.fst := by
  unfold membersOf at member
  cases found : groups.lookup key with
  | none =>
      rw [found] at member
      contradiction
  | some members =>
      have present : (groups.lookup key).isSome := by rw [found]; rfl
      obtain ⟨group, inside, same⟩ := List.lookup_isSome_iff.mp present
      exact List.mem_map.mpr ⟨group, inside, (beq_iff_eq.mp same).symm⟩

end Groups

section Dictionaries

variable {κ β : Type} [DecidableEq κ] [BEq κ] [LawfulBEq κ]

/-- A dictionary filled from a list of keys, where the value is not left out. -/
theorem lookup_filterMap (value : κ → Option β) (keys : List κ) (key : κ) :
    (keys.filterMap fun k => (value k).map fun v => (k, v)).lookup key =
      if key ∈ keys then value key else none := by
  induction keys with
  | nil => rfl
  | cons first rest inductionHypothesis =>
      rw [List.filterMap_cons]
      by_cases same : key = first
      · subst same
        rw [if_pos List.mem_cons_self]
        cases held : value key with
        | none =>
            simp only [Option.map_none]
            rw [inductionHypothesis, held]
            split <;> rfl
        | some v =>
            simp only [Option.map_some]
            rw [List.lookup_cons_self]
      · have later : (key ∈ first :: rest) ↔ key ∈ rest := by
          rw [List.mem_cons]
          exact or_iff_right same
        simp only [later]
        cases value first with
        | none => exact inductionHypothesis
        | some v =>
            simp only [Option.map_some]
            rw [List.lookup_cons, beq_eq_false_iff_ne.mpr same]
            exact inductionHypothesis

end Dictionaries

section Ranks

variable {α ν : Type} [LinearOrder ν] {rank : α → ν}

/-- The first few in descending order; items of one rank keep their order. -/
def greatest (rank : α → ν) (count : Nat) (items : List α) : List α :=
  (items.insertionSort fun a b => rank b ≤ rank a).take count

/-- In strictly descending order an item is among the first few when few exceed it. -/
theorem mem_take_iff {items : List α} (strict : items.Pairwise fun a b => rank b < rank a)
    {count : Nat} {item : α} :
    item ∈ items.take count ↔
      item ∈ items ∧ items.countP (fun other => decide (rank item < rank other)) < count := by
  induction items generalizing count with
  | nil => simp
  | cons first rest inductionHypothesis =>
      obtain ⟨below, strictRest⟩ := List.pairwise_cons.mp strict
      cases count with
      | zero => simp
      | succ count =>
          rw [List.take_succ_cons, List.mem_cons, List.mem_cons, inductionHypothesis strictRest]
          by_cases here : item = first
          · subst here
            have nothing : rest.countP (fun other => decide (rank item < rank other)) = 0 := by
              rw [List.countP_eq_zero]
              intro other member
              simpa using le_of_lt (below other member)
            rw [List.countP_cons_of_neg (by simp), nothing]
            simp
          · simp only [here, false_or]
            refine and_congr_right fun member => ?_
            rw [List.countP_cons_of_pos (by simpa using below item member)]
            exact Nat.succ_lt_succ_iff.symm

/-- Among the greatest are the items that few enough exceed, where ranks are given once. -/
theorem mem_greatest_iff {items : List α} (distinct : items.Pairwise fun a b => rank a ≠ rank b)
    {count : Nat} {item : α} :
    item ∈ greatest rank count items ↔
      item ∈ items ∧ items.countP (fun other => decide (rank item < rank other)) < count := by
  have total : Std.Total fun a b : α => rank b ≤ rank a := ⟨fun a b => le_total (rank b) (rank a)⟩
  have trans : IsTrans α fun a b => rank b ≤ rank a := ⟨fun _ _ _ above below => le_trans below above⟩
  have sorted := List.perm_insertionSort (fun a b => rank b ≤ rank a) items
  have descending := List.pairwise_insertionSort (fun a b => rank b ≤ rank a) items
  have apart : (items.insertionSort fun a b => rank b ≤ rank a).Pairwise
      fun a b => rank a ≠ rank b :=
    (sorted.pairwise_iff fun different => Ne.symm different).mpr distinct
  have strict : (items.insertionSort fun a b => rank b ≤ rank a).Pairwise
      fun a b => rank b < rank a := by
    refine (descending.and apart).imp ?_
    rintro a b ⟨below, different⟩
    exact lt_of_le_of_ne below (Ne.symm different)
  unfold greatest
  rw [mem_take_iff strict, sorted.mem_iff, sorted.countP_eq]

end Ranks

end CixCache.Lib
