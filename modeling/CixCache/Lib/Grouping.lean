import Mathlib.Data.List.Chain
import CixCache.Lib.SortedSearch

/-!
Contract: splitting a list into stretches of one key.

Owns: `Grouping`, what it is for keyed groups to split a list; the two ways loops
build one, a whole stretch at the front or an item at the back; and that the keys
are distinct when the list is in the order of its keys.

Does not own: any loop.
-/

namespace CixCache.Lib

variable {α κ : Type}

/-- Groups in the order of the list, each of one key and not empty, neighbours of
different keys. -/
structure Grouping (key : α → κ) (items : List α) (groups : List (κ × List α)) : Prop where
  covers : groups.flatMap Prod.snd = items
  keyed : ∀ group ∈ groups, ∀ item ∈ group.2, key item = group.1
  inhabited : ∀ group ∈ groups, group.2 ≠ []
  separated : groups.IsChain fun left right => left.1 ≠ right.1

section Rules

variable {key : α → κ} {items : List α} {groups : List (κ × List α)}

theorem grouping_nil (key : α → κ) : Grouping key [] [] where
  covers := rfl
  keyed := by simp
  inhabited := by simp
  separated := List.IsChain.nil

/-- Every item is in a group of its key, and nothing else is. -/
theorem Grouping.mem_iff (built : Grouping key items groups) {k : κ} {item : α} :
    (∃ group ∈ groups, group.1 = k ∧ item ∈ group.2) ↔ item ∈ items ∧ k = key item := by
  constructor
  · intro found
    obtain ⟨group, member, rfl, inside⟩ := found
    refine ⟨?_, (built.keyed group member item inside).symm⟩
    rw [← built.covers]
    exact List.mem_flatMap.mpr ⟨group, member, inside⟩
  · intro facts
    rw [← built.covers] at facts
    obtain ⟨group, member, inside⟩ := List.mem_flatMap.mp facts.1
    exact ⟨group, member, by rw [facts.2, built.keyed group member item inside], inside⟩

/-- A stretch of one key in front of a list that starts with another key. -/
theorem Grouping.stretch {first : α} {same later : List α} (rest : Grouping key later groups)
    (members : ∀ item ∈ same, key item = key first)
    (ends : ∀ item, later.head? = some item → key item ≠ key first) :
    Grouping key (first :: same ++ later) ((key first, first :: same) :: groups) where
  covers := by
    rw [List.flatMap_cons, rest.covers]
  keyed := by
    intro group member item inside
    rcases List.mem_cons.mp member with rfl | later
    · rcases List.mem_cons.mp inside with rfl | further
      · rfl
      · exact members item further
    · exact rest.keyed group later item inside
  inhabited := by
    intro group member
    rcases List.mem_cons.mp member with rfl | later
    · simp
    · exact rest.inhabited group later
  separated := by
    apply List.isChain_cons.mpr
    refine ⟨?_, rest.separated⟩
    intro next isNext same
    obtain ⟨tail, rfl⟩ := List.head?_eq_some_iff.mp (Option.mem_def.mp isNext)
    obtain ⟨item, others, shape⟩ :=
      List.exists_cons_of_ne_nil (rest.inhabited next List.mem_cons_self)
    have head : later.head? = some item := by
      rw [← rest.covers, List.flatMap_cons, shape]
      rfl
    apply ends item head
    rw [rest.keyed next List.mem_cons_self item (by rw [shape]; exact List.mem_cons_self)]
    exact same.symm

/-- An item of another key than the last group's starts a group of its own. -/
theorem Grouping.push (built : Grouping key items groups) {item : α}
    (other : ∀ group, groups.getLast? = some group → group.1 ≠ key item) :
    Grouping key (items ++ [item]) (groups ++ [(key item, [item])]) where
  covers := by
    rw [List.flatMap_append, built.covers]
    simp
  keyed := by
    intro group member inner inside
    rcases List.mem_append.mp member with earlier | last
    · exact built.keyed group earlier inner inside
    · rw [List.mem_singleton.mp last] at inside ⊢
      rw [List.mem_singleton.mp inside]
  inhabited := by
    intro group member
    rcases List.mem_append.mp member with earlier | last
    · exact built.inhabited group earlier
    · rw [List.mem_singleton.mp last]
      simp
  separated := by
    rw [List.isChain_append]
    refine ⟨built.separated, List.IsChain.singleton _, ?_⟩
    intro left isLast right isFirst
    have same : right = (key item, [item]) := by
      simpa using (Option.mem_def.mp isFirst).symm
    rw [same]
    exact other left isLast

/-- An item of the last group's key joins it. -/
theorem Grouping.join {last : κ × List α} (built : Grouping key items (groups ++ [last]))
    {item : α} (same : last.1 = key item) :
    Grouping key (items ++ [item]) (groups ++ [(last.1, last.2 ++ [item])]) where
  covers := by
    rw [← built.covers]
    simp
  keyed := by
    intro group member inner inside
    rcases List.mem_append.mp member with earlier | isLast
    · exact built.keyed group (List.mem_append_left _ earlier) inner inside
    · rw [List.mem_singleton.mp isLast] at inside ⊢
      rcases List.mem_append.mp inside with before | new
      · exact built.keyed last (by simp) inner before
      · rw [List.mem_singleton.mp new]
        exact same.symm
  inhabited := by
    intro group member
    rcases List.mem_append.mp member with earlier | isLast
    · exact built.inhabited group (List.mem_append_left _ earlier)
    · rw [List.mem_singleton.mp isLast]
      simp
  separated := by
    have chain := built.separated
    rw [List.isChain_append] at chain ⊢
    refine ⟨chain.1, List.IsChain.singleton _, ?_⟩
    intro left isLast right isFirst
    have shape : right = (last.1, last.2 ++ [item]) := by
      simpa using (Option.mem_def.mp isFirst).symm
    rw [shape]
    exact chain.2.2 left isLast last (by simp)

/-- The groups of a list in the order of its keys have distinct keys. -/
theorem Grouping.nodup_keys (built : Grouping key items groups) {cmp : κ → κ → Ordering}
    [Std.TransCmp cmp] [Std.LawfulEqCmp cmp] (ordered : Ascending cmp (items.map key)) :
    (groups.map Prod.fst).Nodup := by
  have between : groups.Pairwise fun left right =>
      ∀ a ∈ left.2, ∀ b ∈ right.2, (cmp (key a) (key b)).isLE = true := by
    rw [← built.covers] at ordered
    exact (List.pairwise_flatMap.mp (List.pairwise_map.mp ordered)).2
  have below : groups.Pairwise fun left right => (cmp left.1 right.1).isLE = true := by
    apply between.imp_of_mem
    intro left right leftMember rightMember ordered
    obtain ⟨a, rest, leftShape⟩ := List.exists_cons_of_ne_nil (built.inhabited left leftMember)
    obtain ⟨b, more, rightShape⟩ := List.exists_cons_of_ne_nil (built.inhabited right rightMember)
    have aMember : a ∈ left.2 := by rw [leftShape]; exact List.mem_cons_self
    have bMember : b ∈ right.2 := by rw [rightShape]; exact List.mem_cons_self
    rw [← built.keyed left leftMember a aMember, ← built.keyed right rightMember b bMember]
    exact ordered a aMember b bMember
  have trans : IsTrans (κ × List α) fun left right => cmp left.1 right.1 = .lt :=
    ⟨fun _ _ _ => Std.TransCmp.lt_trans⟩
  have chain : groups.IsChain fun left right => cmp left.1 right.1 = .lt := by
    have neighbours := below.isChain
    have different := built.separated
    rw [List.isChain_iff_getElem] at neighbours different ⊢
    intro index bound
    have ordered := neighbours index bound
    cases order : cmp (groups[index].1) (groups[index + 1].1) with
    | lt => rfl
    | eq => exact absurd (Std.LawfulEqCmp.eq_of_compare order) (different index bound)
    | gt => simp [order] at ordered
  have strict := List.isChain_iff_pairwise.mp chain
  rw [List.Nodup, List.pairwise_map]
  apply strict.imp
  intro left right smaller same
  have equal : cmp right.1 right.1 = .eq := Std.ReflCmp.compare_self
  rw [same, equal] at smaller
  contradiction

end Rules

end CixCache.Lib
