import CixCache.Seed.Plan

/-!
Contract: what the rows of a seeding plan delete.

Owns: `Selects`, the identities a run selects, stated by the version order alone; that the
plan selects these; and exactly when the plan deletes nothing but what the selection
supersedes.

Does not own: how the versions of two listings are ordered.
-/

namespace CixCache

open CixCache.Lib

variable {ν : Type} [LinearOrder ν]

/-! ## The selection by versions -/

/-- The ranks of a listing follow the order of the versions, and every identity is listed
once. -/
structure Ranked (version : Bytes → ν) (listing : List ListedIdentity) : Prop where
  ordered : ∀ i ∈ listing, ∀ j ∈ listing,
    (i.rank < j.rank ↔ version i.stem < version j.stem)
  once : (listing.map ListedIdentity.stem).Nodup

/-- The identities of a group on the source. -/
def sourceGroup (opts : SeedOptions) (source : List ListedIdentity) (key : GroupKey) :
    List ListedIdentity :=
  (source.filter fun ident => !opts.excludes ident.artifactOf).filter fun ident => ident.key = key

/-- One of the newest `keep` of its group: fewer are newer. -/
def Newest (version : Bytes → ν) (opts : SeedOptions) (source : List ListedIdentity)
    (key : GroupKey) (s : ListedIdentity) : Prop :=
  s ∈ sourceGroup opts source key ∧
    (sourceGroup opts source key).countP (fun other =>
      decide (version s.stem < version other.stem)) < opts.keep

/-- The run selects the identity: it is one of the newest, and `since` does not drop it. -/
def Selects (version : Bytes → ν) (opts : SeedOptions) (source : List ListedIdentity)
    (key : GroupKey) (s : ListedIdentity) : Prop :=
  Newest version opts source key s ∧ (opts.since = 0 ∨ opts.since ≤ s.time)

/-- The identity is superseded: older than a selected one of its group, and not itself one of
the newest of the group. -/
def Superseded (version : Bytes → ν) (opts : SeedOptions) (source : List ListedIdentity)
    (t : ListedIdentity) : Prop :=
  (∃ s, Selects version opts source t.key s ∧ version t.stem < version s.stem) ∧
    ∀ s, Newest version opts source t.key s → s.stem ≠ t.stem

/-- Every row that deletes a file is about a superseded identity of the target, no excluded
artifact is deleted, and no file is both uploaded and deleted. -/
structure PrunesSuperseded (version : Bytes → ν) (opts : SeedOptions)
    (source target : List ListedIdentity) : Prop where
  superseded : ∀ row ∈ seedPlan opts source target, row.action = .prune →
    ∃ t ∈ target, row.name ∈ filesOf t ∧ row.artifact = t.artifactOf ∧ row.stem = t.stem ∧
      Superseded version opts source t
  excluded : ∀ row ∈ seedPlan opts source target, row.action = .prune →
    opts.excludes row.artifact = false
  apart : ∀ row ∈ seedPlan opts source target, ∀ other ∈ seedPlan opts source target,
    row.action = .push → other.action = .prune → row.name ≠ other.name

/-- In every group with a selection the target has nothing newer than all of it, and `since`
drops none of the newest of the source that the target has. -/
def TargetBehind (version : Bytes → ν) (opts : SeedOptions)
    (source target : List ListedIdentity) : Prop :=
  opts.prune = true → ∀ t ∈ target, t.formats ≠ [] →
    (∃ s, Selects version opts source t.key s) →
    (∃ s, Selects version opts source t.key s ∧ version t.stem ≤ version s.stem) ∧
      ∀ s, Newest version opts source t.key s → s.stem = t.stem →
        opts.since = 0 ∨ opts.since ≤ s.time

section Selection

variable {version : Bytes → ν} {opts : SeedOptions} {source target : List ListedIdentity}
  {key : GroupKey} {s t : ListedIdentity}

theorem mem_sourceGroup : s ∈ sourceGroup opts source key ↔
    s ∈ source ∧ opts.excludes s.artifactOf = false ∧ s.key = key := by
  unfold sourceGroup
  rw [List.mem_filter, List.mem_filter, Bool.not_eq_true', decide_eq_true_eq, and_assoc]

theorem membersOf_sourceGroups (opts : SeedOptions) (source : List ListedIdentity)
    (key : GroupKey) : membersOf (sourceGroups opts source) key = sourceGroup opts source key :=
  membersOf_grouped _ _ _

/-- No two identities of a group have one rank. -/
theorem Ranked.distinct (ranked : Ranked version source) (total : Function.Injective version)
    (opts : SeedOptions) (key : GroupKey) :
    (sourceGroup opts source key).Pairwise fun a b => a.rank ≠ b.rank := by
  have sub : (sourceGroup opts source key).Sublist source :=
    (List.filter_sublist).trans List.filter_sublist
  have stems : source.Pairwise fun a b => a.stem ≠ b.stem := List.pairwise_map.mp ranked.once
  refine (stems.sublist sub).imp_of_mem ?_
  intro a b aMember bMember different same
  have aSource := sub.subset aMember
  have bSource := sub.subset bMember
  have notBelow := (not_congr (ranked.ordered a aSource b bSource)).mp (by omega)
  have notAbove := (not_congr (ranked.ordered b bSource a aSource)).mp (by omega)
  exact different (total (le_antisymm (le_of_not_gt notAbove) (le_of_not_gt notBelow)))

/-- What the plan selects of a group is what the versions say. -/
theorem mem_chosenOf_iff (ranked : Ranked version source) (total : Function.Injective version) :
    s ∈ chosenOf opts (membersOf (sourceGroups opts source) key) ↔
      Selects version opts source key s := by
  have distinct := ranked.distinct total opts key
  have newest : s ∈ greatest ListedIdentity.rank opts.keep (sourceGroup opts source key) ↔
      Newest version opts source key s := by
    rw [mem_greatest_iff distinct, Newest]
    refine and_congr_right fun member => ?_
    have counts : (sourceGroup opts source key).countP (fun other => decide (s.rank < other.rank)) =
        (sourceGroup opts source key).countP fun other =>
          decide (version s.stem < version other.stem) := by
      apply List.countP_congr
      intro other inside
      rw [decide_eq_true_eq, decide_eq_true_eq]
      exact ranked.ordered s (mem_sourceGroup.mp member).1 other (mem_sourceGroup.mp inside).1
    rw [counts]
  unfold chosenOf Selects
  rw [membersOf_sourceGroups]
  dsimp only
  split
  next dated =>
    rw [List.mem_filter, newest, decide_eq_true_eq]
    exact and_congr_right fun _ => (or_iff_right dated).symm
  next undated =>
    rw [newest]
    exact (and_iff_left (Or.inl (not_not.mp undated))).symm

/-- The selection of a group under its key. -/
theorem lookup_selections (opts : SeedOptions) (source : List ListedIdentity) (key : GroupKey) :
    (selections opts source).lookup key = selectionOf opts source key := by
  unfold selections
  rw [lookup_filterMap]
  split
  next => rfl
  next absent =>
    have nothing : membersOf (sourceGroups opts source) key = [] := by
      by_contra inhabited
      obtain ⟨member, inside⟩ := List.exists_mem_of_ne_nil _ inhabited
      exact absent ((List.mem_insertionSort _).mpr (key_mem_of_membersOf inside))
    have empty : chosenOf opts [] = [] := by
      unfold chosenOf greatest
      simp
    unfold selectionOf
    rw [nothing, empty]
    rfl

theorem seedAction_ne_prune (known : RemoteHave) (file : SeedFile) :
    seedAction known file ≠ .prune := by
  unfold seedAction
  split
  next => exact SeedAction.noConfusion
  next =>
    split
    next => exact SeedAction.noConfusion
    next => exact SeedAction.noConfusion

theorem identityPruneRows_action {row : PlanRow} (member : row ∈ identityPruneRows t) :
    row.action = .prune := by
  obtain ⟨fmt, _, inside⟩ := List.mem_flatMap.mp member
  rcases List.mem_append.mp inside with signature | file
  · split at signature
    next => rw [List.mem_singleton.mp signature]
    next => contradiction
  · rw [List.mem_singleton.mp file]

/-- A row names a file of the identity that it deletes. -/
theorem identityPruneRows_row {row : PlanRow} (member : row ∈ identityPruneRows t) :
    row.name ∈ filesOf t ∧ row.artifact = t.artifactOf ∧ row.stem = t.stem := by
  obtain ⟨fmt, listed, inside⟩ := List.mem_flatMap.mp member
  rcases List.mem_append.mp inside with signature | file
  · split at signature
    next signed =>
      rw [List.mem_singleton.mp signature]
      exact ⟨mem_filesOf.mpr ⟨fmt, listed, Or.inl ⟨signed, rfl⟩⟩, rfl, rfl⟩
    next => contradiction
  · rw [List.mem_singleton.mp file]
    exact ⟨mem_filesOf.mpr ⟨fmt, listed, Or.inr rfl⟩, rfl, rfl⟩

theorem mem_pruneRows_iff {row : PlanRow} :
    row ∈ pruneRows opts (selections opts source) target ↔
      opts.prune = true ∧ ∃ t ∈ target, ∃ chosen, selectionOf opts source t.key = some chosen ∧
        t.stem ∉ chosen.map ListedIdentity.stem ∧ row ∈ identityPruneRows t := by
  unfold pruneRows
  by_cases prune : opts.prune = true
  · rw [if_pos prune, List.mem_flatMap]
    simp only [prune, true_and, lookup_selections]
    apply exists_congr
    intro t
    apply and_congr_right
    intro _
    cases selectionOf opts source t.key with
    | none => simp
    | some chosen =>
        dsimp only
        by_cases kept : t.stem ∈ chosen.map ListedIdentity.stem
        · rw [if_pos kept]
          simp only [Option.some.injEq, exists_eq_left', kept, not_true_eq_false, false_and,
            List.not_mem_nil]
        · rw [if_neg kept]
          simp only [Option.some.injEq, exists_eq_left', kept, not_false_eq_true, true_and]
  · rw [if_neg prune]
    simp [prune]

/-- The rows that delete are those of the target's identities. -/
theorem mem_seedPlan_prune {row : PlanRow} (member : row ∈ seedPlan opts source target)
    (prune : row.action = .prune) : row ∈ pruneRows opts (selections opts source) target := by
  unfold seedPlan at member
  rcases List.mem_append.mp member with front | excluded
  · rcases List.mem_append.mp front with selected | pruned
    · obtain ⟨group, _, inGroup⟩ := List.mem_flatMap.mp selected
      obtain ⟨ident, _, inIdent⟩ := List.mem_flatMap.mp inGroup
      obtain ⟨file, _, rfl⟩ := List.mem_map.mp inIdent
      exact absurd prune (seedAction_ne_prune _ _)
    · exact pruned
  · obtain ⟨name, _, rfl⟩ := List.mem_map.mp excluded
    contradiction

/-- A file that is uploaded is not on the target. -/
theorem mem_seedPlan_push {row : PlanRow} (member : row ∈ seedPlan opts source target)
    (push : row.action = .push) : remoteHave target row.name = none := by
  unfold seedPlan at member
  rcases List.mem_append.mp member with front | excluded
  · rcases List.mem_append.mp front with selected | pruned
    · obtain ⟨group, _, inGroup⟩ := List.mem_flatMap.mp selected
      obtain ⟨ident, _, inIdent⟩ := List.mem_flatMap.mp inGroup
      obtain ⟨file, _, rfl⟩ := List.mem_map.mp inIdent
      have action : seedAction (remoteHave target) file = .push := push
      unfold seedAction at action
      split at action
      next missing => exact missing
      next =>
        split at action
        next => contradiction
        next => contradiction
    · obtain ⟨_, t, _, chosen, _, _, inside⟩ := mem_pruneRows_iff.mp pruned
      rw [identityPruneRows_action inside] at push
      contradiction
  · obtain ⟨name, _, rfl⟩ := List.mem_map.mp excluded
    contradiction

/-- A selection has what the versions select, and something at that. -/
theorem selectionOf_some (ranked : Ranked version source) (total : Function.Injective version)
    {chosen : List ListedIdentity} (selected : selectionOf opts source key = some chosen) :
    chosen ≠ [] ∧ ∀ s, s ∈ chosen ↔ Selects version opts source key s := by
  unfold selectionOf at selected
  dsimp only at selected
  split at selected
  next => contradiction
  next inhabited =>
    obtain rfl := Option.some.inj selected
    exact ⟨inhabited, fun s => mem_chosenOf_iff ranked total⟩

theorem selectionOf_of_selects (ranked : Ranked version source)
    (total : Function.Injective version) (selects : Selects version opts source key s) :
    ∃ chosen, selectionOf opts source key = some chosen := by
  have member := (mem_chosenOf_iff ranked total).mpr selects
  unfold selectionOf
  dsimp only
  rw [if_neg (List.ne_nil_of_mem member)]
  exact ⟨_, rfl⟩

/-- An identity of the source with the stem of a newest one is that one. -/
theorem Ranked.eq_of_stem (ranked : Ranked version source) {other : ListedIdentity}
    (member : s ∈ source) (otherMember : other ∈ source) (same : s.stem = other.stem) :
    s = other :=
  List.inj_on_of_nodup_map ranked.once member otherMember same

end Selection

/-! ## What is deleted -/

variable {version : Bytes → ν} {opts : SeedOptions} {source target : List ListedIdentity}

/-- For listings ranked by one total order of the versions, a plan deletes superseded
identities alone if and only if the target is behind the selection: it has nothing newer in
a group with a selection, and none of the newest of the source that `since` drops. -/
theorem prunesSuperseded_iff (total : Function.Injective version)
    (ranked : Ranked version source) (targetRanked : Ranked version target) :
    PrunesSuperseded version opts source target ↔ TargetBehind version opts source target := by
  constructor
  · intro prunes prune t member formats managed
    obtain ⟨s, selects⟩ := managed
    obtain ⟨chosen, selected⟩ := selectionOf_of_selects ranked total selects
    have chosenIff := (selectionOf_some ranked total selected).2
    by_cases kept : t.stem ∈ chosen.map ListedIdentity.stem
    · obtain ⟨same, inside, stem⟩ := List.mem_map.mp kept
      have sameSelects := (chosenIff same).mp inside
      refine ⟨⟨same, sameSelects, by rw [stem]⟩, fun other newest otherStem => ?_⟩
      have sameOther := ranked.eq_of_stem (mem_sourceGroup.mp newest.1).1
        (mem_sourceGroup.mp sameSelects.1.1).1 (otherStem.trans stem.symm)
      rw [sameOther]
      exact sameSelects.2
    · obtain ⟨fmt, listed⟩ := List.exists_mem_of_ne_nil _ formats
      have inside : (⟨.prune, fmt.name, [], fmt.bytes.getD 0, t.artifactOf, t.stem⟩ : PlanRow) ∈
          identityPruneRows t :=
        List.mem_flatMap.mpr ⟨fmt, listed, List.mem_append_right _ List.mem_cons_self⟩
      have pruned := mem_pruneRows_iff.mpr ⟨prune, t, member, chosen, selected, kept, inside⟩
      obtain ⟨other, otherMember, _, _, stem, superseded⟩ := prunes.superseded _
        (List.mem_append_left _ (List.mem_append_right _ pruned)) rfl
      obtain rfl := targetRanked.eq_of_stem member otherMember stem
      obtain ⟨⟨newer, newerSelects, older⟩, notNewest⟩ := superseded
      exact ⟨⟨newer, newerSelects, le_of_lt older⟩,
        fun other newest same => absurd same (notNewest other newest)⟩
  · intro behind
    have facts : ∀ row ∈ seedPlan opts source target, row.action = .prune →
        ∃ t ∈ target, row ∈ identityPruneRows t ∧ Superseded version opts source t := by
      intro row member prune
      obtain ⟨asked, t, inTarget, chosen, selected, dropped, inside⟩ :=
        mem_pruneRows_iff.mp (mem_seedPlan_prune member prune)
      obtain ⟨inhabited, chosenIff⟩ := selectionOf_some ranked total selected
      obtain ⟨s, sChosen⟩ := List.exists_mem_of_ne_nil _ inhabited
      have formats : t.formats ≠ [] := by
        intro empty
        unfold identityPruneRows at inside
        rw [empty] at inside
        contradiction
      have unselected : ∀ other, Selects version opts source t.key other → other.stem ≠ t.stem :=
        fun other selects same =>
          dropped (List.mem_map.mpr ⟨other, (chosenIff other).mpr selects, same⟩)
      obtain ⟨⟨newer, selects, atLeast⟩, undropped⟩ :=
        behind asked t inTarget formats ⟨s, (chosenIff s).mp sChosen⟩
      have strictly : version t.stem < version newer.stem :=
        lt_of_le_of_ne atLeast fun same => unselected newer selects (total same).symm
      exact ⟨t, inTarget, inside, ⟨newer, selects, strictly⟩,
        fun other newest same => unselected other ⟨newest, undropped other newest same⟩ same⟩
    refine ⟨?_, ?_, ?_⟩
    · intro row member prune
      obtain ⟨t, inTarget, inside, superseded⟩ := facts row member prune
      obtain ⟨file, artifact, stem⟩ := identityPruneRows_row inside
      exact ⟨t, inTarget, file, artifact, stem, superseded⟩
    · intro row member prune
      obtain ⟨t, _, inside, ⟨s, selects, _⟩, _⟩ := facts row member prune
      obtain ⟨_, kept, sameKey⟩ := mem_sourceGroup.mp selects.1.1
      have artifact : s.artifactOf = t.artifactOf := congrArg Prod.fst sameKey
      rw [(identityPruneRows_row inside).2.1, ← artifact]
      exact kept
    · intro row member other otherMember push prune same
      obtain ⟨t, inTarget, inside, _⟩ := facts other otherMember prune
      have missing := mem_seedPlan_push member push
      have present := remoteHave_files inTarget (identityPruneRows_row inside).1
      rw [← same, missing] at present
      contradiction

/-! ## Listings of one package -/

/-- A build of one package, of one format. -/
def build (stem : Bytes) (rank time : Int) : ListedIdentity :=
  ⟨some (ascii "foo"), some (ascii "x86_64"), stem, some rank, some time,
    [⟨stem ++ ascii ".tar.gz", some stem, false, some 1⟩]⟩

def oldBuild (rank : Int) : ListedIdentity := build (ascii "foo-1") rank 10

def newBuild (rank : Int) : ListedIdentity := build (ascii "foo-2") rank 20

/-- The newest `keep`, and what they supersede. -/
def retaining (keep : Nat) (since : Int) : SeedOptions := ⟨keep, since, none, true⟩

/-- Stems in the order of their bytes. -/
def byteOrder (stem : Bytes) : List Nat := stem.map UInt8.toNat

theorem byteOrder_injective : Function.Injective byteOrder :=
  List.map_injective_iff.mpr fun _ _ => UInt8.toNat_inj.mp

/-- The old build gives way to the new one. -/
theorem old_build_superseded :
    PrunesSuperseded byteOrder (retaining 1 0) [newBuild 0] [oldBuild 0] := by
  refine (prunesSuperseded_iff byteOrder_injective ⟨by decide, by decide⟩
    ⟨by decide, by decide⟩).mpr ?_
  have newest : Selects byteOrder (retaining 1 0) [newBuild 0] (newBuild 0).key (newBuild 0) :=
    ⟨⟨by decide, by decide⟩, Or.inl rfl⟩
  intro _ t member _ _
  obtain rfl := List.mem_singleton.mp member
  exact ⟨⟨newBuild 0, newest, by decide⟩, fun _ _ _ => Or.inl rfl⟩

/-- A build that is newer than all the source holds is deleted; and so is one of the newest
two, where the date leaves the newest alone. -/
theorem current_builds_deleted :
    ¬ PrunesSuperseded byteOrder (retaining 1 0) [oldBuild 0] [newBuild 0] ∧
      ¬ PrunesSuperseded byteOrder (retaining 2 15) [oldBuild 0, newBuild 1] [oldBuild 0] := by
  have newRow : (⟨.prune, ascii "foo-2.tar.gz", [], 1, ascii "foo", ascii "foo-2"⟩ : PlanRow) ∈
      seedPlan (retaining 1 0) [oldBuild 0] [newBuild 0] := by decide +kernel
  have oldRow : (⟨.prune, ascii "foo-1.tar.gz", [], 1, ascii "foo", ascii "foo-1"⟩ : PlanRow) ∈
      seedPlan (retaining 2 15) [oldBuild 0, newBuild 1] [oldBuild 0] := by decide +kernel
  constructor
  · intro prunes
    obtain ⟨t, member, _, _, _, ⟨s, selects, older⟩, _⟩ := prunes.superseded _ newRow rfl
    obtain rfl := List.mem_singleton.mp member
    obtain rfl := List.mem_singleton.mp (mem_sourceGroup.mp selects.1.1).1
    exact absurd older (by decide)
  · intro prunes
    obtain ⟨t, member, _, _, _, _, notNewest⟩ := prunes.superseded _ oldRow rfl
    obtain rfl := List.mem_singleton.mp member
    exact notNewest (oldBuild 0) ⟨by decide, by decide⟩ rfl

end CixCache
