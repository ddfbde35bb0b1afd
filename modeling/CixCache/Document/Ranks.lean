import CixCache.Document.Listing

/-!
Contract: what a version rank says.

Owns: `FaithfulRanks`, ranks that are given once each and follow the displayed
version, then the displayed release, then the name; that the ranks of entries and
of identities are faithful; and that they depend on the set of names alone.

Does not own: how versions compare, or what a listing prints beside a rank.
-/

namespace CixCache

open CixCache.Lib

/-- What is displayed of x is an older version, or an older release of the same. -/
def Older (x y : Bytes) : Prop :=
  storeVersionCmp (storeSplitDisplay x).version (storeSplitDisplay y).version = .lt ∨
    storeVersionCmp (storeSplitDisplay x).version (storeSplitDisplay y).version = .eq ∧
      (storeSplitDisplay x).release < (storeSplitDisplay y).release

/-- The displayed versions and releases compare equal. -/
def SameAge (x y : Bytes) : Prop :=
  storeVersionCmp (storeSplitDisplay x).version (storeSplitDisplay y).version = .eq ∧
    (storeSplitDisplay x).release = (storeSplitDisplay y).release

/-- Ranks that follow the names' versions. -/
structure FaithfulRanks (names : List Bytes) (ranks : List Nat) : Prop where
  once : ranks.Perm (List.range names.length)
  ordered : ∀ x i y j, (x, i) ∈ names.zip ranks → (y, j) ∈ names.zip ranks →
    (i < j ↔ Older x y ∨ SameAge x y ∧ strcmp x y = .lt)

theorem cmpByVersion_lt_iff {x y : Bytes} :
    cmpByVersion x y = .lt ↔ Older x y ∨ SameAge x y ∧ strcmp x y = .lt := by
  unfold cmpByVersion Older SameAge
  dsimp only
  rw [Ordering.then_eq_lt, Ordering.then_eq_lt, Nat.compare_eq_lt, Nat.compare_eq_eq]
  constructor
  · intro below
    rcases below with version | ⟨version, release | ⟨release, name⟩⟩
    · exact Or.inl (Or.inl version)
    · exact Or.inl (Or.inr ⟨version, release⟩)
    · exact Or.inr ⟨⟨version, release⟩, name⟩
  · intro below
    rcases below with (version | ⟨version, release⟩) | ⟨⟨version, release⟩, name⟩
    · exact Or.inl version
    · exact Or.inr ⟨version, Or.inl release⟩
    · exact Or.inr ⟨version, Or.inr ⟨release, name⟩⟩

/-! ## Entries -/

section Entries

variable {env other : DocEnv} {names : List Bytes}

/-- A name with the number of names below it. -/
def rankIn (names : List Bytes) (name : Bytes) : Nat :=
  names.countP fun below => cmpByVersion below name == .lt

theorem rankIn_perm {reordered : List Bytes} (same : names.Perm reordered) :
    rankIn names = rankIn reordered :=
  funext fun _ => same.countP_eq _

theorem zip_ranks (ranks : env.allocates .idx = true) (distinct : names.Nodup) :
    names.zip (storeRankVersions env names) = names.map fun name => (name, rankIn names name) := by
  rw [storeRankVersions_eq ranks distinct]
  exact List.map_prod_left_eq_zip.symm

theorem rankIn_lt_iff {x y : Bytes} (xMember : x ∈ names) (yMember : y ∈ names) :
    rankIn names x < rankIn names y ↔ cmpByVersion x y = .lt := by
  constructor
  · intro smaller
    cases order : cmpByVersion x y with
    | lt => rfl
    | eq =>
        rw [eq_of_cmpByVersion order] at smaller
        omega
    | gt =>
        have reversed := countP_below_lt yMember (Std.OrientedCmp.lt_of_gt order)
        unfold rankIn at smaller
        omega
  · exact countP_below_lt xMember

theorem storeRankVersions_faithful (ranks : env.allocates .idx = true) (distinct : names.Nodup) :
    FaithfulRanks names (storeRankVersions env names) := by
  refine ⟨storeRankVersions_perm ranks, ?_⟩
  intro x i y j xRanked yRanked
  rw [zip_ranks ranks distinct] at xRanked yRanked
  obtain ⟨_, xMember, xSame⟩ := List.mem_map.mp xRanked
  obtain ⟨_, yMember, ySame⟩ := List.mem_map.mp yRanked
  cases xSame
  cases ySame
  exact (rankIn_lt_iff xMember yMember).trans cmpByVersion_lt_iff

/-- The set of names decides each rank. -/
theorem storeRankVersions_set (ranks : env.allocates .idx = true)
    (otherRanks : other.allocates .idx = true) (distinct : names.Nodup) {reordered : List Bytes}
    (otherDistinct : reordered.Nodup) (same : ∀ name, name ∈ names ↔ name ∈ reordered) :
    (names.zip (storeRankVersions env names)).Perm
      (reordered.zip (storeRankVersions other reordered)) := by
  have perm : names.Perm reordered :=
    (List.perm_ext_iff_of_nodup distinct otherDistinct).mpr same
  rw [zip_ranks ranks distinct, zip_ranks otherRanks otherDistinct, ← rankIn_perm perm]
  exact perm.map _

end Entries

/-! ## Identities -/

section Identities

variable {env other : DocEnv} {ids : List Identity}

/-- Identities are ranked as entries of their stems. -/
theorem rankIdentities_ranks (reps : env.allocates .reps = true)
    (fits : ∀ identity ∈ ids, identity.stem.length < storeNameMax) :
    (rankIdentities env ids).map Identity.versionRank =
      storeRankVersions env (ids.map Identity.stem) := by
  have stems : (ids.map fun identity => snprintf storeNameMax identity.stem) =
      ids.map Identity.stem :=
    List.map_congr_left fun identity member => snprintf_of_lt (fits identity member)
  have lengths : (storeRankVersions env (ids.map Identity.stem)).length ≤ ids.length := by
    rw [storeRankVersions_length, List.length_map]
  unfold rankIdentities
  rw [if_pos reps]
  dsimp only
  have seconds := List.map_snd_zip lengths
  rw [List.zip_eq_zipWith, List.map_zipWith] at seconds
  rw [stems, List.map_zipWith]
  exact seconds

end Identities

/-! ## Both -/

/-- Two lists of the same names, each name once. -/
structure SameNames (left right : List Bytes) : Prop where
  distinct : left.Nodup
  otherDistinct : right.Nodup
  same : ∀ name, name ∈ left ↔ name ∈ right

/-- Ranks of entries and of identities are faithful, and the same in any order. -/
theorem version_ranks_faithful {env other : DocEnv} (idx : env.allocates .idx = true)
    (otherIdx : other.allocates .idx = true) (reps : env.allocates .reps = true)
    (otherReps : other.allocates .reps = true) :
    (∀ names reordered, SameNames names reordered →
      FaithfulRanks names (storeRankVersions env names) ∧
        (names.zip (storeRankVersions env names)).Perm
          (reordered.zip (storeRankVersions other reordered))) ∧
      ∀ ids reordered : List Identity,
        (∀ identity ∈ ids ++ reordered, identity.stem.length < storeNameMax) →
        SameNames (ids.map Identity.stem) (reordered.map Identity.stem) →
        FaithfulRanks (ids.map Identity.stem)
            ((rankIdentities env ids).map Identity.versionRank) ∧
          ((ids.map Identity.stem).zip ((rankIdentities env ids).map Identity.versionRank)).Perm
            ((reordered.map Identity.stem).zip
              ((rankIdentities other reordered).map Identity.versionRank)) := by
  have entries : ∀ names reordered, SameNames names reordered →
      FaithfulRanks names (storeRankVersions env names) ∧
        (names.zip (storeRankVersions env names)).Perm
          (reordered.zip (storeRankVersions other reordered)) := by
    intro names reordered facts
    exact ⟨storeRankVersions_faithful idx facts.distinct,
      storeRankVersions_set idx otherIdx facts.distinct facts.otherDistinct facts.same⟩
  refine ⟨entries, ?_⟩
  intro ids reordered fits facts
  rw [rankIdentities_ranks reps fun identity member => fits identity (List.mem_append_left _ member),
    rankIdentities_ranks otherReps fun identity member =>
      fits identity (List.mem_append_right _ member)]
  exact entries _ _ facts

/-- Release 10 is above release 2, whichever stands first. -/
theorem tenth_release_ranked :
    FaithfulRanks [ascii "zlib-1.3-10", ascii "zlib-1.3-2"] [1, 0] ∧
      storeRankVersions (.listing []) [ascii "zlib-1.3-2", ascii "zlib-1.3-10"] = [0, 1] := by
  have ranks : storeRankVersions (.listing []) [ascii "zlib-1.3-10", ascii "zlib-1.3-2"] =
      [1, 0] := by
    decide +kernel
  refine ⟨?_, by decide +kernel⟩
  rw [← ranks]
  have names : SameNames [ascii "zlib-1.3-10", ascii "zlib-1.3-2"]
      [ascii "zlib-1.3-10", ascii "zlib-1.3-2"] :=
    ⟨by decide, by decide, fun _ => Iff.rfl⟩
  have scratch : ∀ array, (DocEnv.listing []).allocates array = true := fun _ => rfl
  exact ((version_ranks_faithful (scratch .idx) (scratch .idx) (scratch .reps)
    (scratch .reps)).1 _ _ names).1

instance (x y : Bytes) : Decidable (Older x y) := by
  unfold Older
  infer_instance

/-- Two spellings of one version: the higher rank is no newer version and no newer
release. -/
theorem respelled_version_ranked :
    (ascii "foo-01-1", 0) ∈ [ascii "foo-1-1", ascii "foo-01-1"].zip
        (storeRankVersions (.listing []) [ascii "foo-1-1", ascii "foo-01-1"]) ∧
      (ascii "foo-1-1", 1) ∈ [ascii "foo-1-1", ascii "foo-01-1"].zip
        (storeRankVersions (.listing []) [ascii "foo-1-1", ascii "foo-01-1"]) ∧
      (storeSplitDisplay (ascii "foo-1-1")).name = (storeSplitDisplay (ascii "foo-01-1")).name ∧
      (storeSplitDisplay (ascii "foo-1-1")).arch = (storeSplitDisplay (ascii "foo-01-1")).arch ∧
      ¬ Older (ascii "foo-01-1") (ascii "foo-1-1") := by
  decide +kernel

end CixCache
