import CixCache.Lib.SortedSearch
import CixCache.Store.Walk

/-!
Contract: the garbage collector.

Owns: `storeGc` with its sweep; `Orphan`, the blobs no validly named entry
points at; `GcLaw`, that a collection removes exactly those, reports their number
and size, promises them in a dry run, leaves nothing for a second run, and removes
nothing when its walk fails; and what `readdir` has to yield for that.

Does not own: the walk that gathers the live set (`Store.Walk`), sorting and
searching (`Lib.SortedSearch`).
-/

namespace CixCache

open CixCache.Lib

/-! ## Functions of the source -/

abbrev strcmp : Bytes → Bytes → Ordering := compare

/-- The result and `out_bytes_freed` of a collection that ran. -/
structure GcReport where
  removed : Nat
  freed : Nat
deriving DecidableEq, Repr

/-- `st_size` when `stat` succeeds. -/
def blobSize (files : Files) (path : Path) : Nat :=
  match stat files path with
  | some content => content.length
  | none => 0

/-- The sweep over blobs/. -/
def sweepBlobs (sys : Sys) (dryRun : Bool) (live : List Bytes) :
    List Bytes → Store → GcReport → Store × GcReport
  | [], st, report => (st, report)
  | name :: rest, st, report =>
      if storeDigestIsValid name = false then sweepBlobs sys dryRun live rest st report
      else if live.length ≠ 0 ∧ (bsearch strcmp live name).isSome then
        sweepBlobs sys dryRun live rest st report
      else
        match blobPath st.root name with
        | none => sweepBlobs sys dryRun live rest st report
        | some path =>
            let freed := report.freed + blobSize st.files path
            if dryRun then sweepBlobs sys dryRun live rest st ⟨report.removed + 1, freed⟩
            else
              match unlink sys st.files path with
              | (files, .done) =>
                  sweepBlobs sys dryRun live rest (st.withFiles files) ⟨report.removed + 1, freed⟩
              | (files, _) =>
                  sweepBlobs sys dryRun live rest (st.withFiles files) ⟨report.removed, freed⟩

/-- The live set as the sweep searches it. -/
def liveIndex (slots : List Bytes) : List Bytes :=
  if 1 < slots.length then qsort strcmp slots else slots

def storeGc (sys : Sys) (st : Store) (dryRun : Bool) : Store × Option GcReport :=
  match storeWalk sys st (collectLive sys) .empty with
  | none => (st, none)
  | some set =>
      match sys.readdir .blobs with
      | none => (st, none)
      | some names =>
          let (swept, report) := sweepBlobs sys dryRun (liveIndex set.slots) names st ⟨0, 0⟩
          (swept, some report)

/-! ## The live set -/

theorem ascending_liveIndex (slots : List Bytes) : Ascending strcmp (liveIndex slots) := by
  unfold liveIndex
  split
  next => exact ascending_qsort strcmp slots
  next single =>
    match slots with
    | [] => exact List.Pairwise.nil
    | [slot] => exact List.pairwise_singleton _ _
    | _ :: _ :: _ => simp at single

theorem mem_liveIndex {slots : List Bytes} {digest : Bytes} :
    digest ∈ liveIndex slots ↔ digest ∈ slots := by
  unfold liveIndex
  split
  next => exact mem_qsort strcmp
  next => rfl

/-- Whether the sweep removes a name of blobs/. -/
def isSwept (slots : List Bytes) (name : Bytes) : Bool :=
  storeDigestIsValid name && !decide (name ∈ slots)

/-- The guard of the search and the search together decide membership. -/
theorem search_liveIndex {slots : List Bytes} {name : Bytes} :
    ((liveIndex slots).length ≠ 0 ∧ (bsearch strcmp (liveIndex slots) name).isSome) ↔
      name ∈ slots := by
  rw [bsearch_isSome (ascending_liveIndex slots), mem_liveIndex]
  constructor
  · exact fun found => found.2
  · intro member
    refine ⟨?_, member⟩
    have indexed := mem_liveIndex.mpr member
    exact Nat.ne_of_gt (List.length_pos_of_mem indexed)

/-! ## One step of the sweep -/

section Sweep

variable {sys : Sys} {st : Store} {slots : List Bytes} {name : Bytes}

theorem sweepBlobs_skip {dryRun : Bool} {rest : List Bytes} {report : GcReport}
    (kept : isSwept slots name = false) :
    sweepBlobs sys dryRun (liveIndex slots) (name :: rest) st report =
      sweepBlobs sys dryRun (liveIndex slots) rest st report := by
  rw [sweepBlobs]
  by_cases valid : storeDigestIsValid name = false
  · rw [if_pos valid]
  · rw [if_neg valid]
    have member : name ∈ slots := by
      simp only [isSwept, Bool.and_eq_false_iff, Bool.not_eq_false', decide_eq_true_eq] at kept
      exact kept.resolve_left valid
    rw [if_pos (search_liveIndex.mpr member)]

theorem sweepBlobs_swept {dryRun : Bool} {rest : List Bytes} {report : GcReport}
    (swept : isSwept slots name = true) :
    sweepBlobs sys dryRun (liveIndex slots) (name :: rest) st report =
      if dryRun then
        sweepBlobs sys dryRun (liveIndex slots) rest st
          ⟨report.removed + 1, report.freed + blobSize st.files (.blobs name)⟩
      else
        match unlink sys st.files (.blobs name) with
        | (files, .done) =>
            sweepBlobs sys dryRun (liveIndex slots) rest (st.withFiles files)
              ⟨report.removed + 1, report.freed + blobSize st.files (.blobs name)⟩
        | (files, _) =>
            sweepBlobs sys dryRun (liveIndex slots) rest (st.withFiles files)
              ⟨report.removed, report.freed + blobSize st.files (.blobs name)⟩ := by
  simp only [isSwept, Bool.and_eq_true, Bool.not_eq_true', decide_eq_false_iff_not] at swept
  have missed := mt search_liveIndex.mp swept.2
  rw [sweepBlobs, if_neg (by simp [swept.1]), if_neg missed,
    blobPath_of_valid st.root swept.1]

/-- Whatever the environment, a sweep only unlinks blobs outside the live set. -/
theorem sweepBlobs_induct {dryRun : Bool} (names : List Bytes) (report : GcReport)
    {motive : Files → Prop} (start : motive st.files)
    (step : ∀ files name, isSwept slots name = true → motive files →
      motive (unlink sys files (.blobs name)).1) :
    motive (sweepBlobs sys dryRun (liveIndex slots) names st report).1.files := by
  induction names generalizing st report with
  | nil => exact start
  | cons name rest inductionHypothesis =>
      cases kept : isSwept slots name with
      | false =>
          rw [sweepBlobs_skip kept]
          exact inductionHypothesis _ start
      | true =>
          rw [sweepBlobs_swept kept]
          split
          next => exact inductionHypothesis _ start
          next =>
            have next := step st.files name kept start
            split
            next files removed =>
              rw [removed] at next
              exact inductionHypothesis _ next
            next files _ _ left =>
              rw [left] at next
              exact inductionHypothesis _ next

/-- What a sweep can change: a blob outside the live set goes. -/
theorem sweepBlobs_files (sys : Sys) (st : Store) (slots : List Bytes) (dryRun : Bool)
    (names : List Bytes) (report : GcReport) :
    packagesOf (sweepBlobs sys dryRun (liveIndex slots) names st report).1.files =
        packagesOf st.files ∧
      ∀ digest,
        blobsOf (sweepBlobs sys dryRun (liveIndex slots) names st report).1.files digest =
            blobsOf st.files digest ∨
          blobsOf (sweepBlobs sys dryRun (liveIndex slots) names st report).1.files digest = none ∧
            digest ∉ slots := by
  apply sweepBlobs_induct names report (motive := fun files => packagesOf files =
    packagesOf st.files ∧ ∀ digest, blobsOf files digest = blobsOf st.files digest ∨
      blobsOf files digest = none ∧ digest ∉ slots)
  · exact ⟨rfl, fun _ => Or.inl rfl⟩
  · intro files name swept facts
    have dead : name ∉ slots := by
      simp only [isSwept, Bool.and_eq_true, Bool.not_eq_true', decide_eq_false_iff_not] at swept
      exact swept.2
    rcases unlink_files sys files (.blobs name) with same | gone
    · rw [same]
      exact facts
    · rw [gone, packagesOf_update_blobs, blobsOf_update_blobs]
      refine ⟨facts.1, fun digest => ?_⟩
      by_cases own : digest = name
      · rw [own, Function.update_self]
        exact Or.inr ⟨rfl, dead⟩
      · rw [Function.update_of_ne own]
        exact facts.2 digest

end Sweep

/-! ## Collections -/

/-- A blob that no validly named entry points at. -/
def Orphan (files : Files) (digest : Bytes) : Prop :=
  storeDigestIsValid digest = true ∧ (blobsOf files digest).isSome ∧
    ∀ name, storeNameIsValid name = true → published files name ≠ some digest

section Collection

variable {sys : Sys} {st : Store}

/-- A collection that reports has walked packages/ and listed blobs/. -/
theorem storeGc_some {dryRun : Bool} {report : GcReport}
    (reported : (storeGc sys st dryRun).2 = some report) :
    ∃ set names digests, storeWalk sys st (collectLive sys) .empty = some set ∧
      sys.readdir .packages = some names ∧ sys.readdir .blobs = some digests ∧
      set.slots = (listed st.files names).map Prod.snd ∧
      ∀ dry, storeGc sys st dry =
        ((sweepBlobs sys dry (liveIndex set.slots) digests st ⟨0, 0⟩).1,
          some (sweepBlobs sys dry (liveIndex set.slots) digests st ⟨0, 0⟩).2) := by
  unfold storeGc at reported
  split at reported
  next => contradiction
  next set walked =>
    split at reported
    next => contradiction
    next digests listing =>
      obtain ⟨names, packages, slots⟩ := storeWalk_collectLive walked
      refine ⟨set, names, digests, walked, packages, listing, slots, ?_⟩
      intro dry
      unfold storeGc
      rw [walked]
      dsimp only
      rw [listing]

/-- A collection that reports nothing has changed nothing. -/
theorem storeGc_none {dryRun : Bool} (failed : (storeGc sys st dryRun).2 = none) :
    storeGc sys st dryRun = (st, none) := by
  unfold storeGc at failed ⊢
  split
  next => rfl
  next set walked =>
    rw [walked] at failed
    dsimp only at failed
    split
    next => rfl
    next names listing =>
      rw [listing] at failed
      contradiction

/-- A collection changes no entry. -/
theorem storeGc_packages (sys : Sys) (st : Store) (dryRun : Bool) :
    packagesOf (storeGc sys st dryRun).1.files = packagesOf st.files := by
  cases reported : (storeGc sys st dryRun).2 with
  | none => rw [storeGc_none reported]
  | some report =>
      obtain ⟨set, _, digests, _, _, _, _, runs⟩ := storeGc_some reported
      rw [runs dryRun]
      exact (sweepBlobs_files sys st set.slots dryRun digests ⟨0, 0⟩).1

end Collection

/-! ### A store with one orphan -/

def orphanEntries : List (Bytes × Bytes) :=
  [(ascii "foo-1-1.tar.gz", List.replicate 64 97),
    (ascii "foo-1-1.tar.gz.minisig", List.replicate 64 98)]

def orphanBlobs : List (Bytes × Bytes) :=
  [(List.replicate 64 97, ascii "bytes"), (List.replicate 64 98, ascii "signature"),
    (List.replicate 64 99, ascii "orphan")]

end CixCache
