import CixCache.Document.Agreement

/-!
Contract: the documents do not depend on the order of the directory.

Owns: that every sort of a document is decided by its comparison alone, because
no two of the items it sees compare equal; and from it that two orders of
`readdir`, and two sorting routines, give the same text.

Does not own: what the documents say.
-/

namespace CixCache

open CixCache.Lib

section Entries

variable {left right : DocEnv} {st : Store} {names others : List Bytes}

/-- Sorting the stored entries of two directory orders. -/
theorem sort_stored {cmp : StoreEntry → StoreEntry → Ordering} [Std.TransCmp cmp]
    (byName : ∀ {x y : StoreEntry}, cmp x y = .eq → x.name = y.name) (keep : StoreEntry → Bool)
    (sameMtime : left.sys.mtime = right.sys.mtime) (reordered : names.Perm others) :
    left.routine.sort cmp ((storedEntries left.sys st names).filter keep) =
      right.routine.sort cmp ((storedEntries right.sys st others).filter keep) := by
  apply Qsort.sort_unique
  · exact (storedEntries_perm sameMtime reordered).filter keep
  · intro a aMember b bMember equal
    exact storedEntries_ext (List.mem_of_mem_filter aMember) (List.mem_of_mem_filter bMember)
      (byName equal)

/-- The manifest of two directory orders. -/
theorem manifestOf_order (leftAllocates : left.Allocates) (rightAllocates : right.Allocates)
    (sameMtime : left.sys.mtime = right.sys.mtime)
    (opened : left.sys.readdir .packages = some names)
    (otherOpened : right.sys.readdir .packages = some others) (reordered : names.Perm others) :
    manifestOf left st = manifestOf right st := by
  have entries : manifestEntries left st = manifestEntries right st := by
    rw [manifestEntries_eq, manifestEntries_eq, storeList_eq leftAllocates.grows opened,
      storeList_eq rightAllocates.grows otherOpened]
    have sorted : left.routine.sort storeCmpName
        ((storedEntries left.sys st names).filter fun _ => true) =
          right.routine.sort storeCmpName ((storedEntries right.sys st others).filter fun _ => true) :=
      sort_stored eq_of_storeCmpName _ sameMtime reordered
    simpa using sorted
  have stored : ∀ e ∈ manifestEntries left st, e ∈ storedEntries left.sys st names := by
    intro e member
    rw [manifestEntries_eq, storeList_eq leftAllocates.grows opened, Qsort.mem_sort] at member
    exact member
  have rows : ∀ installerTier, sectionRows left (manifestEntries left st) installerTier =
      sectionRows right (manifestEntries left st) installerTier := by
    intro installerTier
    rw [sectionRows_eq, sectionRows_eq]
    apply Qsort.sort_unique _ _ (List.Perm.refl _)
    intro a aMember b bMember equal
    exact storedEntries_ext (stored a (List.mem_of_mem_filter aMember))
      (stored b (List.mem_of_mem_filter bMember)) (eq_of_stemThenName equal)
  unfold manifestOf
  dsimp only
  rw [← entries, manifestSection_eq leftAllocates, manifestSection_eq rightAllocates,
    manifestSection_eq leftAllocates, manifestSection_eq rightAllocates, rows, rows]

/-- Ranks are decided by the names. -/
theorem rankIdentities_order (leftAllocates : left.Allocates) (rightAllocates : right.Allocates)
    {ids : List Identity}
    (distinct : (ids.map fun identity => snprintf storeNameMax identity.stem).Nodup) :
    rankIdentities left ids = rankIdentities right ids := by
  unfold rankIdentities
  rw [if_pos (leftAllocates.scratch _), if_pos (rightAllocates.scratch _)]
  dsimp only
  rw [storeRankVersions_eq (leftAllocates.scratch _) distinct,
    storeRankVersions_eq (rightAllocates.scratch _) distinct]

/-- The stems of the identities of sorted rows are distinct, and fit. -/
theorem buildIdentities_stems {rows : List StoreEntry} (ordered : Ascending stemThenName rows) :
    ((buildIdentities rows).map Identity.stem).Nodup ∧
      ∀ identity ∈ buildIdentities rows,
        snprintf storeNameMax identity.stem = identity.stem := by
  obtain ⟨groups, grouping, built⟩ := buildIdentities_groups rows
  have stems : Ascending strcmp (rows.map fun e => storeStemOf e.name) := by
    unfold Ascending
    rw [List.pairwise_map]
    exact ordered.imp stemThenName_stems
  have keys := identitiesOf_stems 0 groups
  rw [built]
  refine ⟨?_, ?_⟩
  · rw [keys]
    exact grouping.nodup_keys stems
  · intro identity member
    have isKey : identity.stem ∈ groups.map Prod.fst := by
      rw [← keys]
      exact List.mem_map_of_mem member
    obtain ⟨group, grouped, same⟩ := List.mem_map.mp isKey
    obtain ⟨e, rest, shape⟩ := List.exists_cons_of_ne_nil (grouping.inhabited group grouped)
    have keyed := grouping.keyed group grouped e (by rw [shape]; exact List.mem_cons_self)
    rw [← same, ← keyed]
    exact snprintf_stem e.name

/-- The listing of two directory orders. -/
theorem liveAndIds_order (leftAllocates : left.Allocates) (rightAllocates : right.Allocates)
    (sameMtime : left.sys.mtime = right.sys.mtime)
    (opened : left.sys.readdir .packages = some names)
    (otherOpened : right.sys.readdir .packages = some others) (reordered : names.Perm others) :
    liveAndIds left st = liveAndIds right st := by
  have live : left.routine.sort stemThenName
      ((storedEntries left.sys st names).filter fun e => !storeIsSignature e.name) =
        right.routine.sort stemThenName
          ((storedEntries right.sys st others).filter fun e => !storeIsSignature e.name) :=
    sort_stored eq_of_stemThenName _ sameMtime reordered
  rw [liveAndIds_eq leftAllocates, liveAndIds_eq rightAllocates,
    storeList_eq leftAllocates.grows opened, storeList_eq rightAllocates.grows otherOpened,
    Option.getD_some, Option.getD_some, ← live]
  have ordered := left.routine.ascending stemThenName
    ((storedEntries left.sys st names).filter fun e => !storeIsSignature e.name)
  generalize left.routine.sort stemThenName
    ((storedEntries left.sys st names).filter fun e => !storeIsSignature e.name) = rows at ordered
  have stems := buildIdentities_stems ordered
  have fitting : (buildIdentities rows).map (fun identity => snprintf storeNameMax identity.stem) =
      (buildIdentities rows).map Identity.stem := List.map_congr_left stems.2
  have ranked := rankIdentities_order leftAllocates rightAllocates
    (show ((buildIdentities rows).map fun identity =>
      snprintf storeNameMax identity.stem).Nodup by rw [fitting]; exact stems.1)
  have distinct : ((rankIdentities left (buildIdentities rows)).map Identity.stem).Nodup := by
    rw [rankIdentities_map left Identity.stem fun _ _ => rfl]
    exact stems.1
  dsimp only
  rw [← ranked]
  congr 1
  apply Qsort.sort_unique _ _ (List.Perm.refl _)
  intro a aMember b bMember equal
  exact List.inj_on_of_nodup_map distinct aMember bMember (eq_of_cmpIdentityNewest equal)

/-- Two orders of the directory, and two sorting routines, give one manifest and
one listing. -/
theorem documents_order_free (leftAllocates : left.Allocates) (rightAllocates : right.Allocates)
    (sameMtime : left.sys.mtime = right.sys.mtime)
    (opened : left.sys.readdir .packages = some names)
    (otherOpened : right.sys.readdir .packages = some others) (reordered : names.Perm others)
    (policy : SignaturePolicy) :
    (manifestWriteJson left st jwInit).buf = (manifestWriteJson right st jwInit).buf ∧
      (apiArtifacts left policy st jwInit).buf = (apiArtifacts right policy st jwInit).buf := by
  have manifests : manifestOf left st = manifestOf right st :=
    manifestOf_order leftAllocates rightAllocates sameMtime opened otherOpened reordered
  have listings : listingOf left policy st = listingOf right policy st := by
    unfold listingOf
    rw [liveAndIds_order leftAllocates rightAllocates sameMtime opened otherOpened reordered]
  constructor
  · rw [(writes_manifest left st).document, (writes_manifest right st).document, manifests]
  · rw [(writes_listing left policy st).document, (writes_listing right policy st).document,
      listings]

end Entries

/-! ### A directory read backwards -/

/-- The environment that reads the directory of the mixed store from its end. -/
def backwardEnv : DocEnv :=
  ⟨Sys.succeeding fun _ => some (mixedEntries.map Prod.fst).reverse, .insertion, fun _ => true⟩

def forwardEnv : DocEnv :=
  ⟨Sys.succeeding fun _ => some (mixedEntries.map Prod.fst), .insertion, fun _ => true⟩

theorem backward_documents :
    (manifestWriteJson backwardEnv (Store.holding mixedEntries mixedBlobs) jwInit).buf =
        (manifestWriteJson forwardEnv (Store.holding mixedEntries mixedBlobs) jwInit).buf ∧
      (apiArtifacts backwardEnv initialPolicy (Store.holding mixedEntries mixedBlobs) jwInit).buf =
        (apiArtifacts forwardEnv initialPolicy (Store.holding mixedEntries mixedBlobs)
          jwInit).buf := by
  have backward : backwardEnv.Allocates := ⟨fun _ => rfl, fun _ => rfl⟩
  have forward : forwardEnv.Allocates := ⟨fun _ => rfl, fun _ => rfl⟩
  have read : backwardEnv.sys.readdir .packages = some (mixedEntries.map Prod.fst).reverse := by
    unfold backwardEnv Sys.succeeding
    dsimp only
  have readForward : forwardEnv.sys.readdir .packages = some (mixedEntries.map Prod.fst) := by
    unfold forwardEnv Sys.succeeding
    dsimp only
  have sameMtime : backwardEnv.sys.mtime = forwardEnv.sys.mtime := by
    unfold backwardEnv forwardEnv Sys.succeeding
    dsimp only
  exact documents_order_free backward forward sameMtime read readForward (List.reverse_perm _)
    initialPolicy

end CixCache
