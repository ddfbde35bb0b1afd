import CixCache.Document.Asserted
import CixCache.Document.Status
import CixCache.JsonRoundTrip

/-!
Contract: the documents of the server as a client reads them.

Owns: that the manifest, the listing and the status are written inside the arrays of the
writer and that their bytes parse to the trees they were written from, for every store and
every environment, so long as sizes and counters are numbers of C.

Does not own: what the trees say.
-/

namespace CixCache

open CixCache.Lib

/-! ## Strings of a store -/

theorem NameText.noNul {name : Bytes} (text : NameText name) : 0 ∉ name := by
  intro nul
  have allowed := text.bytes 0 nul
  revert allowed
  decide

theorem storeDigestIsValid.noNul {digest : Bytes} (valid : storeDigestIsValid digest = true) :
    0 ∉ digest := by
  intro nul
  have hex := storeDigestIsValid_hex valid 0 nul
  revert hex
  decide

theorem noNul_of_subset {part whole : Bytes} (inside : part ⊆ whole) (noNul : 0 ∉ whole) :
    0 ∉ part :=
  fun nul => noNul (inside nul)

theorem snprintf_subset (size : Nat) (text : Bytes) : snprintf size text ⊆ text :=
  List.take_subset _ _

theorem slice_subset (text : Bytes) (start stop : Nat) : slice text start stop ⊆ text :=
  fun _ member => List.take_subset _ _ (List.mem_of_mem_drop member)

/-- The parts of a display name are of the name. -/
theorem storeSplitDisplay_noNul {name : Bytes} (noNul : 0 ∉ name) :
    0 ∉ (storeSplitDisplay name).name ∧ 0 ∉ (storeSplitDisplay name).version ∧
      0 ∉ (storeSplitDisplay name).arch := by
  have cut : ∀ size start stop, 0 ∉ snprintf size (slice name start stop) := fun size start stop =>
    noNul_of_subset (snprintf_subset _ _) (noNul_of_subset (slice_subset _ _ _) noNul)
  have front : ∀ size n, 0 ∉ snprintf size (name.take n) := fun size n =>
    noNul_of_subset (snprintf_subset _ _) (noNul_of_subset (List.take_subset _ _) noNul)
  have arch : ∀ (here : Prop) [Decidable here] (size start stop : Nat),
      0 ∉ if here then snprintf size (slice name start stop) else [] := by
    intro here _ size start stop
    split
    next => exact cut size start stop
    next => exact List.not_mem_nil
  unfold storeSplitDisplay
  dsimp only
  split
  next => exact ⟨front _ _, cut _ _ _, arch _ _ _ _⟩
  next => exact ⟨front _ _, List.not_mem_nil, arch _ _ _ _⟩

/-! ## Sizes -/

/-- Every blob is as long as an `off_t` can say. -/
def Store.SizesFit (st : Store) : Prop :=
  ∀ digest size, storeBlobExists st digest = some size → FitsLong size

theorem sizesFit_holding {entries blobs : List (Bytes × Bytes)}
    (short : ∀ blob ∈ blobs, blob.2.length < 2 ^ 63) : (Store.holding entries blobs).SizesFit := by
  intro digest size found
  have content : ∃ blob ∈ blobs, size = blob.2.length := by
    have valid : storeDigestIsValid digest = true := by
      by_contra invalid
      rw [storeBlobExists, if_pos (by simpa using invalid)] at found
      contradiction
    rw [storeBlobExists_of_valid valid] at found
    obtain ⟨bytes, there, rfl⟩ := Option.map_eq_some_iff.mp found
    cases listed : blobs.lookup digest with
    | none =>
        have absent : (Store.holding entries blobs).files (.blobs digest) = none := by
          show (blobs.lookup digest).map _ = none
          rw [listed]
          rfl
        rw [stat_of_absent absent] at there
        contradiction
    | some content =>
        have present : (Store.holding entries blobs).files (.blobs digest) =
            some (.regular content) := by
          show (blobs.lookup digest).map _ = _
          rw [listed]
          rfl
        rw [stat_of_regular present] at there
        obtain rfl := Option.some.inj there
        obtain ⟨before, after, same, _⟩ := List.lookup_eq_some_iff.mp listed
        exact ⟨(digest, content), by rw [same]; simp, rfl⟩
  obtain ⟨blob, member, rfl⟩ := content
  have bound := short blob member
  unfold FitsLong
  omega

theorem fits_zero : FitsLong 0 := by
  unfold FitsLong
  omega

theorem Store.SizesFit.offT {st : Store} (sizes : st.SizesFit) (digest : Bytes) :
    FitsLong (offT (storeBlobExists st digest)) := by
  cases found : storeBlobExists st digest with
  | none =>
      show FitsLong (-1)
      unfold FitsLong
      omega
  | some size => exact sizes digest size found

theorem Store.SizesFit.there {st : Store} (sizes : st.SizesFit) (digest : Bytes) :
    FitsLong ((storeBlobExists st digest).getD 0 : Nat) := by
  cases found : storeBlobExists st digest with
  | none => exact fits_zero
  | some size => exact sizes digest size found

theorem plain_cons {key : Bytes} {value : JsonValue} {rest : List (Bytes × JsonValue)}
    (noNul : 0 ∉ key) (plain : value.Plain) (others : PlainMembers rest) :
    PlainMembers ((key, value) :: rest) :=
  ⟨noNul, plain, others⟩

theorem plain_append {front back : List (Bytes × JsonValue)} (before : PlainMembers front)
    (after : PlainMembers back) : PlainMembers (front ++ back) := by
  rw [plainMembers_iff] at before after ⊢
  intro member inside
  rcases List.mem_append.mp inside with left | right
  · exact before member left
  · exact after member right

/-! ## The manifest -/

section Manifest

variable {env : DocEnv} {st : Store}

theorem fileText_noNul {name : Bytes} (noNul : 0 ∉ name) : 0 ∉ fileText name := by
  apply noNul_of_subset (snprintf_subset _ _)
  have dir : 0 ∉ storeDir ++ [slash] := by decide
  rw [List.append_cons]
  intro nul
  rcases List.mem_append.mp nul with front | back
  · exact dir front
  · exact noNul back

theorem FileBody.plain {body : FileBody} (file : 0 ∉ body.file) (digest : 0 ∉ body.sha256)
    (size : FitsLong body.bytes) : PlainMembers body.members :=
  plain_cons (by decide) file
    (plain_cons (by decide) digest (plain_cons (by decide) (plain_int size) trivial))

theorem suffix_noNul {name : Bytes} (noNul : 0 ∉ name) : 0 ∉ (storeSuffixOf name).getD [] := by
  cases found : storeSuffixOf name with
  | none => exact List.not_mem_nil
  | some ext =>
      obtain ⟨_, _, _, stem, _, rfl⟩ := storeSuffixOf_some found
      intro nul
      exact noNul (List.mem_append_right _ nul)

theorem resolved_valid {name digest : Bytes} (resolved : storeResolve st name = .ok digest) :
    storeDigestIsValid digest = true := by
  unfold storeResolve at resolved
  split at resolved
  next answer found =>
    obtain ⟨_, _, _, entry⟩ := storeResolveAs_published found
    rw [← Except.ok.inj resolved]
    exact published_valid entry
  next => contradiction

theorem signatureBody_plain (sizes : st.SizesFit) {name : Bytes} {body : FileBody}
    (nested : signatureBody st name = some body) : PlainMembers body.members := by
  obtain ⟨sig, digest, found, answered, rfl⟩ := signatureBody_iff.mp nested
  obtain ⟨valid, _, rfl, _⟩ := storeSignatureName_some found
  have resolved := storeResolve_iff_answeredBy.mpr answered
  have digestValid : storeDigestIsValid digest = true := resolved_valid resolved
  have sigExt : 0 ∉ storeSigExt := by decide
  have sigName : 0 ∉ name ++ storeSigExt := by
    intro nul
    rcases List.mem_append.mp nul with front | back
    · exact (storeNameIsValid.text valid).noNul front
    · exact sigExt back
  exact FileBody.plain (fileText_noNul sigName) (storeDigestIsValid.noNul digestValid)
    (sizes.there digest)

/-- An entry of the list, with the size the walk read for it. -/
theorem listed_size {e : StoreEntry} (member : e ∈ (storeList env.sys st).getD []) :
    e.size = offT (storeBlobExists st e.digest) := by
  cases returned : storeList env.sys st with
  | none =>
      rw [returned] at member
      contradiction
  | some ents =>
      rw [returned, Option.getD_some] at member
      obtain ⟨names, _, rfl⟩ := storeList_some returned
      rw [(mem_storedEntries.mp member).2.2.2]
      rfl

theorem manifestFormat_plain (sizes : st.SizesFit) {e : StoreEntry}
    (member : e ∈ (storeList env.sys st).getD []) (unsigned : storeIsSignature e.name = false) :
    (manifestFormat st e).json.Plain := by
  have listed := listedArtifact_of_mem member unsigned
  have size : FitsLong e.size := by
    rw [listed_size member]
    exact sizes.offT e.digest
  have noNul := (storeNameIsValid.text listed.valid).noNul
  have digest := storeDigestIsValid.noNul (published_valid listed.entry)
  apply plain_append
  · exact plain_cons (by decide) (suffix_noNul noNul) trivial
  · apply plain_append
    · exact FileBody.plain (fileText_noNul noNul) digest size
    · rw [plainMembers_iff]
      intro member inside
      obtain ⟨body, found, rfl⟩ := List.mem_map.mp inside
      have key : 0 ∉ ascii "signature" := by decide
      exact ⟨key, signatureBody_plain sizes (Option.mem_toList.mp found)⟩

theorem manifestSection_plain (sizes : st.SizesFit) (installerTier : Bool) :
    PlainMembers ((manifestSection env st (manifestEntries env st) installerTier).map
      ManifestRecord.member) := by
  rw [plainMembers_iff]
  intro member inside
  obtain ⟨record, described, rfl⟩ := List.mem_map.mp inside
  unfold manifestSection at described
  split at described
  next =>
    obtain ⟨group, grouped, rfl⟩ := List.mem_map.mp described
    have grouping := stemGroups_grouping
      (le_refl (sectionRows env (manifestEntries env st) installerTier).length)
    have rows : ∀ e ∈ group.2, e ∈ (storeList env.sys st).getD [] ∧
        storeIsSignature e.name = false := by
      intro e inGroup
      have row := (grouping.mem_iff.mp ⟨group, grouped, rfl, inGroup⟩).1
      rw [sectionRows_eq, Qsort.mem_sort, List.mem_filter, manifestEntries_eq,
        Qsort.mem_sort] at row
      exact ⟨row.1, by simpa using (Bool.and_eq_true_iff.mp row.2).1⟩
    refine ⟨?_, plain_cons (by decide) (plainItems_iff.mpr ?_) trivial⟩
    · obtain ⟨e, inGroup⟩ := List.exists_mem_of_ne_nil _ (grouping.inhabited group grouped)
      have listed := listedArtifact_of_mem (rows e inGroup).1 (rows e inGroup).2
      show 0 ∉ group.1
      rw [← grouping.keyed group grouped e inGroup]
      exact noNul_of_subset (List.take_subset _ _) (storeNameIsValid.text listed.valid).noNul
    · intro item inItems
      obtain ⟨format, inFormats, rfl⟩ := List.mem_map.mp inItems
      obtain ⟨e, inGroup, rfl⟩ := List.mem_map.mp inFormats
      exact manifestFormat_plain sizes (rows e inGroup).1 (rows e inGroup).2
  next => contradiction

theorem manifest_plain (sizes : st.SizesFit) : (manifestOf env st).json.Plain :=
  plain_cons (by decide) (manifestSection_plain sizes false)
    (plain_cons (by decide) (manifestSection_plain sizes true) trivial)

theorem fileBody_flat (body : FileBody) : (JsonValue.object body.members).depth = 1 := rfl

theorem manifestFormat_depth (format : ManifestFormat) : format.json.depth ≤ 2 := by
  apply object_depth_le
  intro member inside
  simp only [FileBody.members, List.mem_append, List.mem_map, List.mem_cons, List.not_mem_nil,
    or_false] at inside
  rcases inside with rfl | (rfl | rfl | rfl) | ⟨body, _, rfl⟩
  · exact Nat.zero_le _
  · exact Nat.zero_le _
  · exact Nat.zero_le _
  · exact Nat.zero_le _
  · exact (fileBody_flat body).le

theorem manifestRecord_depth (record : ManifestRecord) : record.member.2.depth ≤ 4 := by
  apply object_depth_le
  intro member inside
  rw [List.mem_singleton.mp inside]
  apply array_depth_le
  intro item inFormats
  obtain ⟨format, _, rfl⟩ := List.mem_map.mp inFormats
  exact manifestFormat_depth format

theorem manifest_depth (manifest : Manifest) : manifest.json.depth ≤ 6 := by
  have records : ∀ records : List ManifestRecord,
      (JsonValue.object (records.map ManifestRecord.member)).depth ≤ 5 := by
    intro records
    apply object_depth_le
    intro member inside
    obtain ⟨record, _, rfl⟩ := List.mem_map.mp inside
    exact manifestRecord_depth record
  apply object_depth_le
  intro member inside
  simp only [List.mem_cons, List.not_mem_nil, or_false] at inside
  rcases inside with rfl | rfl
  · exact records _
  · exact records _

/-- The bytes of MANIFEST.json are read as the manifest. -/
theorem manifest_parsed (env : DocEnv) (sizes : st.SizesFit) :
    jsonParse (manifestWriteJson env st jwInit).buf = some (manifestOf env st).json :=
  (writes_manifest env st).parsed (manifest_plain sizes)

end Manifest

/-! ## The listing -/

section Listing

variable {env : DocEnv} {policy : SignaturePolicy} {st : Store}

/-- The sums and the times of a listing are numbers of C. -/
structure Listing.Fits (listing : Listing) : Prop where
  ranks : ∀ record ∈ listing.artifacts, FitsLong record.versionRank
  sums : ∀ record ∈ listing.artifacts, FitsLong record.bytes
  times : ∀ record ∈ listing.artifacts, FitsLong record.modified ∧
    ∀ format ∈ record.formats, FitsLong format.modified
  counts : FitsLong listing.count ∧ FitsLong listing.files
  total : FitsLong listing.bytes

instance (listing : Listing) : Decidable listing.Fits :=
  decidable_of_iff
    ((∀ record ∈ listing.artifacts, FitsLong record.versionRank) ∧
      (∀ record ∈ listing.artifacts, FitsLong record.bytes) ∧
      (∀ record ∈ listing.artifacts, FitsLong record.modified ∧
        ∀ format ∈ record.formats, FitsLong format.modified) ∧
      (FitsLong listing.count ∧ FitsLong listing.files) ∧ FitsLong listing.bytes)
    ⟨fun ⟨ranks, sums, times, counts, total⟩ => ⟨ranks, sums, times, counts, total⟩,
      fun ⟨ranks, sums, times, counts, total⟩ => ⟨ranks, sums, times, counts, total⟩⟩

theorem clampedRelease_le : ∀ (digits : Bytes) (v : Nat), v ≤ intMax →
    clampedRelease v digits ≤ intMax := by
  intro digits
  induction digits with
  | nil => exact fun v small => small
  | cons c rest inductionHypothesis =>
      intro v small
      unfold clampedRelease
      dsimp only
      split
      next => exact Nat.le_refl _
      next below =>
        apply inductionHypothesis
        have wide : 255 ≤ intMax := by decide
        have byte := c.toNat_lt
        omega

theorem release_fits (name : Bytes) : FitsLong (storeSplitDisplay name).release := by
  have small : (storeSplitDisplay name).release ≤ intMax := by
    unfold storeSplitDisplay
    dsimp only
    have clamped : ∀ (here : Prop) [Decidable here] (digits : Bytes),
        (if here then clampedRelease 0 digits else 1) ≤ intMax := by
      intro here _ digits
      split
      next => exact clampedRelease_le digits 0 (Nat.zero_le _)
      next => decide
    split
    next => exact clamped _ _
    next => exact clamped _ _
  have limit : intMax < 2 ^ 63 := by decide
  unfold FitsLong
  omega

theorem listingFormat_plain (sizes : st.SizesFit) {e : StoreEntry}
    (member : e ∈ (storeList env.sys st).getD []) (unsigned : storeIsSignature e.name = false)
    (time : FitsLong e.mtime) : (listingFormat policy st e).json.Plain := by
  have listed := listedArtifact_of_mem member unsigned
  have noNul := (storeNameIsValid.text listed.valid).noNul
  have size : FitsLong e.size := by
    rw [listed_size member]
    exact sizes.offT e.digest
  refine plain_append (plain_cons (by decide) (suffix_noNul noNul) trivial)
    (plain_append (plain_cons (by decide) noNul trivial) (plain_append ?_
      (plain_append (plain_cons (by decide)
        (storeDigestIsValid.noNul (published_valid listed.entry)) trivial)
        (plain_cons (by decide) (plain_int size) (plain_cons (by decide) (plain_int time)
          trivial)))))
  rw [plainMembers_iff]
  intro other inside
  obtain ⟨_, _, rfl⟩ := List.mem_map.mp inside
  have key : 0 ∉ ascii "signed" := by decide
  exact ⟨key, trivial⟩

/-- The rows of a listing are listed entries without the signatures. -/
theorem live_listed {e : StoreEntry} (row : e ∈ (liveAndIds env st).1) :
    e ∈ (storeList env.sys st).getD [] ∧ storeIsSignature e.name = false := by
  unfold liveAndIds cmpByStem at row
  dsimp only at row
  split at row
  next =>
    rw [Qsort.mem_sort, List.mem_filter] at row
    exact ⟨row.1, by simpa using row.2⟩
  next => contradiction

/-- The stem of an identity is one of a row. -/
theorem identity_stem {identity : Identity} (member : identity ∈ (liveAndIds env st).2) :
    ∃ e ∈ (liveAndIds env st).1, identity.stem = storeStemOf e.name := by
  unfold liveAndIds cmpByStem at member ⊢
  dsimp only at member ⊢
  split at member
  next some =>
    rw [if_pos some]
    generalize env.routine.sort stemThenName _ = live at member ⊢
    rw [Qsort.mem_sort] at member
    have stem := List.mem_map_of_mem (f := Identity.stem) member
    obtain ⟨groups, grouping, built⟩ := buildIdentities_groups live
    rw [rankIdentities_map env Identity.stem (fun _ _ => rfl), built, identitiesOf_stems] at stem
    obtain ⟨group, grouped, same⟩ := List.mem_map.mp stem
    obtain ⟨e, inGroup⟩ := List.exists_mem_of_ne_nil _ (grouping.inhabited group grouped)
    have row := (grouping.mem_iff.mp ⟨group, grouped, rfl, inGroup⟩).1
    exact ⟨e, row, by rw [← same, grouping.keyed group grouped e inGroup]⟩
  next => contradiction

theorem listing_plain (sizes : st.SizesFit) (fits : (listingOf env policy st).Fits) :
    (listingOf env policy st).json.Plain := by
  refine plain_cons (by decide) (plainItems_iff.mpr ?_)
    (plain_cons (by decide) (plain_int fits.counts.1)
      (plain_cons (by decide) (plain_int fits.counts.2)
        (plain_cons (by decide) (plain_int fits.total) trivial)))
  intro item inItems
  obtain ⟨record, inListing, rfl⟩ := List.mem_map.mp inItems
  have rank := fits.ranks record inListing
  have sum := fits.sums record inListing
  have times := fits.times record inListing
  unfold listingOf at inListing
  obtain ⟨identity, known, rfl⟩ := List.mem_map.mp inListing
  obtain ⟨e, row, stem⟩ := identity_stem known
  have listed := listedArtifact_of_mem (live_listed row).1 (live_listed row).2
  have noNul : 0 ∉ identity.stem := by
    rw [stem]
    exact noNul_of_subset (List.take_subset _ _) (storeNameIsValid.text listed.valid).noNul
  obtain ⟨name, version, arch⟩ := storeSplitDisplay_noNul noNul
  refine plain_cons (by decide) noNul (plain_cons (by decide) name
    (plain_cons (by decide) version (plain_cons (by decide) (plain_int (release_fits _))
      (plain_cons (by decide) arch (plain_cons (by decide) (plain_int rank)
        (plain_cons (by decide) (plainItems_iff.mpr ?_) (plain_cons (by decide) (plain_int sum)
          (plain_cons (by decide) (plain_int times.1) trivial))))))))
  intro format inFormats
  obtain ⟨described, inRecord, rfl⟩ := List.mem_map.mp inFormats
  have time := times.2 described inRecord
  obtain ⟨file, inRows, rfl⟩ := List.mem_map.mp inRecord
  have live := live_listed (List.mem_of_mem_drop (List.mem_of_mem_take inRows))
  exact listingFormat_plain sizes live.1 live.2 time

theorem listingFormat_depth (format : ListingFormat) : format.json.depth ≤ 1 := by
  apply object_depth_le
  intro member inside
  simp only [List.mem_append, List.mem_map, List.mem_cons, List.not_mem_nil, or_false] at inside
  rcases inside with rfl | rfl | ⟨signed, _, rfl⟩ | rfl | rfl | rfl
  all_goals exact Nat.le_refl 0

theorem listingRecord_depth (record : ListingRecord) : record.json.depth ≤ 3 := by
  apply object_depth_le
  have formats : (JsonValue.array (record.formats.map ListingFormat.json)).depth ≤ 2 := by
    apply array_depth_le
    intro item inFormats
    obtain ⟨format, _, rfl⟩ := List.mem_map.mp inFormats
    exact listingFormat_depth format
  intro member inside
  simp only [List.mem_cons, List.not_mem_nil, or_false] at inside
  rcases inside with rfl | rfl | rfl | rfl | rfl | rfl | rfl | rfl | rfl
  all_goals first
    | exact formats
    | exact Nat.zero_le _

theorem listing_depth (listing : Listing) : listing.json.depth ≤ 5 := by
  apply object_depth_le
  have artifacts : (JsonValue.array (listing.artifacts.map ListingRecord.json)).depth ≤ 4 := by
    apply array_depth_le
    intro item inRecords
    obtain ⟨record, _, rfl⟩ := List.mem_map.mp inRecords
    exact listingRecord_depth record
  intro member inside
  simp only [List.mem_cons, List.not_mem_nil, or_false] at inside
  rcases inside with rfl | rfl | rfl | rfl
  · exact artifacts
  all_goals exact Nat.zero_le _

end Listing

/-! ## The status -/

section Status

/-- The counters of a status are numbers of C, and its texts are C strings. -/
structure Status.Fits (status : Status) : Prop where
  texts : 0 ∉ status.facts.buildVersion ∧ 0 ∉ status.facts.buildTime ∧
    ∀ root ∈ status.root, 0 ∉ root
  server : FitsLong (status.facts.uptimeMs.tdiv 1000) ∧ FitsLong status.facts.requests ∧
    FitsLong status.facts.artifactHits ∧ FitsLong status.facts.artifactMisses ∧
    FitsLong status.facts.artifactAliases ∧ FitsLong status.facts.servedBytes
  store : FitsLong status.unstamped ∧ FitsLong status.installers ∧
    FitsLong status.installerBytes ∧ FitsLong status.packages ∧ FitsLong status.uniquePackages ∧
    FitsLong status.packageBytes

instance (status : Status) : Decidable status.Fits :=
  decidable_of_iff
    ((0 ∉ status.facts.buildVersion ∧ 0 ∉ status.facts.buildTime ∧
        ∀ root ∈ status.root, 0 ∉ root) ∧
      (FitsLong (status.facts.uptimeMs.tdiv 1000) ∧ FitsLong status.facts.requests ∧
        FitsLong status.facts.artifactHits ∧ FitsLong status.facts.artifactMisses ∧
        FitsLong status.facts.artifactAliases ∧ FitsLong status.facts.servedBytes) ∧
      (FitsLong status.unstamped ∧ FitsLong status.installers ∧
        FitsLong status.installerBytes ∧ FitsLong status.packages ∧
        FitsLong status.uniquePackages ∧ FitsLong status.packageBytes))
    ⟨fun ⟨texts, server, store⟩ => ⟨texts, server, store⟩,
      fun ⟨texts, server, store⟩ => ⟨texts, server, store⟩⟩

theorem status_plain {status : Status} (fits : status.Fits) : status.json.Plain := by
  obtain ⟨version, time, root⟩ := fits.texts
  obtain ⟨uptime, requests, hits, misses, aliases, served⟩ := fits.server
  obtain ⟨unstamped, installers, installerBytes, packages, unique, packageBytes⟩ := fits.store
  obtain ⟨name, upstream, arch⟩ := storeSplitDisplay_noNul version
  have build : status.facts.buildJson.Plain :=
    plain_cons (by decide) version (plain_cons (by decide) name (plain_cons (by decide) upstream
      (plain_cons (by decide) (plain_int (release_fits _)) (plain_cons (by decide) arch
        (plain_cons (by decide) time (plain_cons (by decide) trivial trivial))))))
  refine plain_append (plain_cons (by decide) build trivial) (plain_append ?_ ?_)
  · rw [plainMembers_iff]
    intro member inside
    obtain ⟨text, found, rfl⟩ := List.mem_map.mp inside
    have key : 0 ∉ ascii "root" := by decide
    exact ⟨key, root text (Option.mem_toList.mp found)⟩
  · exact plain_cons (by decide) (plain_int uptime) (plain_cons (by decide) (plain_int requests)
      (plain_cons (by decide) (plain_int hits) (plain_cons (by decide) (plain_int misses)
        (plain_cons (by decide) (plain_int aliases) (plain_cons (by decide) (plain_int served)
          (plain_cons (by decide) (plain_int unstamped) (plain_cons (by decide)
            (plain_int installers) (plain_cons (by decide) (plain_int installerBytes)
              (plain_cons (by decide) (plain_int packages) (plain_cons (by decide)
                (plain_int unique) (plain_cons (by decide) (plain_int packageBytes)
                  (plain_cons (by decide) trivial (plain_cons (by decide) trivial
                    trivial)))))))))))))

theorem status_depth (status : Status) : status.json.depth ≤ 2 := by
  apply object_depth_le
  have build : status.facts.buildJson.depth = 1 := rfl
  intro member inside
  rcases List.mem_append.mp inside with front | back
  · rw [List.mem_singleton.mp front]
    exact build.le
  rcases List.mem_append.mp back with root | fields
  · obtain ⟨text, _, rfl⟩ := List.mem_map.mp root
    exact Nat.zero_le _
  · simp only [List.mem_cons, List.not_mem_nil, or_false] at fields
    rcases fields with rfl | rfl | rfl | rfl | rfl | rfl | rfl | rfl | rfl | rfl | rfl | rfl |
      rfl | rfl
    all_goals exact Nat.zero_le _

end Status

/-! ## The documents -/

/-- The three documents of the server are written inside the arrays of the writer, and read as
the trees they were written from. -/
theorem documents_parsed (env : DocEnv) (conf : Conf) (facts : ServerFacts) (req : HttpRequest)
    {st : Store} (sizes : st.SizesFit) (listing : (listingOf env conf.policy st).Fits)
    (status : (statusOf env conf facts req st).Fits) :
    ReadBack (manifestWriteJson env st) (manifestOf env st).json ∧
      ReadBack (apiArtifacts env conf.policy st) (listingOf env conf.policy st).json ∧
      ReadBack (apiStatus env conf facts req st) (statusOf env conf facts req st).json :=
  have manifestDepth := (manifest_depth (manifestOf env st)).trans (by decide)
  have listingDepth := (listing_depth (listingOf env conf.policy st)).trans (by decide)
  have statusDepth := (status_depth (statusOf env conf facts req st)).trans (by decide)
  ⟨(writes_manifest env st).readBack (manifest_plain sizes) manifestDepth,
    (writes_listing env conf.policy st).readBack (listing_plain sizes listing) listingDepth,
    (writes_status env conf facts req st).readBack (status_plain status) statusDepth⟩

/-- A store with a package, its signature, a disk image without a blob, and a second
encoding. -/
theorem mixed_documents_parsed :
    ReadBack (manifestWriteJson (.holding mixedEntries mixedBlobs)
        (Store.holding mixedEntries mixedBlobs))
      (manifestOf (.holding mixedEntries mixedBlobs)
        (Store.holding mixedEntries mixedBlobs)).json := by
  have sizes : (Store.holding mixedEntries mixedBlobs).SizesFit := sizesFit_holding (by decide)
  exact (documents_parsed (.holding mixedEntries mixedBlobs) .sample
    ⟨[], [], false, 0, 0, 0, 0, 0, 0⟩ (putRequest [] [] []) sizes (by decide +kernel)
    (by decide +kernel)).1

end CixCache
