import CixCache.Document.Agreement

/-!
Contract: the signatures the documents assert.

Owns: `AssertsOnlyPresent`, documents that name no signature that is not there;
`AnsweredBy`, what resolution finds in terms of entries; `BorrowedSignature`, a
signature name that is answered by entries of other names; and that the two
exclude each other in every state.

Both documents look a signature up by resolution, which an entry of another name
may answer, and print the name they looked up.

Does not own: which artifacts the documents describe.
-/

namespace CixCache

open CixCache.Lib

/-- No document asserts a signature that is not there. -/
structure AssertsOnlyPresent (manifest : Manifest) (listing : Listing) (files : Files) : Prop where
  nested : ∀ record ∈ manifest.packages ++ manifest.installers, ∀ format ∈ record.formats,
    ∀ body, format.signature = some body → ∃ name, body.file = storeDir ++ slash :: name ∧
      published files name = some body.sha256
  signed : ∀ record ∈ listing.artifacts, ∀ format ∈ record.formats, format.signed = some true →
    (published files (format.name ++ storeSigExt)).isSome

/-- The entries that may answer for a name are published with one digest: its
canonical entry when that carries an architecture, else the canonical entry and
its spellings with one. -/
def AnsweredBy (files : Files) (name digest : Bytes) : Prop :=
  ∃ canonical, canonicalForm name = some canonical ∧
    if (storeArchOf canonical).isSome then published files canonical = some digest
    else resolvePath files (.packages canonical) ≠ .error .io ∧
      (∃ key ∈ probeNames canonical, published files key = some digest) ∧
      ∀ key ∈ probeNames canonical, ∀ other, published files key = some other → other = digest

/-- The signature of a name is answered for, and is not itself published so. -/
def BorrowedSignature (files : Files) (name : Bytes) : Prop :=
  ∃ sig digest, storeSignatureName name = some sig ∧ AnsweredBy files sig digest ∧
    published files sig ≠ some digest

section Lookup

variable {st : Store} {name digest : Bytes}

theorem storeResolve_iff_answeredBy :
    storeResolve st name = .ok digest ↔ AnsweredBy st.files name digest := by
  unfold AnsweredBy
  cases form : canonicalForm name with
  | none =>
      rw [storeResolve_of_none form]
      simp
  | some canonical =>
      simp only [Option.some.injEq, exists_eq_left']
      split
      next qualified =>
        rw [storeResolve_qualified form qualified]
        exact published_eq_some.symm
      next bare =>
        have unqualified : storeArchOf canonical = none := by simpa using bare
        constructor
        · intro resolved
          obtain ⟨readable, some, agree⟩ := candidates_of_storeResolve form unqualified resolved
          obtain ⟨candidate, inside⟩ := List.exists_mem_of_ne_nil _ some
          have probe := mem_candidates.mp inside
          rw [agree candidate inside] at probe
          refine ⟨readable, ⟨candidate.1, probe⟩, ?_⟩
          intro key member other found
          exact agree (key, other) (mem_candidates.mpr ⟨member, found⟩)
        · intro facts
          obtain ⟨readable, ⟨key, member, found⟩, agree⟩ := facts
          apply storeResolve_of_agree form unqualified readable
          · exact List.ne_nil_of_mem (mem_candidates.mpr ⟨member, found⟩)
          · intro candidate inside
            have probe := mem_candidates.mp inside
            exact agree candidate.1 probe.1 candidate.2 probe.2

/-- What the manifest nests, in terms of entries. -/
theorem signatureBody_iff {body : FileBody} :
    signatureBody st name = some body ↔ ∃ sig digest, storeSignatureName name = some sig ∧
      AnsweredBy st.files sig digest ∧
        body = fileBody sig digest ((storeBlobExists st digest).getD 0 : Nat) := by
  unfold signatureBody
  cases storeSignatureName name with
  | none => simp
  | some sig =>
      rw [Option.bind_some]
      constructor
      · intro nested
        cases resolved : storeResolve st sig with
        | error error =>
            rw [resolved] at nested
            contradiction
        | ok digest =>
            rw [resolved] at nested
            exact ⟨sig, digest, rfl, storeResolve_iff_answeredBy.mp resolved,
              (Option.some.inj nested).symm⟩
      · intro facts
        obtain ⟨other, digest, same, answered, rfl⟩ := facts
        rw [← Option.some.inj same] at answered ⊢
        rw [storeResolve_iff_answeredBy.mpr answered]

/-- What the listing calls signed, in terms of entries. -/
theorem hasSignature_iff : hasSignature st name = true ↔ ∃ sig digest,
    storeSignatureName name = some sig ∧ AnsweredBy st.files sig digest := by
  unfold hasSignature
  cases storeSignatureName name with
  | none => simp
  | some sig =>
      dsimp only
      constructor
      · intro has
        cases resolved : storeResolve st sig with
        | error error => simp [resolved] at has
        | ok digest => exact ⟨sig, digest, rfl, storeResolve_iff_answeredBy.mp resolved⟩
      · intro facts
        obtain ⟨other, digest, same, answered⟩ := facts
        rw [← Option.some.inj same] at answered
        rw [storeResolve_iff_answeredBy.mpr answered]

end Lookup

/-! ## Formats are of artifacts -/

section Formats

variable {env : DocEnv} {st : Store} {policy : SignaturePolicy}

/-- An entry that was listed, and is no signature. -/
structure ListedArtifact (st : Store) (e : StoreEntry) : Prop where
  valid : storeNameIsValid e.name = true
  unsigned : storeIsSignature e.name = false
  entry : published st.files e.name = some e.digest

theorem listedArtifact_of_mem {e : StoreEntry} (member : e ∈ (storeList env.sys st).getD [])
    (unsigned : storeIsSignature e.name = false) : ListedArtifact st e := by
  cases returned : storeList env.sys st with
  | none =>
      rw [returned] at member
      contradiction
  | some ents =>
      rw [returned, Option.getD_some] at member
      obtain ⟨names, _, rfl⟩ := storeList_some returned
      have facts := mem_storedEntries.mp member
      exact ⟨facts.2.1, unsigned, facts.2.2.1⟩

/-- Every format of the manifest is of an artifact, in any environment. -/
theorem manifest_format_of {record : ManifestRecord} {format : ManifestFormat}
    (member : record ∈ (manifestOf env st).packages ++ (manifestOf env st).installers)
    (inside : format ∈ record.formats) :
    ∃ e, ListedArtifact st e ∧ format = manifestFormat st e := by
  have inSection : ∃ installerTier,
      record ∈ manifestSection env st (manifestEntries env st) installerTier := by
    rcases List.mem_append.mp member with packages | installers
    · exact ⟨false, packages⟩
    · exact ⟨true, installers⟩
  obtain ⟨installerTier, described⟩ := inSection
  unfold manifestSection at described
  split at described
  next =>
    obtain ⟨group, grouped, rfl⟩ := List.mem_map.mp described
    obtain ⟨e, inGroup, rfl⟩ := List.mem_map.mp inside
    have row := ((stemGroups_grouping le_rfl).mem_iff.mp ⟨group, grouped, rfl, inGroup⟩).1
    rw [sectionRows_eq, Qsort.mem_sort, List.mem_filter, manifestEntries_eq, Qsort.mem_sort] at row
    exact ⟨e, listedArtifact_of_mem row.1 (by simpa using (Bool.and_eq_true_iff.mp row.2).1), rfl⟩
  next => contradiction

theorem listing_format_of {record : ListingRecord} {format : ListingFormat}
    (member : record ∈ (listingOf env policy st).artifacts) (inside : format ∈ record.formats) :
    ∃ e, ListedArtifact st e ∧ format = listingFormat policy st e := by
  unfold listingOf at member
  obtain ⟨identity, _, rfl⟩ := List.mem_map.mp member
  obtain ⟨e, row, rfl⟩ := List.mem_map.mp inside
  have live := List.mem_of_mem_drop (List.mem_of_mem_take row)
  unfold liveAndIds cmpByStem at live
  dsimp only at live
  split at live
  next =>
    rw [Qsort.mem_sort, List.mem_filter] at live
    exact ⟨e, listedArtifact_of_mem live.1 (by simpa using live.2), rfl⟩
  next => contradiction

/-- Every listed artifact has its format in the manifest. -/
theorem DocEnv.Allocates.manifest_format (allocates : env.Allocates) {names : List Bytes}
    (opened : env.sys.readdir .packages = some names) {e : StoreEntry}
    (stored : e ∈ storedEntries env.sys st names) (unsigned : storeIsSignature e.name = false) :
    ∃ record ∈ (manifestOf env st).packages ++ (manifestOf env st).installers,
      manifestFormat st e ∈ record.formats := by
  have row : e ∈ sectionRows env (manifestEntries env st) (storeIsInstaller e.name) := by
    rw [sectionRows_eq, Qsort.mem_sort, List.mem_filter, manifestEntries_eq, Qsort.mem_sort,
      storeList_eq allocates.grows opened, Option.getD_some]
    exact ⟨stored, by simp [unsigned]⟩
  obtain ⟨group, grouped, _, inGroup⟩ := (stemGroups_grouping le_rfl).mem_iff.mpr ⟨row, rfl⟩
  have inSection : manifestRecord st group ∈
      manifestSection env st (manifestEntries env st) (storeIsInstaller e.name) := by
    rw [manifestSection_eq allocates]
    exact List.mem_map_of_mem grouped
  refine ⟨manifestRecord st group, ?_, List.mem_map_of_mem inGroup⟩
  cases tier : storeIsInstaller e.name with
  | false =>
      rw [tier] at inSection
      exact List.mem_append_left _ inSection
  | true =>
      rw [tier] at inSection
      exact List.mem_append_right _ inSection

theorem DocEnv.Sees.manifest_format (sees : env.Sees st) {facts : FileFacts}
    (artifact : Artifact st facts) :
    ∃ record ∈ (manifestOf env st).packages ++ (manifestOf env st).installers,
      ∃ format ∈ record.formats, format.signature = signatureBody st facts.name := by
  obtain ⟨names, opened⟩ := Option.isSome_iff_exists.mp sees.opens
  obtain ⟨e, stored, unsigned, rfl⟩ := (sees.artifact_iff opened).mp artifact
  obtain ⟨record, member, inside⟩ := sees.allocates.manifest_format opened stored unsigned
  exact ⟨record, member, manifestFormat st e, inside, rfl⟩

/-- Every listed artifact has its format in the listing. -/
theorem DocEnv.Allocates.listing_format (allocates : env.Allocates) (policy : SignaturePolicy)
    {names : List Bytes} (opened : env.sys.readdir .packages = some names) {e : StoreEntry}
    (stored : e ∈ storedEntries env.sys st names) (unsigned : storeIsSignature e.name = false) :
    ∃ record ∈ (listingOf env policy st).artifacts, ∃ format ∈ record.formats,
      format.name = e.name ∧ (hasSignature st e.name = true → format.signed = some true) := by
  obtain ⟨rows, groups, same, _, grouping, _, _, described⟩ := allocates.listing_groups policy opened
  have row : e ∈ rows := by
    rw [same.mem_iff, List.mem_filter]
    exact ⟨stored, by simp [unsigned]⟩
  obtain ⟨group, grouped, _, inGroup⟩ := grouping.mem_iff.mpr ⟨row, rfl⟩
  have inFacts := described.mem_iff.mpr (List.mem_map_of_mem grouped)
  obtain ⟨record, member, isGroup⟩ := List.mem_map.mp inFacts
  have isFacts := congrArg Prod.snd isGroup
  have inRecord : e.facts ∈ record.formats.map ListingFormat.facts := by
    rw [show record.formats.map ListingFormat.facts = group.2.map StoreEntry.facts from isFacts]
    exact List.mem_map_of_mem inGroup
  obtain ⟨format, inside, sameFacts⟩ := List.mem_map.mp inRecord
  have sameName : format.name = e.name := congrArg FileFacts.name sameFacts
  refine ⟨record, member, format, inside, sameName, ?_⟩
  intro has
  obtain ⟨other, _, rfl⟩ := listing_format_of member inside
  have hasOther : hasSignature st other.name = true := by
    rw [show other.name = e.name from sameName]
    exact has
  unfold listingFormat
  dsimp only
  rw [hasOther, if_pos (by simp)]

end Formats

/-! ## Documents assert exactly what resolution finds -/

section Assertions

variable {st : Store} {policy : SignaturePolicy}

/-- Without borrowed signatures the documents assert what is there, whatever the
environment. -/
theorem assertsOnlyPresent_of_unborrowed
    (unborrowed : ∀ facts, Artifact st facts → ¬ BorrowedSignature st.files facts.name)
    (manifestEnv listingEnv : DocEnv) :
    AssertsOnlyPresent (manifestOf manifestEnv st) (listingOf listingEnv policy st) st.files := by
  have own : ∀ e, ListedArtifact st e → ∀ sig digest, storeSignatureName e.name = some sig →
      AnsweredBy st.files sig digest → published st.files sig = some digest := by
    intro e listed sig digest found answered
    by_contra missing
    apply unborrowed ⟨e.name, (storeSuffixOf e.name).getD [], e.digest,
      offT (storeBlobExists st e.digest)⟩
    · exact ⟨listed.valid, listed.unsigned, listed.entry, storeSuffixOf_valid listed.valid, rfl⟩
    · exact ⟨sig, digest, found, answered, missing⟩
  constructor
  · intro record member format inside body nested
    obtain ⟨e, listed, rfl⟩ := manifest_format_of member inside
    obtain ⟨sig, digest, found, answered, rfl⟩ := signatureBody_iff.mp nested
    exact ⟨sig, fileText_of_lt (storeSignatureName_some found).2.2.2,
      own e listed sig digest found answered⟩
  · intro record member format inside signed
    obtain ⟨e, listed, rfl⟩ := listing_format_of member inside
    have has : hasSignature st e.name = true := by
      unfold listingFormat at signed
      dsimp only at signed
      split at signed
      next => exact Option.some.inj signed
      next => contradiction
    obtain ⟨sig, digest, found, answered⟩ := hasSignature_iff.mp has
    show (published st.files (e.name ++ storeSigExt)).isSome
    rw [← (storeSignatureName_some found).2.2.1, own e listed sig digest found answered]
    rfl

/-- A borrowed signature is asserted by any manifest that lists the store. -/
theorem unborrowed_of_assertsOnlyPresent {manifestEnv : DocEnv} (sees : manifestEnv.Sees st)
    {listing : Listing} (asserts : AssertsOnlyPresent (manifestOf manifestEnv st) listing st.files)
    {facts : FileFacts} (artifact : Artifact st facts) :
    ¬ BorrowedSignature st.files facts.name := by
  intro borrowed
  obtain ⟨sig, digest, found, answered, missing⟩ := borrowed
  obtain ⟨record, member, format, inside, nested⟩ := sees.manifest_format artifact
  rw [signatureBody_iff.mpr ⟨sig, digest, found, answered, rfl⟩] at nested
  obtain ⟨name, file, present⟩ := asserts.nested record member format inside _ nested
  have same : storeDir ++ slash :: sig = storeDir ++ slash :: name := by
    rw [← fileText_of_lt (storeSignatureName_some found).2.2.2]
    exact file
  have isSig : sig = name := by simpa using same
  rw [← isSig] at present
  exact missing present

/-- In every state a server reaches, its documents assert only signatures that are
there exactly when no artifact's signature is borrowed. -/
theorem assertsOnlyPresent_iff {conf : Conf} {sha : Sha256sum} {server : Server}
    {events : List (Sys × ServerEvent)} {env : DocEnv}
    (listable : env.Sees (run (serverStep conf sha) server events).store) :
    (∀ manifestEnv listingEnv,
      AssertsOnlyPresent (manifestOf manifestEnv (run (serverStep conf sha) server events).store)
        (listingOf listingEnv conf.policy (run (serverStep conf sha) server events).store)
        (run (serverStep conf sha) server events).store.files) ↔
      ∀ facts, Artifact (run (serverStep conf sha) server events).store facts →
        ¬ BorrowedSignature (run (serverStep conf sha) server events).store.files facts.name := by
  constructor
  · intro asserts facts artifact
    exact unborrowed_of_assertsOnlyPresent listable (asserts env env) artifact
  · intro unborrowed manifestEnv listingEnv
    exact assertsOnlyPresent_of_unborrowed unborrowed manifestEnv listingEnv

end Assertions

/-! ### The signature of another machine's archive -/

/-- A server on an empty root after a bare archive and the signature of another
machine's were pushed. -/
def borrowingServer : Server :=
  run (serverStep .sample .sample) (.start (Store.holding [] []))
    (calmly (putEvents 0 (ascii "foo-1-1.tar.gz") (ascii "a") ++
      putEvents 1 (ascii "foo-1-1-x86_64.tar.gz.minisig") (ascii "b")))

/-- The manifest nests packages/foo-1-1.tar.gz.minisig, and the listing calls the
archive signed; no entry of that name is published. -/
theorem borrowed_signature_asserted :
    published borrowingServer.store.files (ascii "foo-1-1.tar.gz.minisig") = none ∧
      ¬ AssertsOnlyPresent
        (manifestOf (.listing [ascii "foo-1-1.tar.gz", ascii "foo-1-1-x86_64.tar.gz.minisig"])
          borrowingServer.store)
        (listingOf (.listing [ascii "foo-1-1.tar.gz", ascii "foo-1-1-x86_64.tar.gz.minisig"])
          Conf.sample.policy borrowingServer.store) borrowingServer.store.files := by
  obtain ⟨absent, entry, has⟩ :
      published borrowingServer.store.files (ascii "foo-1-1.tar.gz.minisig") = none ∧
        published borrowingServer.store.files (ascii "foo-1-1.tar.gz") =
          some (Sha256sum.sample.digest (ascii "a")) ∧
        hasSignature borrowingServer.store (ascii "foo-1-1.tar.gz") = true := by
    decide +kernel
  have allocates : (DocEnv.listing [ascii "foo-1-1.tar.gz",
      ascii "foo-1-1-x86_64.tar.gz.minisig"]).Allocates := ⟨fun _ => rfl, fun _ => rfl⟩
  have valid : storeNameIsValid (ascii "foo-1-1.tar.gz") = true := by decide
  have unsigned : storeIsSignature (ascii "foo-1-1.tar.gz") = false := by decide
  refine ⟨absent, ?_⟩
  intro asserts
  generalize borrowingServer.store = st at absent entry has asserts
  have stored : entryOf (DocEnv.listing [ascii "foo-1-1.tar.gz",
      ascii "foo-1-1-x86_64.tar.gz.minisig"]).sys st
        (ascii "foo-1-1.tar.gz", Sha256sum.sample.digest (ascii "a")) ∈
      storedEntries (DocEnv.listing [ascii "foo-1-1.tar.gz",
        ascii "foo-1-1-x86_64.tar.gz.minisig"]).sys st
        [ascii "foo-1-1.tar.gz", ascii "foo-1-1-x86_64.tar.gz.minisig"] :=
    mem_storedEntries.mpr ⟨List.mem_cons_self, valid, entry, rfl⟩
  obtain ⟨record, member, format, inside, same, signed⟩ :=
    allocates.listing_format Conf.sample.policy rfl stored unsigned
  have present := asserts.signed record member format inside (signed has)
  rw [same] at present
  have isSig : ascii "foo-1-1.tar.gz" ++ storeSigExt = ascii "foo-1-1.tar.gz.minisig" := by
    decide
  rw [show (entryOf _ st _).name = ascii "foo-1-1.tar.gz" from rfl, isSig, absent] at present
  contradiction

theorem orphan_unborrowed : ∀ facts, Artifact (Store.holding orphanEntries orphanBlobs) facts →
    ¬ BorrowedSignature (Store.holding orphanEntries orphanBlobs).files facts.name := by
  intro facts artifact borrowed
  obtain ⟨sig, digest, found, answered, missing⟩ := borrowed
  have signed : published (Store.holding orphanEntries orphanBlobs).files
      (ascii "foo-1-1.tar.gz.minisig") = some (List.replicate 64 98) := by
    decide
  have resolved : storeResolve (Store.holding orphanEntries orphanBlobs)
      (ascii "foo-1-1.tar.gz.minisig") = .ok (List.replicate 64 98) := by
    decide +kernel
  have isArchive : facts.name = ascii "foo-1-1.tar.gz" := by
    by_contra other
    have present : facts.name = ascii "foo-1-1.tar.gz.minisig" := by
      by_contra neither
      have absent : (Store.holding orphanEntries orphanBlobs).files (.packages facts.name) = none := by
        show (orphanEntries.lookup facts.name).map _ = none
        unfold orphanEntries
        rw [List.lookup_cons, beq_false_of_ne other]
        dsimp only
        rw [List.lookup_cons, beq_false_of_ne neither]
        rfl
      have nothing := artifact.entry
      rw [published_of_absent absent] at nothing
      contradiction
    have unsigned := artifact.unsigned
    rw [present] at unsigned
    revert unsigned
    decide
  have isSig : sig = ascii "foo-1-1.tar.gz.minisig" := by
    rw [(storeSignatureName_some found).2.2.1, isArchive]
    decide
  have same := storeResolve_iff_answeredBy.mpr answered
  rw [isSig] at same missing
  rw [resolved] at same
  exact missing (signed.trans (congrArg some (Except.ok.inj same)))

/-- An archive whose own signature is published is called signed rightly. -/
theorem own_signature_asserted :
    AssertsOnlyPresent (manifestOf (.holding orphanEntries orphanBlobs)
        (Store.holding orphanEntries orphanBlobs))
      (listingOf (.holding orphanEntries orphanBlobs) Conf.sample.policy
        (Store.holding orphanEntries orphanBlobs))
      (Store.holding orphanEntries orphanBlobs).files := by
  have listable : (DocEnv.holding orphanEntries orphanBlobs).Sees
      (run (serverStep .sample .sample) (.start (Store.holding orphanEntries orphanBlobs)) []).store :=
    DocEnv.sees_holding (by decide) (by decide)
  exact (assertsOnlyPresent_iff listable).mpr orphan_unborrowed _ _

end CixCache
