import Mathlib.Algebra.BigOperators.Group.List.Basic
import Mathlib.Algebra.Group.Int.Defs
import CixCache.Document.Listing
import CixCache.Document.Manifest
import CixCache.Document.Status
import CixCache.Server.Reactor

/-!
Contract: the manifest, the listing and the status describe one store.

Owns: `FileFacts`, what a document says of a file; `Describes`, records that
describe exactly the artifacts of a store, each once, under its stem; and that
the two sections and the listing do, and that the counters add up with them.

The documents may be put together in three environments: each reads the
directory in its own order, with its own sorting routine.

Does not own: the order of a document, or what it says of signatures.
-/

namespace CixCache

open CixCache.Lib

/-! ## What is described -/

/-- What both documents say of a file. -/
structure FileFacts where
  name : Bytes
  suffix : Bytes
  digest : Bytes
  size : Int
deriving DecidableEq, Repr

/-- A published entry that is no signature. -/
structure Artifact (st : Store) (facts : FileFacts) : Prop where
  valid : storeNameIsValid facts.name = true
  unsigned : storeIsSignature facts.name = false
  entry : published st.files facts.name = some facts.digest
  suffix : storeSuffixOf facts.name = some facts.suffix
  size : facts.size = offT (storeBlobExists st facts.digest)

/-- Records that describe the artifacts of a kind: no key twice, no file twice,
and each under the key that is its stem. -/
structure Describes (st : Store) (kind : Bytes → Prop) (records : List (Bytes × List FileFacts)) :
    Prop where
  keys : (records.map Prod.fst).Nodup
  names : ((records.flatMap Prod.snd).map FileFacts.name).Nodup
  exact : ∀ key facts, (∃ record ∈ records, record.1 = key ∧ facts ∈ record.2) ↔
    Artifact st facts ∧ kind facts.name ∧ key = storeStemOf facts.name

def ManifestFormat.facts (format : ManifestFormat) : FileFacts :=
  ⟨format.body.file.drop (storeDir.length + 1), format.format, format.body.sha256,
    format.body.bytes⟩

/-- The records of a section. -/
def sectionFacts (records : List ManifestRecord) : List (Bytes × List FileFacts) :=
  records.map fun record => (record.key, record.formats.map ManifestFormat.facts)

def ListingFormat.facts (format : ListingFormat) : FileFacts :=
  ⟨format.name, format.format, format.sha256, format.bytes⟩

def Listing.facts (listing : Listing) : List (Bytes × List FileFacts) :=
  listing.artifacts.map fun record => (record.stem, record.formats.map ListingFormat.facts)

/-- The signatures of a store, in some order. -/
structure SignatureEntries (st : Store) (entries : List (Bytes × Bytes)) : Prop where
  distinct : entries.Nodup
  exact : ∀ name digest, (name, digest) ∈ entries ↔
    storeNameIsValid name = true ∧ storeIsSignature name = true ∧
      published st.files name = some digest

/-- The size of a blob; a dangling entry counts as 0. -/
def sizeThere (st : Store) (digest : Bytes) : Int := ((storeBlobExists st digest).getD 0 : Nat)

/-- The environment lists the store: packages/ can be opened, `readdir` yields
what is there, and arrays can be had. -/
structure DocEnv.Sees (env : DocEnv) (st : Store) : Prop where
  allocates : env.Allocates
  opens : (env.sys.readdir .packages).isSome
  listing : env.sys.Listing st.files .packages

/-! ## Entries and their facts -/

def StoreEntry.facts (e : StoreEntry) : FileFacts :=
  ⟨e.name, (storeSuffixOf e.name).getD [], e.digest, e.size⟩

section Entries

variable {env : DocEnv} {st : Store} {names : List Bytes}

theorem storeSuffixOf_valid {name : Bytes} (valid : storeNameIsValid name = true) :
    storeSuffixOf name = some ((storeSuffixOf name).getD []) := by
  obtain ⟨suffix, found⟩ := Option.isSome_iff_exists.mp (storeNameIsValid_iff.mp valid).2.2
  rw [found]
  rfl

/-- The listed entries that are no signatures are the artifacts. -/
theorem DocEnv.Sees.artifact_iff (sees : env.Sees st)
    (opened : env.sys.readdir .packages = some names) {facts : FileFacts} :
    Artifact st facts ↔ ∃ e ∈ storedEntries env.sys st names,
      storeIsSignature e.name = false ∧ e.facts = facts := by
  constructor
  · intro artifact
    have present : (st.files (.packages facts.name)).isSome := by
      by_contra absent
      have missing : published st.files facts.name = none :=
        published_of_absent (by simpa using absent)
      rw [artifact.entry] at missing
      contradiction
    have inside := ((sees.listing names opened).2 facts.name).mpr (Or.inl present)
    refine ⟨entryOf env.sys st (facts.name, facts.digest), ?_, artifact.unsigned, ?_⟩
    · exact mem_storedEntries.mpr ⟨inside, artifact.valid, artifact.entry, rfl⟩
    · show (⟨facts.name, (storeSuffixOf facts.name).getD [], facts.digest,
        offT (storeBlobExists st facts.digest)⟩ : FileFacts) = facts
      rw [artifact.suffix, ← artifact.size]
      rfl
  · intro found
    obtain ⟨e, member, unsigned, rfl⟩ := found
    have stored := mem_storedEntries.mp member
    exact ⟨stored.2.1, unsigned, stored.2.2.1, storeSuffixOf_valid stored.2.1, by
      show e.size = _
      rw [stored.2.2.2]
      rfl⟩

/-- Rows of a kind, grouped by stem in the order of their stems, describe it. -/
theorem DocEnv.Sees.describes (sees : env.Sees st) (opened : env.sys.readdir .packages = some names)
    (keep : Bytes → Bool) {rows : List StoreEntry} {groups : List (Bytes × List StoreEntry)}
    (same : rows.Perm ((storedEntries env.sys st names).filter fun e =>
      !storeIsSignature e.name && keep e.name))
    (ordered : Ascending stemThenName rows)
    (grouping : Grouping (fun e => storeStemOf e.name) rows groups) :
    Describes st (fun name => keep name = true)
      (groups.map fun group => (group.1, group.2.map StoreEntry.facts)) where
  keys := by
    rw [List.map_map]
    have stems : Ascending strcmp (rows.map fun e => storeStemOf e.name) := by
      unfold Ascending
      rw [List.pairwise_map]
      exact ordered.imp stemThenName_stems
    exact grouping.nodup_keys stems
  names := by
    have whole : ((groups.map fun group => (group.1, group.2.map StoreEntry.facts)).flatMap
        Prod.snd).map FileFacts.name = rows.map StoreEntry.name := by
      rw [← grouping.covers, List.flatMap_map, List.map_flatMap, List.map_flatMap]
      simp only [List.map_map]
      rfl
    rw [whole]
    have distinct : ((storedEntries env.sys st names).map StoreEntry.name).Nodup :=
      storedEntries_nodup (sees.listing names opened).1
    have kept : (((storedEntries env.sys st names).filter fun e =>
        !storeIsSignature e.name && keep e.name).map StoreEntry.name).Nodup :=
      distinct.sublist (List.filter_sublist.map StoreEntry.name)
    exact (same.map StoreEntry.name).nodup_iff.mpr kept
  exact := by
    intro key facts
    have inRows : ∀ e, e ∈ rows ↔ e ∈ storedEntries env.sys st names ∧
        storeIsSignature e.name = false ∧ keep e.name = true := by
      intro e
      rw [same.mem_iff, List.mem_filter]
      simp
    rw [sees.artifact_iff opened]
    constructor
    · intro found
      obtain ⟨record, member, isKey, inside⟩ := found
      obtain ⟨group, grouped, rfl⟩ := List.mem_map.mp member
      obtain ⟨e, inGroup, rfl⟩ := List.mem_map.mp inside
      have row := grouping.mem_iff.mp ⟨group, grouped, isKey, inGroup⟩
      have facts := (inRows e).mp row.1
      exact ⟨⟨e, facts.1, facts.2.1, rfl⟩, facts.2.2, row.2⟩
    · intro described
      obtain ⟨⟨e, stored, unsigned, rfl⟩, kind, isKey⟩ := described
      obtain ⟨group, grouped, sameKey, inGroup⟩ :=
        grouping.mem_iff.mpr ⟨(inRows e).mpr ⟨stored, unsigned, kind⟩, isKey⟩
      exact ⟨_, List.mem_map_of_mem grouped, sameKey, List.mem_map_of_mem inGroup⟩

end Entries

theorem Describes.perm {st : Store} {kind : Bytes → Prop} {left right : List (Bytes × List FileFacts)}
    (same : left.Perm right) (described : Describes st kind left) : Describes st kind right where
  keys := (same.map Prod.fst).nodup_iff.mp described.keys
  names := ((same.flatMap_right Prod.snd).map FileFacts.name).nodup_iff.mp described.names
  exact := by
    intro key facts
    rw [← described.exact]
    simp only [same.mem_iff]

/-! ## The manifest and the listing describe the artifacts -/

section Documents

variable {env : DocEnv} {st : Store} {policy : SignaturePolicy}

theorem manifestFormat_facts (st : Store) {e : StoreEntry}
    (valid : storeNameIsValid e.name = true) : (manifestFormat st e).facts = e.facts := by
  unfold ManifestFormat.facts manifestFormat fileBody
  dsimp only
  rw [fileText_of_lt (storeNameIsValid.length_lt valid), ← List.drop_drop, List.drop_left]
  rfl

/-- The rows of a section, and of the listing, are stored entries. -/
theorem stored_of_group {names : List Bytes} {keep : StoreEntry → Bool} {rows : List StoreEntry}
    {groups : List (Bytes × List StoreEntry)}
    (same : rows.Perm ((storedEntries env.sys st names).filter keep))
    (grouping : Grouping (fun e => storeStemOf e.name) rows groups) :
    ∀ group ∈ groups, ∀ e ∈ group.2, storeNameIsValid e.name = true := by
  intro group grouped e member
  have row : e ∈ rows := (grouping.mem_iff.mp ⟨group, grouped, rfl, member⟩).1
  exact (mem_storedEntries.mp (List.mem_of_mem_filter (same.mem_iff.mp row))).2.1

theorem DocEnv.Sees.describes_section (sees : env.Sees st) (installerTier : Bool) :
    Describes st (fun name => (storeIsInstaller name == installerTier) = true)
      (sectionFacts (manifestSection env st (manifestEntries env st) installerTier)) := by
  obtain ⟨names, opened⟩ := Option.isSome_iff_exists.mp sees.opens
  have stored : storeList env.sys st = some (storedEntries env.sys st names) :=
    storeList_eq sees.allocates.grows opened
  have entries : (manifestEntries env st).Perm (storedEntries env.sys st names) := by
    rw [manifestEntries_eq, stored]
    exact env.routine.perm storeCmpName _
  have rows : (sectionRows env (manifestEntries env st) installerTier).Perm
      ((storedEntries env.sys st names).filter fun e =>
        !storeIsSignature e.name && storeIsInstaller e.name == installerTier) := by
    rw [sectionRows_eq]
    exact (env.routine.perm stemThenName _).trans (entries.filter _)
  have ordered : Ascending stemThenName
      (sectionRows env (manifestEntries env st) installerTier) := by
    rw [sectionRows_eq]
    exact env.routine.ascending stemThenName _
  have grouping := stemGroups_grouping
    (le_refl (sectionRows env (manifestEntries env st) installerTier).length)
  have described := sees.describes opened (fun name => storeIsInstaller name == installerTier)
    rows ordered grouping
  rw [manifestSection_eq sees.allocates, sectionFacts, List.map_map]
  convert described using 1
  apply List.map_congr_left
  intro group grouped
  show (group.1, (group.2.map (manifestFormat st)).map ManifestFormat.facts) = _
  rw [List.map_map]
  congr 1
  apply List.map_congr_left
  intro e member
  exact manifestFormat_facts st (stored_of_group rows grouping group grouped e member)

/-- The listing has a record for each group of the artifacts. -/
theorem DocEnv.Allocates.listing_groups (allocates : env.Allocates) (policy : SignaturePolicy)
    {names : List Bytes} (opened : env.sys.readdir .packages = some names) :
    ∃ rows groups, rows.Perm ((storedEntries env.sys st names).filter fun e =>
        !storeIsSignature e.name) ∧
      Ascending stemThenName rows ∧ Grouping (fun e => storeStemOf e.name) rows groups ∧
      (listingOf env policy st).files = rows.length ∧
      (listingOf env policy st).bytes = presentBytes rows ∧
      (listingOf env policy st).facts.Perm
        (groups.map fun group => (group.1, group.2.map StoreEntry.facts)) := by
  have stored : storeList env.sys st = some (storedEntries env.sys st names) :=
    storeList_eq allocates.grows opened
  have shape := liveAndIds_eq allocates st
  rw [stored, Option.getD_some] at shape
  dsimp only at shape
  generalize live : env.routine.sort stemThenName
    ((storedEntries env.sys st names).filter fun e => !storeIsSignature e.name) = rows at shape
  have perm : rows.Perm ((storedEntries env.sys st names).filter fun e =>
      !storeIsSignature e.name) := by
    rw [← live]
    exact env.routine.perm stemThenName _
  have ordered : Ascending stemThenName rows := by
    rw [← live]
    exact env.routine.ascending stemThenName _
  obtain ⟨groups, grouping, built⟩ := buildIdentities_groups rows
  have arranged := env.routine.perm cmpIdentityNewest (rankIdentities env (buildIdentities rows))
  refine ⟨rows, groups, perm, ordered, grouping, ?_, ?_, ?_⟩
  · unfold listingOf
    rw [shape]
  · unfold listingOf
    rw [shape]
    dsimp only
    rw [foldl_bytes, (arranged.map Identity.bytes).sum_eq,
      rankIdentities_map env Identity.bytes (fun _ _ => rfl), built, identitiesOf_bytes,
      grouping.covers]
  · have files := identitiesOf_files [] groups
    rw [List.nil_append, grouping.covers, List.length_nil, ← built] at files
    have read := rankIdentities_map env (fun identity => (identity.stem,
      ((rows.drop identity.first).take identity.n).map StoreEntry.facts)) (fun _ _ => rfl)
      (buildIdentities rows)
    have described : (listingOf env policy st).facts =
        (env.routine.sort cmpIdentityNewest (rankIdentities env (buildIdentities rows))).map
          fun identity => (identity.stem,
            ((rows.drop identity.first).take identity.n).map StoreEntry.facts) := by
      unfold Listing.facts listingOf
      rw [shape, List.map_map]
      apply List.map_congr_left
      intro identity _
      show (identity.stem, List.map _ (List.map (listingFormat policy st) _)) = _
      rw [List.map_map]
      rfl
    rw [described]
    refine (arranged.map _).trans ?_
    rw [read]
    conv_rhs => rw [← files, List.map_map]
    exact List.Perm.refl _

/-- The listing describes every artifact. -/
theorem DocEnv.Sees.describes_listing (sees : env.Sees st) (policy : SignaturePolicy) :
    Describes st (fun _ => True) (listingOf env policy st).facts := by
  obtain ⟨names, opened⟩ := Option.isSome_iff_exists.mp sees.opens
  obtain ⟨rows, groups, same, ordered, grouping, _, _, described⟩ :=
    sees.allocates.listing_groups policy opened
  have all := sees.describes opened (fun _ => true) (by simpa using same) ordered grouping
  have every := all.perm described.symm
  exact ⟨every.keys, every.names, by simpa using every.exact⟩

end Documents

/-! ## The counters add up -/

section Counters

variable {env other : DocEnv} {st : Store} {names others : List Bytes}

/-- Two environments report the same entries. -/
theorem DocEnv.Sees.listed_perm (sees : env.Sees st) (otherSees : other.Sees st)
    (opened : env.sys.readdir .packages = some names)
    (otherOpened : other.sys.readdir .packages = some others) :
    (listed st.files names).Perm (listed st.files others) := by
  have left := sees.listing names opened
  have right := otherSees.listing others otherOpened
  have same : names.Perm others := by
    rw [List.perm_ext_iff_of_nodup left.1 right.1]
    intro name
    rw [left.2, right.2]
  exact (same.filter _).filterMap _

theorem countP_stored (sys : Sys) (st : Store) (names : List Bytes) (keep : Bytes → Bool) :
    (storedEntries sys st names).countP (fun e => keep e.name) =
      (listed st.files names).countP fun entry => keep entry.1 := by
  rw [storedEntries, List.countP_map]
  rfl

theorem presentBytes_stored (sys : Sys) (st : Store) (names : List Bytes) (keep : Bytes → Bool) :
    presentBytes ((storedEntries sys st names).filter fun e => keep e.name) =
      (((listed st.files names).filter fun entry => keep entry.1).map fun entry =>
        sizeThere st entry.2).sum := by
  unfold presentBytes
  rw [storedEntries, List.filter_map, List.map_map]
  congr 1
  apply List.map_congr_left
  intro entry _
  show (if offT (storeBlobExists st entry.2) > 0 then offT (storeBlobExists st entry.2) else 0) =
    sizeThere st entry.2
  unfold sizeThere
  cases storeBlobExists st entry.2 with
  | none => rfl
  | some size =>
      show (if (size : Int) > 0 then (size : Int) else 0) = (size : Int)
      split <;> omega

/-- A list splits into what is kept and what is not. -/
theorem sum_filter_add {α : Type} (entries : List α) (keep : α → Bool) (value : α → Int) :
    ((entries.filter keep).map value).sum + ((entries.filter fun entry => !keep entry).map
      value).sum = (entries.map value).sum := by
  rw [← List.sum_append, ← List.map_append]
  exact ((List.filter_append_perm keep entries).map value).sum_eq

/-- Counting by tier counts everything. -/
theorem countP_tiers (entries : List StoreEntry) (counts installer : Bytes → Bool) :
    (entries.countP fun e => counts e.name && installer e.name == false) +
      (entries.countP fun e => counts e.name && installer e.name == true) =
        entries.countP fun e => counts e.name := by
  induction entries with
  | nil => rfl
  | cons e rest inductionHypothesis =>
      simp only [List.countP_cons, ← inductionHypothesis]
      cases counts e.name <;> cases installer e.name <;> simp <;> omega

/-- Bytes of packages and of installers are the bytes of everything. -/
theorem statusBytes_eq (opened : env.sys.readdir .packages = some names) :
    (statusCounters env.sys st).bytes + (statusCounters env.sys st).installerBytes =
      ((listed st.files names).map fun entry => sizeThere st entry.2).sum := by
  have counted : Counted (statusCounters env.sys st) (storedEntries env.sys st names) :=
    statusCounters_counted opened
  rw [counted.bytes, counted.installerBytes,
    presentBytes_stored env.sys st names fun name => storeIsInstaller name == false,
    presentBytes_stored env.sys st names fun name => storeIsInstaller name == true,
    ← sum_filter_add (listed st.files names) (fun entry => storeIsInstaller entry.1 == false)]
  congr 3
  apply List.filter_congr
  intro entry _
  cases storeIsInstaller entry.1 <;> rfl

/-- The signatures among the listed entries. -/
theorem DocEnv.Sees.signatureEntries (sees : env.Sees st)
    (opened : env.sys.readdir .packages = some names) :
    SignatureEntries st ((listed st.files names).filter fun entry => storeIsSignature entry.1) where
  distinct := by
    have distinct : ((storedEntries env.sys st names).map StoreEntry.name).Nodup :=
      storedEntries_nodup (sees.listing names opened).1
    rw [storedEntries, List.map_map] at distinct
    exact (List.Nodup.of_map _ distinct).filter _
  exact := by
    intro name digest
    rw [List.mem_filter, mem_listed]
    constructor
    · intro facts
      exact ⟨facts.1.2.1, facts.2, facts.1.2.2⟩
    · intro facts
      have present : (st.files (.packages name)).isSome := by
        by_contra absent
        have missing : published st.files name = none :=
          published_of_absent (by simpa using absent)
        rw [facts.2.2] at missing
        contradiction
      have inside := ((sees.listing names opened).2 name).mpr (Or.inl present)
      exact ⟨⟨inside, facts.1, facts.2.2⟩, facts.2.1⟩

end Counters

/-- The manifest, the listing and the status describe the same store: every
artifact once in each document, under its stem, with the same facts, and counters
that add up. -/
theorem documents_describe_one_store {manifestEnv listingEnv statusEnv : DocEnv} {conf : Conf}
    {st : Store} (manifestSees : manifestEnv.Sees st) (listingSees : listingEnv.Sees st)
    (statusSees : statusEnv.Sees st) (facts : ServerFacts) (req : HttpRequest) :
    ((manifestWriteJson manifestEnv st jwInit).buf = (manifestOf manifestEnv st).json.text ∧
      (apiArtifacts listingEnv conf.policy st jwInit).buf =
        (listingOf listingEnv conf.policy st).json.text ∧
      (apiStatus statusEnv conf facts req st jwInit).buf =
        (statusOf statusEnv conf facts req st).json.text) ∧
      Describes st (fun name => storeIsInstaller name = false)
        (sectionFacts (manifestOf manifestEnv st).packages) ∧
      Describes st (fun name => storeIsInstaller name = true)
        (sectionFacts (manifestOf manifestEnv st).installers) ∧
      Describes st (fun _ => True) (listingOf listingEnv conf.policy st).facts ∧
      (listingOf listingEnv conf.policy st).files =
        (statusOf statusEnv conf facts req st).packages +
          (statusOf statusEnv conf facts req st).installers ∧
      ∃ signatures, SignatureEntries st signatures ∧
        (statusOf statusEnv conf facts req st).packageBytes +
            (statusOf statusEnv conf facts req st).installerBytes =
          (listingOf listingEnv conf.policy st).bytes +
            (signatures.map fun entry => sizeThere st entry.2).sum := by
  obtain ⟨names, opened⟩ := Option.isSome_iff_exists.mp statusSees.opens
  obtain ⟨others, otherOpened⟩ := Option.isSome_iff_exists.mp listingSees.opens
  have same := listingSees.listed_perm statusSees otherOpened opened
  obtain ⟨rows, groups, live, _, _, files, bytes, _⟩ :=
    listingSees.allocates.listing_groups conf.policy otherOpened
  have packages := manifestSees.describes_section false
  have installers := manifestSees.describes_section true
  simp only [beq_iff_eq] at packages installers
  refine ⟨⟨(writes_manifest _ _).document, (writes_listing _ _ _).document,
    (writes_status _ _ _ _ _).document⟩, packages, installers,
    listingSees.describes_listing conf.policy, ?_, _, listingSees.signatureEntries otherOpened, ?_⟩
  · have counted : Counted (statusCounters statusEnv.sys st) (storedEntries statusEnv.sys st names) :=
      statusCounters_counted opened
    show _ = (statusCounters statusEnv.sys st).count + (statusCounters statusEnv.sys st).installers
    rw [files, counted.count, counted.installers,
      countP_tiers _ (fun name => !storeIsSignature name) storeIsInstaller, live.length_eq,
      ← List.countP_eq_length_filter, countP_stored listingEnv.sys st others fun name =>
        !storeIsSignature name, countP_stored statusEnv.sys st names fun name =>
        !storeIsSignature name]
    exact same.countP_eq _
  · show (statusCounters statusEnv.sys st).bytes + (statusCounters statusEnv.sys st).installerBytes =
      _
    have liveBytes : presentBytes rows = presentBytes
        ((storedEntries listingEnv.sys st others).filter fun e => !storeIsSignature e.name) :=
      (live.map _).sum_eq
    rw [statusBytes_eq opened, bytes, liveBytes,
      presentBytes_stored listingEnv.sys st others fun name => !storeIsSignature name,
      ← (same.map fun entry => sizeThere st entry.2).sum_eq,
      ← sum_filter_add (listed st.files others) fun entry => storeIsSignature entry.1]
    exact add_comm _ _

/-! ### Two encodings, a signature and a dangling installer -/

/-- The environment of a store that holds these entries and blobs. -/
def DocEnv.holding (entries blobs : List (Bytes × Bytes)) : DocEnv :=
  ⟨Sys.holding entries blobs, .insertion, fun _ => true⟩

theorem DocEnv.sees_holding {entries blobs : List (Bytes × Bytes)}
    (entriesNodup : ([dot] :: [dot, dot] :: entries.map Prod.fst).Nodup)
    (blobsNodup : ([dot] :: [dot, dot] :: blobs.map Prod.fst).Nodup) :
    (DocEnv.holding entries blobs).Sees (Store.holding entries blobs) where
  allocates := ⟨fun _ => rfl, fun _ => rfl⟩
  opens := rfl
  listing := Sys.listing_holding entriesNodup blobsNodup .packages

def mixedEntries : List (Bytes × Bytes) :=
  [(ascii "foo-1-1.tar.gz", List.replicate 64 97), (ascii "foo-1-1.iso", List.replicate 64 98),
    (ascii "foo-1-1.tar.gz.minisig", List.replicate 64 99),
    (ascii "foo-1-1.cixpkg", List.replicate 64 100)]

def mixedBlobs : List (Bytes × Bytes) :=
  [(List.replicate 64 97, ascii "archive"), (List.replicate 64 99, ascii "signature"),
    (List.replicate 64 100, ascii "package")]

/-- Three files of one stem are one record with 14 bytes; the signature's nine
are in the counters alone. -/
theorem mixed_store_described :
    Describes (Store.holding mixedEntries mixedBlobs) (fun _ => True)
        (listingOf (.holding mixedEntries mixedBlobs) Conf.sample.policy
          (Store.holding mixedEntries mixedBlobs)).facts ∧
      (listingOf (.holding mixedEntries mixedBlobs) Conf.sample.policy
        (Store.holding mixedEntries mixedBlobs)).count = 1 ∧
      (listingOf (.holding mixedEntries mixedBlobs) Conf.sample.policy
        (Store.holding mixedEntries mixedBlobs)).bytes = 14 ∧
      (statusCounters (Sys.holding mixedEntries mixedBlobs)
        (Store.holding mixedEntries mixedBlobs)).bytes = 23 := by
  have sees : (DocEnv.holding mixedEntries mixedBlobs).Sees (Store.holding mixedEntries mixedBlobs) :=
    DocEnv.sees_holding (by decide) (by decide)
  have law := @documents_describe_one_store _ _ _ Conf.sample _ sees sees sees
    ⟨[], [], false, 0, 0, 0, 0, 0, 0⟩ (putRequest [] [] [])
  exact ⟨law.2.2.2.1, by decide +kernel, by decide +kernel, by decide +kernel⟩

end CixCache
