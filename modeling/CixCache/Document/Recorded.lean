import CixCache.Document.Asserted
import CixCache.Importer

/-!
Contract: the importer reads the manifest the server writes.

Owns: `Records`, a file with the digest beside it anywhere in a tree;
`manifestDigestFor` on a served manifest, which finds the formats and nothing
else; and that it finds every recorded file exactly when no signature is nested.

Does not own: how a text is parsed into the tree it was written from.
-/

namespace CixCache

open CixCache.Lib

/-- Somewhere in the tree an object has these two strings beside each other. -/
inductive Records : JsonValue → Bytes → Bytes → Prop
  | here {members : List (Bytes × JsonValue)} {file digest : Bytes}
      (names : (ascii "file", JsonValue.string file) ∈ members)
      (states : (ascii "sha256", JsonValue.string digest) ∈ members) :
      Records (.object members) file digest
  | member {members : List (Bytes × JsonValue)} {key : Bytes} {value : JsonValue}
      {file digest : Bytes} (inside : (key, value) ∈ members) (records : Records value file digest) :
      Records (.object members) file digest
  | item {items : List JsonValue} {value : JsonValue} {file digest : Bytes}
      (inside : value ∈ items) (records : Records value file digest) :
      Records (.array items) file digest

/-- The reader finds every file the tree records. -/
def FindsEveryRecord (manifest : JsonValue) : Prop :=
  ∀ file digest, Records manifest file digest →
    manifestDigestFor (some manifest) file = some digest

/-! ## What a served manifest records -/

section Recorded

/-- A described file is recorded once. -/
theorem FileBody.records_iff {body : FileBody} {file digest : Bytes} :
    Records (.object body.members) file digest ↔ body.file = file ∧ body.sha256 = digest := by
  constructor
  · intro records
    cases records with
    | here names states =>
        simp only [FileBody.members, List.mem_cons, Prod.mk.injEq, JsonValue.string.injEq,
          List.not_mem_nil, reduceCtorEq, and_false, or_false] at names states
        rcases names with isFile | wrong
        · rcases states with wrong | isDigest
          · exact absurd wrong.1 (by decide)
          · exact ⟨isFile.2.symm, isDigest.2.symm⟩
        · exact absurd wrong.1 (by decide)
    | member inside deeper =>
        simp only [FileBody.members, List.mem_cons, Prod.mk.injEq, List.not_mem_nil,
          or_false] at inside
        rcases inside with ⟨_, rfl⟩ | ⟨_, rfl⟩ | ⟨_, rfl⟩ <;> cases deeper
  · intro same
    rw [← same.1, ← same.2]
    exact .here (by simp [FileBody.members]) (by simp [FileBody.members])

theorem FileBody.mem_members {body : FileBody} {key text : Bytes} :
    (key, JsonValue.string text) ∈ body.members ↔
      (key = ascii "file" ∧ text = body.file) ∨ (key = ascii "sha256" ∧ text = body.sha256) := by
  simp [FileBody.members]

/-- A format's strings are its suffix and the two of its body. -/
theorem ManifestFormat.mem_members {format : ManifestFormat} {key text : Bytes}
    {members : List (Bytes × JsonValue)} (shape : format.json = .object members) :
    (key, JsonValue.string text) ∈ members ↔
      (key = ascii "format" ∧ text = format.format) ∨
        (key, JsonValue.string text) ∈ format.body.members := by
  rw [← JsonValue.object.inj shape]
  simp

/-- A format records its file, and the signature nested in it. -/
theorem ManifestFormat.records_iff {format : ManifestFormat} {file digest : Bytes} :
    Records format.json file digest ↔
      (format.body.file = file ∧ format.body.sha256 = digest) ∨
        ∃ body, format.signature = some body ∧ body.file = file ∧ body.sha256 = digest := by
  generalize shape : format.json = tree
  have isObject : ∃ members, tree = .object members := ⟨_, shape.symm⟩
  obtain ⟨members, rfl⟩ := isObject
  constructor
  · intro records
    cases records with
    | here names states =>
        rw [mem_members shape] at names states
        have fileKey : ascii "file" ≠ ascii "format" := by decide
        have digestKey : ascii "sha256" ≠ ascii "format" := by decide
        simp only [fileKey, digestKey, false_and, false_or] at names states
        exact Or.inl (FileBody.records_iff.mp (.here names states))
    | member inside deeper =>
        rw [← JsonValue.object.inj shape] at inside
        rcases List.mem_append.mp inside with isFormat | later
        · rw [(Prod.mk.inj (List.mem_singleton.mp isFormat)).2] at deeper
          cases deeper
        · rcases List.mem_append.mp later with inBody | isSignature
          · exact Or.inl (FileBody.records_iff.mp (.member inBody deeper))
          · obtain ⟨body, found, same⟩ := List.mem_map.mp isSignature
            rw [← (Prod.mk.inj same).2] at deeper
            exact Or.inr ⟨body, Option.mem_toList.mp found, FileBody.records_iff.mp deeper⟩
  · intro recorded
    rcases recorded with own | nested
    · have names := (mem_members shape).mpr (Or.inr (FileBody.mem_members.mpr
        (Or.inl ⟨rfl, rfl⟩)))
      have states := (mem_members shape).mpr (Or.inr (FileBody.mem_members.mpr
        (Or.inr ⟨rfl, rfl⟩)))
      rw [own.1] at names
      rw [own.2] at states
      exact .here names states
    · obtain ⟨body, found, same⟩ := nested
      have inside : (ascii "signature", JsonValue.object body.members) ∈ members := by
        rw [← JsonValue.object.inj shape, found]
        simp
      exact .member inside (FileBody.records_iff.mpr same)

/-- The formats of a manifest. -/
def Manifest.formats (manifest : Manifest) : List ManifestFormat :=
  (manifest.packages ++ manifest.installers).flatMap ManifestRecord.formats

theorem records_section {records : List ManifestRecord} {file digest : Bytes} :
    Records (.object (records.map ManifestRecord.member)) file digest ↔
      ∃ record ∈ records, ∃ format ∈ record.formats, Records format.json file digest := by
  constructor
  · intro recorded
    cases recorded with
    | here names states =>
        obtain ⟨record, _, same⟩ := List.mem_map.mp names
        exact absurd (Prod.mk.inj same).2 nofun
    | member inside deeper =>
        obtain ⟨record, member, same⟩ := List.mem_map.mp inside
        rw [← (Prod.mk.inj same).2] at deeper
        cases deeper with
        | here names states => simp at names
        | member inArray formats =>
            rw [(Prod.mk.inj (List.mem_singleton.mp inArray)).2] at formats
            cases formats with
            | item isFormat own =>
                obtain ⟨format, inRecord, rfl⟩ := List.mem_map.mp isFormat
                exact ⟨record, member, format, inRecord, own⟩
  · intro found
    obtain ⟨record, member, format, inRecord, own⟩ := found
    exact .member (List.mem_map_of_mem member) (.member List.mem_cons_self
      (.item (List.mem_map_of_mem inRecord) own))

/-- A served manifest records the files of its formats and of their signatures. -/
theorem Manifest.records_iff {manifest : Manifest} {file digest : Bytes} :
    Records manifest.json file digest ↔
      ∃ format ∈ manifest.formats, Records format.json file digest := by
  unfold Manifest.formats
  constructor
  · intro recorded
    cases recorded with
    | here names states => simp at names
    | member inside deeper =>
        rcases List.mem_cons.mp inside with isPackages | other
        · rw [(Prod.mk.inj isPackages).2] at deeper
          obtain ⟨record, member, format, inRecord, own⟩ := records_section.mp deeper
          exact ⟨format, List.mem_flatMap.mpr
            ⟨record, List.mem_append_left _ member, inRecord⟩, own⟩
        · rw [(Prod.mk.inj (List.mem_singleton.mp other)).2] at deeper
          obtain ⟨record, member, format, inRecord, own⟩ := records_section.mp deeper
          exact ⟨format, List.mem_flatMap.mpr
            ⟨record, List.mem_append_right _ member, inRecord⟩, own⟩
  · intro found
    obtain ⟨format, inside, own⟩ := found
    obtain ⟨record, member, inRecord⟩ := List.mem_flatMap.mp inside
    rcases List.mem_append.mp member with packages | installers
    · exact .member List.mem_cons_self (records_section.mpr ⟨record, packages, format, inRecord, own⟩)
    · exact .member (List.mem_cons_of_mem _ List.mem_cons_self)
        (records_section.mpr ⟨record, installers, format, inRecord, own⟩)

end Recorded

/-! ## What the reader finds -/

section Found

theorem identityDigestFor_record (record : ManifestRecord) (file : Bytes) :
    identityDigestFor record.member.2 file = record.formats.findSome? fun format =>
      if format.body.file = file then some format.body.sha256 else none := by
  show (record.formats.map ManifestFormat.json).findSome? _ = _
  rw [List.findSome?_map]
  rfl

theorem sectionDigestFor_records (records : List ManifestRecord) (file : Bytes) :
    sectionDigestFor (some (.object (records.map ManifestRecord.member))) file =
      records.findSome? fun record => record.formats.findSome? fun format =>
        if format.body.file = file then some format.body.sha256 else none := by
  show (records.map ManifestRecord.member).findSome? _ = _
  rw [List.findSome?_map]
  congr 1
  funext record
  exact identityDigestFor_record record file

theorem jsonObjectGet_packages (manifest : Manifest) :
    jsonObjectGet (some manifest.json) (ascii "packages") =
      some (.object (manifest.packages.map ManifestRecord.member)) := rfl

theorem jsonObjectGet_installers (manifest : Manifest) :
    jsonObjectGet (some manifest.json) (ascii "installers") =
      some (.object (manifest.installers.map ManifestRecord.member)) := rfl

/-- A digest that is found is one a format of that file states. -/
theorem manifestDigestFor_some {manifest : Manifest} {file digest : Bytes}
    (found : manifestDigestFor (some manifest.json) file = some digest) :
    ∃ format ∈ manifest.formats, format.body.file = file ∧ format.body.sha256 = digest := by
  have inSection : ∀ records : List ManifestRecord,
      sectionDigestFor (some (.object (records.map ManifestRecord.member))) file = some digest →
        ∃ record ∈ records, ∃ format ∈ record.formats,
          format.body.file = file ∧ format.body.sha256 = digest := by
    intro records states
    rw [sectionDigestFor_records] at states
    obtain ⟨record, member, inRecord⟩ := List.exists_of_findSome?_eq_some states
    obtain ⟨format, inside, matched⟩ := List.exists_of_findSome?_eq_some inRecord
    split at matched
    next same => exact ⟨record, member, format, inside, same, Option.some.inj matched⟩
    next => contradiction
  unfold Manifest.formats
  unfold manifestDigestFor at found
  dsimp only at found
  rw [jsonObjectGet_packages, jsonObjectGet_installers] at found
  split at found
  next packages =>
    obtain ⟨record, member, format, inside, same⟩ :=
      inSection manifest.packages (by rw [← found]; exact packages)
    exact ⟨format, List.mem_flatMap.mpr ⟨record, List.mem_append_left _ member, inside⟩, same⟩
  next =>
    obtain ⟨record, member, format, inside, same⟩ := inSection manifest.installers found
    exact ⟨format, List.mem_flatMap.mpr ⟨record, List.mem_append_right _ member, inside⟩, same⟩

/-- Every file of a format is found. -/
theorem manifestDigestFor_isSome {manifest : Manifest} {format : ManifestFormat}
    (member : format ∈ manifest.formats) :
    (manifestDigestFor (some manifest.json) format.body.file).isSome := by
  have inSection : ∀ records : List ManifestRecord, ∀ record ∈ records, format ∈ record.formats →
      (sectionDigestFor (some (.object (records.map ManifestRecord.member)))
        format.body.file).isSome := by
    intro records record inRecords inside
    rw [sectionDigestFor_records, List.findSome?_isSome_iff]
    refine ⟨record, inRecords, ?_⟩
    rw [List.findSome?_isSome_iff]
    exact ⟨format, inside, by simp⟩
  obtain ⟨record, inManifest, inside⟩ := List.mem_flatMap.mp member
  unfold manifestDigestFor
  dsimp only
  rw [jsonObjectGet_packages, jsonObjectGet_installers]
  split
  next => rfl
  next missing =>
    rcases List.mem_append.mp inManifest with packages | installers
    · have found := inSection manifest.packages record packages inside
      rw [missing] at found
      contradiction
    · exact inSection manifest.installers record installers inside

end Found

/-! ## Served manifests -/

section Served

variable {env : DocEnv} {st : Store}

/-- A signature of an artifact resolves, so the manifest nests it. -/
def SignatureAnswered (files : Files) (name : Bytes) : Prop :=
  ∃ sig digest, storeSignatureName name = some sig ∧ AnsweredBy files sig digest

theorem storeSignatureName_isSignature {name sig : Bytes}
    (found : storeSignatureName name = some sig) : storeIsSignature sig = true := by
  obtain ⟨valid, artifact, rfl, _⟩ := storeSignatureName_some found
  obtain ⟨parts, rfl⟩ := NameParts.exists_render_of_valid valid
  obtain ⟨row, known, ext, same, _⟩ := NameParts.exists_signature artifact
  have extNonempty : parts.suffix.ext ≠ [] :=
    (by decide : ∀ suffix ∈ gSuffixes, suffix.ext ≠ []) _ parts.suffix_known
  rw [← same, NameParts.storeIsSignature_render]
  exact endsWith_iff.mpr ⟨parts.suffix.ext, extNonempty, ext⟩

theorem fileText_injective {left right : Bytes} (leftFits : left.length < storeNameMax)
    (rightFits : right.length < storeNameMax) (same : fileText left = fileText right) :
    left = right := by
  rw [fileText_of_lt leftFits, fileText_of_lt rightFits] at same
  simpa using same

/-- The formats of a served manifest are those of listed artifacts. -/
theorem manifestOf_formats {format : ManifestFormat}
    (member : format ∈ (manifestOf env st).formats) :
    ∃ e, ListedArtifact st e ∧ format = manifestFormat st e := by
  obtain ⟨record, inManifest, inside⟩ := List.mem_flatMap.mp member
  exact manifest_format_of inManifest inside

/-- The file of a format is found with its digest. -/
theorem manifestDigestFor_format {format : ManifestFormat}
    (member : format ∈ (manifestOf env st).formats) :
    manifestDigestFor (some (manifestOf env st).json) format.body.file =
      some format.body.sha256 := by
  obtain ⟨digest, found⟩ := Option.isSome_iff_exists.mp (manifestDigestFor_isSome member)
  obtain ⟨other, otherMember, sameFile, isDigest⟩ := manifestDigestFor_some found
  obtain ⟨e, listed, rfl⟩ := manifestOf_formats member
  obtain ⟨f, otherListed, rfl⟩ := manifestOf_formats otherMember
  have sameName : f.name = e.name := fileText_injective
    (storeNameIsValid.length_lt otherListed.valid) (storeNameIsValid.length_lt listed.valid) sameFile
  have digests : f.digest = e.digest := by
    have entry := otherListed.entry
    rw [sameName, listed.entry] at entry
    exact (Option.some.inj entry).symm
  rw [found, ← isDigest]
  exact congrArg some digests

/-- The file of a nested signature is not found. -/
theorem manifestDigestFor_signature {name : Bytes} {body : FileBody}
    (nested : signatureBody st name = some body) :
    manifestDigestFor (some (manifestOf env st).json) body.file = none := by
  obtain ⟨sig, digest, found, _, rfl⟩ := signatureBody_iff.mp nested
  by_contra other
  obtain ⟨stated, states⟩ := Option.ne_none_iff_exists'.mp other
  obtain ⟨format, member, sameFile, _⟩ := manifestDigestFor_some states
  obtain ⟨e, listed, rfl⟩ := manifestOf_formats member
  have isSig : e.name = sig := fileText_injective (storeNameIsValid.length_lt listed.valid)
    (storeSignatureName_some found).2.2.2 sameFile
  have unsigned := listed.unsigned
  rw [isSig, storeSignatureName_isSignature found] at unsigned
  exact absurd unsigned (by simp)

/-- In every state a server reaches, the importer finds every file its manifest
records exactly when no artifact's signature resolves. -/
theorem findsEveryRecord_iff {conf : Conf} {sha : Sha256sum} {server : Server}
    {events : List (Sys × ServerEvent)}
    (listable : env.Sees (run (serverStep conf sha) server events).store) :
    (∀ manifestEnv,
      FindsEveryRecord (manifestOf manifestEnv (run (serverStep conf sha) server events).store).json) ↔
      ∀ facts, Artifact (run (serverStep conf sha) server events).store facts →
        ¬ SignatureAnswered (run (serverStep conf sha) server events).store.files facts.name := by
  generalize (run (serverStep conf sha) server events).store = reached at listable
  constructor
  · intro finds facts artifact answered
    obtain ⟨sig, digest, found, answers⟩ := answered
    obtain ⟨record, inManifest, format, inside, nested⟩ := listable.manifest_format artifact
    have member : format ∈ (manifestOf env reached).formats :=
      List.mem_flatMap.mpr ⟨record, inManifest, inside⟩
    have body := signatureBody_iff.mpr ⟨sig, digest, found, answers, rfl⟩
    have recorded := Manifest.records_iff.mpr ⟨format, member, ManifestFormat.records_iff.mpr
      (Or.inr ⟨_, nested.trans body, rfl, rfl⟩)⟩
    have states := finds env _ _ recorded
    rw [manifestDigestFor_signature body] at states
    exact absurd states (by simp)
  · intro unanswered manifestEnv file digest recorded
    obtain ⟨format, member, own⟩ := Manifest.records_iff.mp recorded
    rcases ManifestFormat.records_iff.mp own with described | nested
    · rw [← described.1, ← described.2]
      exact manifestDigestFor_format member
    · obtain ⟨body, found, _⟩ := nested
      obtain ⟨e, listed, rfl⟩ := manifestOf_formats member
      obtain ⟨sig, value, isSig, answers, _⟩ := signatureBody_iff.mp found
      refine absurd ⟨sig, value, isSig, answers⟩ (unanswered ⟨e.name,
        (storeSuffixOf e.name).getD [], e.digest, offT (storeBlobExists reached e.digest)⟩ ?_)
      exact ⟨listed.valid, listed.unsigned, listed.entry, storeSuffixOf_valid listed.valid, rfl⟩

/-- The manifest records a nested signature the importer does not find. -/
theorem DocEnv.Allocates.signature_not_found {names : List Bytes} (allocates : env.Allocates)
    (opened : env.sys.readdir .packages = some names) {name digest : Bytes} (present : name ∈ names)
    (valid : storeNameIsValid name = true) (unsigned : storeIsSignature name = false)
    (entry : published st.files name = some digest) {body : FileBody}
    (nested : signatureBody st name = some body) :
    Records (manifestOf env st).json body.file body.sha256 ∧
      manifestDigestFor (some (manifestOf env st).json) body.file = none ∧
        ¬ FindsEveryRecord (manifestOf env st).json := by
  have stored : entryOf env.sys st (name, digest) ∈ storedEntries env.sys st names :=
    mem_storedEntries.mpr ⟨present, valid, entry, rfl⟩
  obtain ⟨record, inManifest, inside⟩ := allocates.manifest_format opened stored unsigned
  have member : manifestFormat st (entryOf env.sys st (name, digest)) ∈
      (manifestOf env st).formats :=
    List.mem_flatMap.mpr ⟨record, inManifest, inside⟩
  have recorded : Records (manifestOf env st).json body.file body.sha256 :=
    Manifest.records_iff.mpr ⟨_, member,
      ManifestFormat.records_iff.mpr (Or.inr ⟨body, nested, rfl, rfl⟩)⟩
  have missing : manifestDigestFor (some (manifestOf env st).json) body.file = none :=
    manifestDigestFor_signature nested
  refine ⟨recorded, missing, ?_⟩
  intro finds
  have states := finds body.file body.sha256 recorded
  rw [missing] at states
  exact absurd states (by simp)

end Served

/-- A store of one archive without a signature. -/
def unsignedStore : Store :=
  .holding [(ascii "foo-1-1.tar.gz", List.replicate 64 97)] [(List.replicate 64 97, ascii "bytes")]

theorem unsignedStore_unanswered : ∀ facts, Artifact unsignedStore facts →
    ¬ SignatureAnswered unsignedStore.files facts.name := by
  intro facts artifact answered
  obtain ⟨sig, digest, found, answers⟩ := answered
  have unresolved : storeResolve unsignedStore (ascii "foo-1-1.tar.gz.minisig") =
      .error .notFound := by
    decide +kernel
  have isArchive : facts.name = ascii "foo-1-1.tar.gz" := by
    by_contra other
    have absent : unsignedStore.files (.packages facts.name) = none := by
      show (List.lookup _ _).map _ = none
      rw [List.lookup_cons, beq_false_of_ne other]
      rfl
    have nothing := artifact.entry
    rw [published_of_absent absent] at nothing
    exact absurd nothing (by simp)
  have isSig : sig = ascii "foo-1-1.tar.gz.minisig" := by
    rw [(storeSignatureName_some found).2.2.1, isArchive]
    decide
  have resolved := storeResolve_iff_answeredBy.mpr answers
  rw [isSig, unresolved] at resolved
  exact absurd resolved (by simp)

/-- What a document of that store is written from. -/
def unsignedEnv : DocEnv :=
  .holding [(ascii "foo-1-1.tar.gz", List.replicate 64 97)] [(List.replicate 64 97, ascii "bytes")]

/-- The importer finds every file the manifest of that store records. -/
theorem unsignedStore_found : FindsEveryRecord (manifestOf unsignedEnv unsignedStore).json := by
  have listable : unsignedEnv.Sees
      (run (serverStep .sample .sample) (.start unsignedStore) []).store :=
    DocEnv.sees_holding (by decide) (by decide)
  exact (findsEveryRecord_iff listable).mpr unsignedStore_unanswered unsignedEnv

/-! ### A signature the importer does not look for -/

/-- A server on an empty root after an archive and its signature were pushed. -/
def signedArchiveServer : Server :=
  run (serverStep .sample .sample) (.start (Store.holding [] []))
    (calmly (putEvents 0 (ascii "foo-1-1.tar.gz") (ascii "a") ++
      putEvents 1 (ascii "foo-1-1.tar.gz.minisig") (ascii "b")))

/-- Its manifest records the signature's digest, and the importer finds none for
that file. -/
theorem nested_signature_not_found :
    Records (manifestOf (.listing [ascii "foo-1-1.tar.gz", ascii "foo-1-1.tar.gz.minisig"])
        signedArchiveServer.store).json (ascii "packages/foo-1-1.tar.gz.minisig")
        (Sha256sum.sample.digest (ascii "b")) ∧
      manifestDigestFor (some (manifestOf
        (.listing [ascii "foo-1-1.tar.gz", ascii "foo-1-1.tar.gz.minisig"])
          signedArchiveServer.store).json) (ascii "packages/foo-1-1.tar.gz.minisig") = none ∧
      ¬ FindsEveryRecord (manifestOf
        (.listing [ascii "foo-1-1.tar.gz", ascii "foo-1-1.tar.gz.minisig"])
          signedArchiveServer.store).json := by
  obtain ⟨entry, nested⟩ :
      published signedArchiveServer.store.files (ascii "foo-1-1.tar.gz") =
          some (Sha256sum.sample.digest (ascii "a")) ∧
        signatureBody signedArchiveServer.store (ascii "foo-1-1.tar.gz") =
          some ⟨ascii "packages/foo-1-1.tar.gz.minisig", Sha256sum.sample.digest (ascii "b"), 1⟩ := by
    decide +kernel
  have valid : storeNameIsValid (ascii "foo-1-1.tar.gz") = true := by decide
  have unsigned : storeIsSignature (ascii "foo-1-1.tar.gz") = false := by decide
  have listed : ascii "foo-1-1.tar.gz" ∈ [ascii "foo-1-1.tar.gz", ascii "foo-1-1.tar.gz.minisig"] :=
    List.mem_cons_self
  generalize [ascii "foo-1-1.tar.gz", ascii "foo-1-1.tar.gz.minisig"] = names at listed ⊢
  generalize signedArchiveServer.store = st at entry nested ⊢
  generalize ascii "packages/foo-1-1.tar.gz.minisig" = file at nested ⊢
  generalize ascii "foo-1-1.tar.gz" = name at entry nested valid unsigned listed
  generalize Sha256sum.sample.digest (ascii "b") = value at nested ⊢
  have allocates : (DocEnv.listing names).Allocates := ⟨fun _ => rfl, fun _ => rfl⟩
  exact allocates.signature_not_found rfl listed valid unsigned entry nested

end CixCache
