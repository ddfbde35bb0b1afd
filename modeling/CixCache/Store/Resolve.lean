import CixCache.Lib.Agreement
import CixCache.Store.FileSystem

/-!
Contract: resolution of a requested name to a digest.

Owns: `storeDigestIsValid`, `resolvePath`, `storeResolveAs` with its loop over
the architectures, `entryPath`; `published`, what an exact name in packages/
answers; and the reading of the loop as a vote among `candidates`.

Does not own: changes to the tree.
-/

namespace CixCache

open CixCache.Lib

/-- `enum store_error` without STORE_OK. -/
inductive StoreError where
  | invalidName
  | notFound
  | conflict
  | ambiguous
  | io
deriving DecidableEq, Repr

def storeErrorStr : StoreError → Bytes
  | .invalidName => ascii "invalid artifact name"
  | .notFound => ascii "not found"
  | .ambiguous => ascii "that name matches more than one artifact -- name an architecture"
  | .conflict => ascii "already published with a different digest"
  | .io => ascii "store i/o error"

def isHexLower (c : Byte) : Bool := isDigit c || decide (97 ≤ c) && decide (c ≤ 102)

def storeDigestIsValid (text : Bytes) : Bool :=
  (text.take storeSha256HexLen).all isHexLower && text.length == storeSha256HexLen

/-! ## Functions of the source -/

def entryPath (root : Root) (name : Bytes) : Option Path :=
  match storeCanonicalName name with
  | none => none
  | some (canonical, _) => rawEntryPath root canonical

/-- Reads the digest out of the symlink at an exact path. -/
def resolvePath (files : Files) (path : Path) : Except StoreError Bytes :=
  match files path with
  | none => .error .notFound
  | some (.regular _) => .error .io
  | some (.symlink target) =>
      let base := lastComponent slash (target.take (pathMax - 1))
      if storeDigestIsValid base then .ok base else .error .io

/-- What `snprintf` leaves in `probe[STORE_NAME_MAX]`. -/
def archProbe (canonical arch : Bytes) : Bytes := snprintf storeNameMax (archName canonical arch)

/-- The loop over the architectures; the last argument is the hit so far. -/
def probeArches (st : Store) (canonical : Bytes) :
    List Bytes → Option (Bytes × Bytes) → Except StoreError (Option (Bytes × Bytes))
  | [], hit => .ok hit
  | arch :: rest, hit =>
      let probe := archProbe canonical arch
      match rawEntryPath st.root probe with
      | none => probeArches st canonical rest hit
      | some path =>
          match resolvePath st.files path with
          | .error _ => probeArches st canonical rest hit
          | .ok found =>
              match hit with
              | some (hitName, hitDigest) =>
                  -- Two candidates are only ambiguous if they disagree about the bytes.
                  if hitDigest = found then probeArches st canonical rest (some (hitName, hitDigest))
                  else .error .ambiguous
              | none => probeArches st canonical rest (some (probe, found))

/-- `out_digest` and `out_name` of a successful resolution. -/
structure Resolved where
  digest : Bytes
  name : Bytes
deriving DecidableEq, Repr

def storeResolveAs (st : Store) (name : Bytes) : Except StoreError Resolved :=
  if storeNameIsValid name = false then .error .invalidName
  else
    match storeCanonicalName name with
    | none => .error .invalidName
    | some (canonical, _) =>
        match rawEntryPath st.root canonical with
        | none => .error .invalidName
        | some path =>
            let direct := resolvePath st.files path
            -- A request that named an architecture means that one and no other.
            if (storeArchOf canonical).isSome then
              match direct with
              | .ok digest => .ok ⟨digest, canonical⟩
              | .error error => .error error
            else
              let probed :=
                match direct with
                | .ok digest => probeArches st canonical gArches (some (canonical, digest))
                | .error .notFound => probeArches st canonical gArches none
                | .error error => .error error
              match probed with
              | .error error => .error error
              | .ok none => .error .notFound
              | .ok (some (hitName, hitDigest)) => .ok ⟨hitDigest, hitName⟩

def storeResolve (st : Store) (name : Bytes) : Except StoreError Bytes :=
  match storeResolveAs st name with
  | .ok resolved => .ok resolved.digest
  | .error error => .error error

/-! ## Published entries -/

/-- The digest an exact name in packages/ answers with. -/
def published (files : Files) (name : Bytes) : Option Bytes :=
  match resolvePath files (.packages name) with
  | .ok digest => some digest
  | .error _ => none

theorem resolvePath_error {files : Files} {path : Path} {error : StoreError}
    (failed : resolvePath files path = .error error) : error = .notFound ∨ error = .io := by
  unfold resolvePath at failed
  split at failed
  next => exact Or.inl (Except.error.inj failed).symm
  next => exact Or.inr (Except.error.inj failed).symm
  next =>
    dsimp only at failed
    split at failed
    next => contradiction
    next => exact Or.inr (Except.error.inj failed).symm

theorem resolvePath_ok_valid {files : Files} {path : Path} {digest : Bytes}
    (resolved : resolvePath files path = .ok digest) : storeDigestIsValid digest = true := by
  unfold resolvePath at resolved
  split at resolved
  next => contradiction
  next => contradiction
  next =>
    dsimp only at resolved
    split at resolved
    next valid =>
      rw [← Except.ok.inj resolved]
      exact valid
    next => contradiction

theorem resolvePath_notFound {files : Files} {path : Path} :
    resolvePath files path = .error .notFound ↔ files path = none := by
  constructor
  · intro failed
    unfold resolvePath at failed
    split at failed
    next absent => exact absent
    next => contradiction
    next =>
      dsimp only at failed
      split at failed
      next => contradiction
      next => contradiction
  · intro absent
    simp [resolvePath, absent]

theorem published_eq_some {files : Files} {name digest : Bytes} :
    published files name = some digest ↔
      resolvePath files (.packages name) = .ok digest := by
  unfold published
  split
  next found resolved => simp [resolved]
  next error failed => simp [failed]

theorem published_congr {files other : Files} {name : Bytes}
    (same : files (.packages name) = other (.packages name)) :
    published files name = published other name := by
  simp only [published, resolvePath, same]

theorem published_of_absent {files : Files} {name : Bytes}
    (absent : files (.packages name) = none) : published files name = none := by
  simp [published, resolvePath, absent]

theorem published_valid {files : Files} {name digest : Bytes}
    (found : published files name = some digest) : storeDigestIsValid digest = true :=
  resolvePath_ok_valid (published_eq_some.mp found)

theorem storeDigestIsValid_length {digest : Bytes} (valid : storeDigestIsValid digest = true) :
    digest.length = storeSha256HexLen := by
  simp only [storeDigestIsValid, Bool.and_eq_true, beq_iff_eq] at valid
  exact valid.2

theorem storeDigestIsValid_hex {digest : Bytes} (valid : storeDigestIsValid digest = true) :
    ∀ c ∈ digest, isHexLower c = true := by
  have length := storeDigestIsValid_length valid
  simp only [storeDigestIsValid, Bool.and_eq_true, beq_iff_eq] at valid
  rw [List.take_of_length_le (by omega)] at valid
  exact List.all_eq_true.mp valid.1

theorem storeDigestIsValid_no_slash {digest : Bytes} (valid : storeDigestIsValid digest = true) :
    slash ∉ digest := by
  intro member
  have hex := storeDigestIsValid_hex valid slash member
  revert hex
  decide

private theorem blobsPrefix_shape : blobsPrefix = ascii "../blobs" ++ [slash] := by decide

/-- The link the store writes for a digest reads back as that digest. -/
theorem resolvePath_blobTarget {files : Files} {path : Path} {digest : Bytes}
    (valid : storeDigestIsValid digest = true)
    (link : files path = some (.symlink (blobTarget digest))) :
    resolvePath files path = .ok digest := by
  have length := storeDigestIsValid_length valid
  have short : (blobTarget digest).length ≤ pathMax - 1 := by
    have prefixLength : blobsPrefix.length = 9 := by decide
    unfold blobTarget pathMax
    unfold storeSha256HexLen at length
    rw [List.length_append]
    omega
  have base : lastComponent slash ((blobTarget digest).take (pathMax - 1)) = digest := by
    rw [List.take_of_length_le short, blobTarget, blobsPrefix_shape, List.append_assoc]
    exact lastComponent_append (storeDigestIsValid_no_slash valid) _
  simp only [resolvePath, link, base, valid, if_true]

/-- packages/ holds a map from valid names to valid digests and nothing else. -/
structure EntryMap (files : Files) : Prop where
  resolves : ∀ name node, files (.packages name) = some node → (published files name).isSome
  named : ∀ name digest, published files name = some digest → storeNameIsValid name = true

theorem EntryMap.readable {files : Files} (holds : EntryMap files) (name : Bytes) :
    resolvePath files (.packages name) ≠ .error .io := by
  intro unreadable
  cases present : files (.packages name) with
  | none =>
      rw [resolvePath_notFound.mpr present] at unreadable
      contradiction
  | some node =>
      obtain ⟨digest, found⟩ := Option.isSome_iff_exists.mp (holds.resolves name node present)
      rw [published_eq_some.mp found] at unreadable
      contradiction

theorem published_holding {entries blobs : List (Bytes × Bytes)} {name digest : Bytes}
    (valid : storeDigestIsValid digest = true) (found : entries.lookup name = some digest) :
    published (Store.holding entries blobs).files name = some digest := by
  apply published_eq_some.mpr
  apply resolvePath_blobTarget valid
  simp [Store.holding, found]

private theorem lookup_mem {entries : List (Bytes × Bytes)} {name digest : Bytes}
    (found : entries.lookup name = some digest) : (name, digest) ∈ entries := by
  obtain ⟨before, after, same, _⟩ := List.lookup_eq_some_iff.mp found
  rw [same]
  exact List.mem_append_right _ List.mem_cons_self

/-- A finite map from valid names to valid digests, as a store. -/
theorem entryMap_holding {entries blobs : List (Bytes × Bytes)}
    (valid : ∀ entry ∈ entries,
      storeNameIsValid entry.1 = true ∧ storeDigestIsValid entry.2 = true) :
    EntryMap (Store.holding entries blobs).files where
  resolves := by
    intro name node present
    simp only [Store.holding, Option.map_eq_some_iff] at present
    obtain ⟨digest, found, _⟩ := present
    rw [published_holding (valid _ (lookup_mem found)).2 found]
    rfl
  named := by
    intro name digest found
    cases present : entries.lookup name with
    | none =>
        have absent : (Store.holding entries blobs).files (.packages name) = none := by
          simp [Store.holding, present]
        rw [published_of_absent absent] at found
        contradiction
    | some other => exact (valid _ (lookup_mem present)).1

/-! ## Probes and the canonical name -/

section Probes

variable {canonical arch : Bytes}

/-- Behind the stem of a name stands the dot of its suffix. -/
private theorem stem_dot (form : canonicalForm canonical = some canonical) :
    stemLen canonical < storeNameMax - 1 ∧ canonical[stemLen canonical]? = some dot := by
  have fits := storeNameIsValid.length_lt (canonicalForm_valid form)
  obtain ⟨parts, rfl, _⟩ := parts_of_canonical form
  have leading : ∀ row ∈ gSuffixes, row.ext.head? = some dot := by decide
  have head := leading _ parts.suffix_known
  rw [NameParts.stemLen_render]
  have shape : parts.render = parts.stem ++ parts.suffix.ext := rfl
  rw [shape] at fits ⊢
  rw [List.head?_eq_getElem?] at head
  have positive : 0 < parts.suffix.ext.length := by
    obtain ⟨bound, _⟩ := List.getElem?_eq_some_iff.mp head
    exact bound
  rw [List.length_append] at fits
  refine ⟨by omega, ?_⟩
  rw [List.getElem?_append_right (Nat.le_refl _), Nat.sub_self]
  exact head

/-- Behind the stem of a probe stands the hyphen of its architecture. -/
private theorem probe_dash (arch : Bytes) (form : canonicalForm canonical = some canonical) :
    (archProbe canonical arch)[stemLen canonical]? = some dash := by
  obtain ⟨bound, _⟩ := stem_dot form
  have stemLength : (canonical.take (stemLen canonical)).length = stemLen canonical := by
    obtain ⟨inside, _⟩ := List.getElem?_eq_some_iff.mp (stem_dot form).2
    rw [List.length_take]
    omega
  rw [archProbe, snprintf, List.getElem?_take_of_lt bound, archName, List.append_assoc,
    List.getElem?_append_right (by omega), stemLength, Nat.sub_self]
  rfl

theorem archProbe_ne (form : canonicalForm canonical = some canonical) :
    archProbe canonical arch ≠ canonical := by
  intro same
  have hyphen := probe_dash arch form
  rw [same, (stem_dot form).2] at hyphen
  revert hyphen
  decide

theorem archProbe_ne_signature (form : canonicalForm canonical = some canonical) :
    archProbe canonical arch ≠ canonical ++ storeSigExt := by
  intro same
  have hyphen := probe_dash arch form
  obtain ⟨inside, _⟩ := List.getElem?_eq_some_iff.mp (stem_dot form).2
  rw [same, List.getElem?_append_left inside, (stem_dot form).2] at hyphen
  revert hyphen
  decide

end Probes

/-! ## Resolution as a vote -/

/-- The names a bare request is resolved through. -/
def probeNames (canonical : Bytes) : List Bytes :=
  canonical :: gArches.map (archProbe canonical)

/-- The published ones among some names, with their digests. -/
def publishedAmong (files : Files) (names : List Bytes) : List (Bytes × Bytes) :=
  names.filterMap fun name => (published files name).map fun digest => (name, digest)

theorem mem_probeNames {canonical key : Bytes} :
    key ∈ probeNames canonical ↔
      key = canonical ∨ ∃ arch ∈ gArches, key = archProbe canonical arch := by
  simp only [probeNames, List.mem_cons, List.mem_map]
  constructor
  · intro member
    rcases member with own | probe
    · exact Or.inl own
    · obtain ⟨arch, known, same⟩ := probe
      exact Or.inr ⟨arch, known, same.symm⟩
  · intro member
    rcases member with own | probe
    · exact Or.inl own
    · obtain ⟨arch, known, same⟩ := probe
      exact Or.inr ⟨arch, known, same.symm⟩

def candidates (files : Files) (canonical : Bytes) : List (Bytes × Bytes) :=
  publishedAmong files (probeNames canonical)

/-- The answer to a bare request, from the verdict on its candidates. -/
def Verdict.answer : Verdict Bytes Bytes → Except StoreError Resolved
  | .absent => .error .notFound
  | .one name digest => .ok ⟨digest, name⟩
  | .ambiguous => .error .ambiguous

theorem Verdict.answer_notFound {verdict : Verdict Bytes Bytes} :
    Verdict.answer verdict = .error .notFound ↔ verdict = .absent := by
  cases verdict <;> simp [Verdict.answer]

theorem Verdict.answer_ambiguous {verdict : Verdict Bytes Bytes} :
    Verdict.answer verdict = .error .ambiguous ↔ verdict = .ambiguous := by
  cases verdict <;> simp [Verdict.answer]

theorem Verdict.answer_ok {verdict : Verdict Bytes Bytes} {resolved : Resolved} :
    Verdict.answer verdict = .ok resolved ↔ verdict = .one resolved.name resolved.digest := by
  cases verdict with
  | absent => simp [Verdict.answer]
  | one key value =>
      simp only [Verdict.answer, Except.ok.injEq, Verdict.one.injEq]
      constructor
      · intro same
        rw [← same]
        exact ⟨rfl, rfl⟩
      · intro same
        rw [same.1, same.2]
  | ambiguous => simp [Verdict.answer]

theorem mem_publishedAmong {files : Files} {names : List Bytes} {name digest : Bytes} :
    (name, digest) ∈ publishedAmong files names ↔
      name ∈ names ∧ published files name = some digest := by
  simp only [publishedAmong, List.mem_filterMap, Option.map_eq_some_iff, Prod.mk.injEq]
  constructor
  · intro found
    obtain ⟨other, member, value, resolved, rfl, rfl⟩ := found
    exact ⟨member, resolved⟩
  · intro facts
    exact ⟨name, facts.1, digest, facts.2, rfl, rfl⟩

theorem mem_candidates {files : Files} {canonical name digest : Bytes} :
    (name, digest) ∈ candidates files canonical ↔
      name ∈ probeNames canonical ∧ published files name = some digest :=
  mem_publishedAmong

theorem publishedAmong_cons_some {files : Files} {name digest : Bytes}
    {names : List Bytes} (found : published files name = some digest) :
    publishedAmong files (name :: names) = (name, digest) :: publishedAmong files names := by
  simp [publishedAmong, found]

theorem publishedAmong_cons_none {files : Files} {name : Bytes} {names : List Bytes}
    (missing : published files name = none) :
    publishedAmong files (name :: names) = publishedAmong files names := by
  simp [publishedAmong, missing]

/-- What the loop returns for a verdict. -/
private def loopResult : Verdict Bytes Bytes → Except StoreError (Option (Bytes × Bytes))
  | .absent => .ok none
  | .one name digest => .ok (some (name, digest))
  | .ambiguous => .error .ambiguous

private theorem probe_path (st : Store) (canonical arch : Bytes) :
    rawEntryPath st.root (archProbe canonical arch) =
      some (.packages (archProbe canonical arch)) :=
  rawEntryPath_of_lt _ (snprintf_length_lt (by decide) _)

/-- With a hit in hand the loop compares it with the remaining probes. -/
private theorem probeArches_hit {st : Store} {canonical : Bytes} {arches : List Bytes}
    {name digest : Bytes} :
    probeArches st canonical arches (some (name, digest)) =
      loopResult (settleWith name digest
        (publishedAmong st.files (arches.map (archProbe canonical)))) := by
  induction arches with
  | nil => rfl
  | cons arch rest inductionHypothesis =>
      unfold probeArches
      dsimp only
      rw [probe_path, List.map_cons]
      dsimp only
      cases direct : resolvePath st.files (.packages (archProbe canonical arch)) with
      | error error =>
          have missing : published st.files (archProbe canonical arch) = none := by
            simp [published, direct]
          rw [publishedAmong_cons_none missing]
          exact inductionHypothesis
      | ok found =>
          rw [publishedAmong_cons_some (published_eq_some.mpr direct)]
          dsimp only
          unfold settleWith
          split
          next same => rw [inductionHypothesis]
          next => rfl

private theorem probeArches_none {st : Store} {canonical : Bytes} {arches : List Bytes} :
    probeArches st canonical arches none =
      loopResult (settle (publishedAmong st.files (arches.map (archProbe canonical)))) := by
  induction arches with
  | nil => rfl
  | cons arch rest inductionHypothesis =>
      unfold probeArches
      dsimp only
      rw [probe_path, List.map_cons]
      dsimp only
      cases direct : resolvePath st.files (.packages (archProbe canonical arch)) with
      | error error =>
          have missing : published st.files (archProbe canonical arch) = none := by
            simp [published, direct]
          rw [publishedAmong_cons_none missing]
          exact inductionHypothesis
      | ok found =>
          rw [publishedAmong_cons_some (published_eq_some.mpr direct)]
          dsimp only
          rw [probeArches_hit, settle]

section Resolution

variable {st : Store} {name canonical : Bytes}

private theorem resolve_setup (st : Store) (form : canonicalForm name = some canonical) :
    storeNameIsValid name = true ∧ storeCanonicalName name = some (canonical, canonical != name) ∧
      rawEntryPath st.root canonical = some (.packages canonical) := by
  refine ⟨canonicalForm_valid form, storeCanonicalName_of_canonicalForm form, ?_⟩
  exact rawEntryPath_of_lt _ (storeNameIsValid.length_lt (canonicalForm_out_valid form))

theorem entryPath_of_canonicalForm (form : canonicalForm name = some canonical) (root : Root) :
    entryPath root name = some (.packages canonical) := by
  unfold entryPath
  rw [storeCanonicalName_of_canonicalForm form]
  exact rawEntryPath_of_lt _ (storeNameIsValid.length_lt (canonicalForm_out_valid form))

theorem storeCanonicalName_eq_none (noForm : canonicalForm name = none) :
    storeCanonicalName name = none := by
  simpa [canonicalForm] using noForm

theorem entryPath_of_none (noForm : canonicalForm name = none) (root : Root) :
    entryPath root name = none := by
  simp [entryPath, storeCanonicalName_eq_none noForm]

/-- A name without canonical form means nothing to the store. -/
theorem storeResolveAs_of_none (noForm : canonicalForm name = none) :
    storeResolveAs st name = .error .invalidName := by
  unfold storeResolveAs
  rw [storeCanonicalName_eq_none noForm]
  split
  next => rfl
  next => rfl

/-- A name that carries an architecture means that entry and no other. -/
theorem storeResolveAs_qualified (form : canonicalForm name = some canonical)
    (qualified : (storeArchOf canonical).isSome) :
    storeResolveAs st name =
      match resolvePath st.files (.packages canonical) with
      | .ok digest => .ok ⟨digest, canonical⟩
      | .error error => .error error := by
  obtain ⟨valid, same, path⟩ := resolve_setup st form
  unfold storeResolveAs
  rw [if_neg (by simp [valid]), same]
  dsimp only
  rw [path]
  dsimp only
  rw [if_pos qualified]

/-- A bare name whose own path cannot be read is refused before any probe. -/
theorem storeResolveAs_io (form : canonicalForm name = some canonical)
    (unreadable : resolvePath st.files (.packages canonical) = .error .io) :
    storeResolveAs st name = .error .io := by
  obtain ⟨valid, same, path⟩ := resolve_setup st form
  unfold storeResolveAs
  rw [if_neg (by simp [valid]), same]
  dsimp only
  rw [path]
  dsimp only
  rw [unreadable]
  split
  next => rfl
  next => rfl

/-- A bare name resolves by the vote of its candidates. -/
theorem storeResolveAs_bare (form : canonicalForm name = some canonical)
    (unqualified : storeArchOf canonical = none)
    (readable : resolvePath st.files (.packages canonical) ≠ .error .io) :
    storeResolveAs st name = Verdict.answer (settle (candidates st.files canonical)) := by
  obtain ⟨valid, same, path⟩ := resolve_setup st form
  unfold storeResolveAs
  rw [if_neg (by simp [valid]), same]
  dsimp only
  rw [path]
  dsimp only
  rw [if_neg (by simp [unqualified])]
  cases direct : resolvePath st.files (.packages canonical) with
  | ok digest =>
      dsimp only
      rw [probeArches_hit, candidates, probeNames,
        publishedAmong_cons_some (published_eq_some.mpr direct), settle]
      cases settleWith canonical digest
        (publishedAmong st.files (gArches.map (archProbe canonical))) <;> rfl
  | error error =>
      have missing : published st.files canonical = none := by
        simp [published, direct]
      rcases resolvePath_error direct with rfl | rfl
      · dsimp only
        rw [probeArches_none, candidates, probeNames, publishedAmong_cons_none missing]
        cases settle (publishedAmong st.files (gArches.map (archProbe canonical))) <;> rfl
      · exact absurd direct readable

theorem storeResolve_qualified (form : canonicalForm name = some canonical)
    (qualified : (storeArchOf canonical).isSome) :
    storeResolve st name = resolvePath st.files (.packages canonical) := by
  unfold storeResolve
  rw [storeResolveAs_qualified form qualified]
  cases resolvePath st.files (.packages canonical) <;> rfl

theorem storeResolve_bare (form : canonicalForm name = some canonical)
    (unqualified : storeArchOf canonical = none)
    (readable : resolvePath st.files (.packages canonical) ≠ .error .io) :
    storeResolve st name =
      match settle (candidates st.files canonical) with
      | .absent => .error .notFound
      | .one _ digest => .ok digest
      | .ambiguous => .error .ambiguous := by
  unfold storeResolve
  rw [storeResolveAs_bare form unqualified readable]
  cases settle (candidates st.files canonical) <;> rfl

theorem storeResolve_of_none (noForm : canonicalForm name = none) :
    storeResolve st name = .error .invalidName := by
  rw [storeResolve, storeResolveAs_of_none noForm]

theorem storeResolve_io (form : canonicalForm name = some canonical)
    (unreadable : resolvePath st.files (.packages canonical) = .error .io) :
    storeResolve st name = .error .io := by
  rw [storeResolve, storeResolveAs_io form unreadable]

/-- Candidates that all carry one digest resolve to it. -/
theorem storeResolve_of_agree (form : canonicalForm name = some canonical)
    (unqualified : storeArchOf canonical = none)
    (readable : resolvePath st.files (.packages canonical) ≠ .error .io) {digest : Bytes}
    (some : candidates st.files canonical ≠ [])
    (agree : ∀ candidate ∈ candidates st.files canonical, candidate.2 = digest) :
    storeResolve st name = .ok digest := by
  rw [storeResolve_bare form unqualified readable]
  obtain ⟨head, tail, shape⟩ := List.exists_cons_of_ne_nil some
  have same : head.2 = digest := agree head (by rw [shape]; exact List.mem_cons_self)
  have verdict : settle (candidates st.files canonical) = .one head.1 digest := by
    apply settle_eq_one.mpr
    refine ⟨?_, agree⟩
    rw [shape, ← same]
    rfl
  rw [verdict]

/-- A bare name that resolves has candidates, and they agree. -/
theorem candidates_of_storeResolve (form : canonicalForm name = some canonical)
    (unqualified : storeArchOf canonical = none) {digest : Bytes}
    (resolved : storeResolve st name = .ok digest) :
    resolvePath st.files (.packages canonical) ≠ .error .io ∧
      candidates st.files canonical ≠ [] ∧
      ∀ candidate ∈ candidates st.files canonical, candidate.2 = digest := by
  have readable : resolvePath st.files (.packages canonical) ≠ .error .io := by
    intro unreadable
    rw [storeResolve_io form unreadable] at resolved
    contradiction
  rw [storeResolve_bare form unqualified readable] at resolved
  refine ⟨readable, ?_⟩
  split at resolved
  next => contradiction
  next key found verdict =>
    obtain ⟨first, agree⟩ := settle_eq_one.mp verdict
    rw [← Except.ok.inj resolved]
    refine ⟨?_, agree⟩
    intro empty
    rw [empty] at first
    contradiction
  next => contradiction

/-- A successful resolution answers with one of the names it reads, and with the
digest published under it. -/
theorem storeResolveAs_published {resolved : Resolved}
    (found : storeResolveAs st name = .ok resolved) :
    ∃ canonical, canonicalForm name = some canonical ∧
      resolved.name ∈ probeNames canonical ∧
      published st.files resolved.name = some resolved.digest := by
  cases form : canonicalForm name with
  | none =>
      rw [storeResolveAs_of_none form] at found
      contradiction
  | some canonical =>
      refine ⟨canonical, rfl, ?_⟩
      cases arch : storeArchOf canonical with
      | some word =>
          rw [storeResolveAs_qualified form (by simp [arch])] at found
          split at found
          next digest direct =>
            rw [← Except.ok.inj found]
            exact ⟨List.mem_cons_self, published_eq_some.mpr direct⟩
          next => contradiction
      | none =>
          have readable : resolvePath st.files (.packages canonical) ≠ .error .io := by
            intro unreadable
            rw [storeResolveAs_io form unreadable] at found
            contradiction
          rw [storeResolveAs_bare form arch readable] at found
          obtain ⟨first, _⟩ := settle_eq_one.mp (Verdict.answer_ok.mp found)
          exact mem_candidates.mp (List.mem_of_mem_head? first)

/-- A name that resolves to nothing has a free path and, when bare, no candidate. -/
theorem storeResolve_notFound (form : canonicalForm name = some canonical)
    (free : storeResolve st name = .error .notFound) :
    st.files (.packages canonical) = none ∧
      (storeArchOf canonical = none → candidates st.files canonical = []) := by
  cases arch : storeArchOf canonical with
  | some word =>
      rw [storeResolve_qualified form (by simp [arch]), resolvePath_notFound] at free
      exact ⟨free, by simp⟩
  | none =>
      have readable : resolvePath st.files (.packages canonical) ≠ .error .io := by
        intro unreadable
        rw [storeResolve_io form unreadable] at free
        contradiction
      rw [storeResolve_bare form arch readable] at free
      split at free
      next verdict =>
        have empty := settle_eq_absent.mp verdict
        refine ⟨?_, fun _ => empty⟩
        cases direct : resolvePath st.files (.packages canonical) with
        | ok digest =>
            have member : (canonical, digest) ∈ candidates st.files canonical :=
              mem_candidates.mpr
                ⟨List.mem_cons_self, published_eq_some.mpr direct⟩
            rw [empty] at member
            contradiction
        | error error =>
            rcases resolvePath_error direct with rfl | rfl
            · exact resolvePath_notFound.mp direct
            · exact absurd direct readable
      next => contradiction
      next => contradiction

/-- A free name resolves to the digest it is linked to. -/
theorem storeResolve_linked {after : Store} {digest : Bytes}
    (form : canonicalForm name = some canonical) (valid : storeDigestIsValid digest = true)
    (free : storeResolve st name = .error .notFound)
    (packages : packagesOf after.files =
      Function.update (packagesOf st.files) canonical (some (.symlink (blobTarget digest)))) :
    storeResolve after name = .ok digest := by
  have fixed := canonicalForm_fixed form
  have own : resolvePath after.files (.packages canonical) = .ok digest := by
    apply resolvePath_blobTarget valid
    show packagesOf after.files canonical = _
    rw [packages, Function.update_self]
  cases arch : storeArchOf canonical with
  | some word => rw [storeResolve_qualified form (by simp [arch]), own]
  | none =>
      have empty := (storeResolve_notFound form free).2 arch
      apply storeResolve_of_agree form arch
      · rw [own]
        simp
      · apply List.ne_nil_of_mem (a := (canonical, digest))
        exact mem_candidates.mpr ⟨List.mem_cons_self, published_eq_some.mpr own⟩
      · intro candidate member
        obtain ⟨named, found⟩ := mem_candidates.mp member
        rcases mem_probeNames.mp named with same | probe
        · rw [same] at found
          exact Option.some.inj (found.symm.trans (published_eq_some.mpr own))
        · -- A probe was not published before, and is not what was linked.
          obtain ⟨word, known, same⟩ := probe
          have unchanged : published after.files candidate.1 = published st.files candidate.1 := by
            apply published_congr
            show packagesOf after.files candidate.1 = packagesOf st.files candidate.1
            rw [packages, same, Function.update_of_ne (archProbe_ne fixed)]
          rw [unchanged] at found
          have before : candidate ∈ candidates st.files canonical :=
            mem_candidates.mpr ⟨named, found⟩
          rw [empty] at before
          contradiction

/-- Resolution never reports a conflict; that is a publish's answer. -/
theorem storeResolve_ne_conflict : storeResolve st name ≠ .error .conflict := by
  intro conflict
  cases form : canonicalForm name with
  | none =>
      rw [storeResolve_of_none form] at conflict
      contradiction
  | some canonical =>
      have direct : ∀ {error}, resolvePath st.files (.packages canonical) = .error error →
          error ≠ .conflict := by
        intro error failed
        rcases resolvePath_error failed with rfl | rfl
        · simp
        · simp
      cases arch : storeArchOf canonical with
      | some word =>
          rw [storeResolve_qualified form (by simp [arch])] at conflict
          exact direct conflict rfl
      | none =>
          by_cases unreadable : resolvePath st.files (.packages canonical) = .error .io
          · rw [storeResolve_io form unreadable] at conflict
            contradiction
          · rw [storeResolve_bare form arch unreadable] at conflict
            split at conflict <;> contradiction

end Resolution

/-- Resolution reads nothing but packages/. -/
theorem storeResolveAs_congr {st after : Store}
    (packages : packagesOf after.files = packagesOf st.files) (name : Bytes) :
    storeResolveAs after name = storeResolveAs st name := by
  have direct : ∀ entry, resolvePath after.files (.packages entry) =
      resolvePath st.files (.packages entry) := by
    intro entry
    have node : after.files (.packages entry) = st.files (.packages entry) :=
      congrFun packages entry
    unfold resolvePath
    rw [node]
  have same : ∀ entry, published after.files entry = published st.files entry :=
    fun entry => published_congr (congrFun packages entry)
  cases form : canonicalForm name with
  | none => rw [storeResolveAs_of_none form, storeResolveAs_of_none form]
  | some canonical =>
      cases arch : storeArchOf canonical with
      | some word =>
          rw [storeResolveAs_qualified form (by simp [arch]),
            storeResolveAs_qualified form (by simp [arch]), direct]
      | none =>
          by_cases unreadable : resolvePath st.files (.packages canonical) = .error .io
          · rw [storeResolveAs_io form unreadable,
              storeResolveAs_io form (by rw [direct]; exact unreadable)]
          · rw [storeResolveAs_bare form arch unreadable,
              storeResolveAs_bare form arch (by rw [direct]; exact unreadable)]
            unfold candidates publishedAmong
            simp only [same]

theorem storeResolve_congr {st after : Store}
    (packages : packagesOf after.files = packagesOf st.files) (name : Bytes) :
    storeResolve after name = storeResolve st name := by
  unfold storeResolve
  rw [storeResolveAs_congr packages]

end CixCache
