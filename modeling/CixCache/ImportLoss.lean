import CixCache.Importer

/-!
Contract: what an import does with a file it cannot publish.

Owns: `NeverLost`, that a file is kept or imported; `Importable`, the state of
the store in which publishing the file is not refused; and their equivalence. The
file is moved into blobs/ before its name is published, and nothing moves it back.

Does not own: the import (`Importer`), or processes beside it.
-/

namespace CixCache

open CixCache.Lib

/-- The store and the counters when `readdir` returns the name. -/
def importUpTo (sha : Sha256sum) (sys : Sys) (st : Store) (manifest : Option JsonValue)
    (names : List Bytes) (name : Bytes) : Store × ImportStats :=
  importDir sha sys manifest false (names.takeWhile fun other => other != name) st ⟨0, 0, 0, 0, 0⟩

/-- After the import a regular file is there still, counted as failed or as
mismatched, or it was counted as imported and its name resolved to the digest of
its bytes right after its own step. -/
def NeverLost (sha : Sha256sum) (sys : Sys) (st : Store) (manifest : Option JsonValue)
    (names : List Bytes) (name content : Bytes) : Prop :=
  let reached := importUpTo sha sys st manifest names name
  let passed := importEntry sha sys manifest false name reached.1 reached.2
  ((importerRun sha sys st manifest false).1.files (.packages name) = some (.regular content) ∧
      (passed.2.failed = reached.2.failed + 1 ∨
        passed.2.mismatched = reached.2.mismatched + 1)) ∨
    passed.2.imported = reached.2.imported + 1 ∧
      storeResolve passed.1 name = .ok (sha.digest content)

instance (sha : Sha256sum) (sys : Sys) (st : Store) (manifest : Option JsonValue)
    (names : List Bytes) (name content : Bytes) :
    Decidable (NeverLost sha sys st manifest names name content) := by
  unfold NeverLost
  infer_instance

/-- The file has a canonical name; an entry of that name is the file itself,
absent or published with the digest; and so are, when the name is bare, its
spellings with an architecture that are published. -/
def Importable (files : Files) (name digest : Bytes) : Prop :=
  ∃ canonical, canonicalForm name = some canonical ∧
    (canonical = name ∨ files (.packages canonical) = none ∨
      published files canonical = some digest) ∧
    (storeArchOf canonical = none →
      ∀ arch ∈ gArches, ∀ found, published files (archProbe canonical arch) = some found →
        found = digest)

/-! ## One file -/

section File

variable {sha : Sha256sum} {sys : Sys} {st adopted : Store} {manifest : Option JsonValue}
  {name canonical digest content : Bytes} {stats : ImportStats}

/-- Adopting a file of packages/ takes it away and leaves its bytes as the blob. -/
theorem storeBlobAdopt_packages (succeeds : sys.Succeeds)
    (present : st.files (.packages name) = some (.regular content))
    (valid : storeDigestIsValid digest = true) :
    (storeBlobAdopt sys st (.packages name) digest).2 = .ok () ∧
      packagesOf (storeBlobAdopt sys st (.packages name) digest).1.files =
        Function.update (packagesOf st.files) name none ∧
      (stat (storeBlobAdopt sys st (.packages name) digest).1.files (.blobs digest)).isSome := by
  rw [storeBlobAdopt_of_valid valid]
  split
  next there =>
    have removed := unlink_of_not_failed (unlink_not_failed succeeds st.files (.packages name))
    refine ⟨rfl, ?_, ?_⟩
    · rw [Store.withFiles_files, removed, packagesOf_update_packages]
    · rw [Store.withFiles_files, stat_blobs_congr (blobsOf_unlink_packages name)]
      exact there
  next =>
    rw [rename_of_present present (succeeds _)]
    refine ⟨rfl, ?_, ?_⟩
    · rw [Store.withFiles_files, packagesOf_update_blobs, packagesOf_update_packages]
    · rw [Store.withFiles_files, stat_of_regular (Function.update_self ..)]
      rfl

/-- A regular file answers for no name, so taking it away leaves what is published. -/
theorem published_without (present : st.files (.packages name) = some (.regular content))
    (without : packagesOf adopted.files = Function.update (packagesOf st.files) name none)
    (key : Bytes) : published adopted.files key = published st.files key := by
  by_cases own : key = name
  · have gone : adopted.files (.packages name) = none := by
      show packagesOf adopted.files name = none
      rw [without, Function.update_self]
    rw [own, published_of_absent gone]
    simp [published, resolvePath, present]
  · apply published_congr
    show packagesOf adopted.files key = packagesOf st.files key
    rw [without, Function.update_of_ne own]

theorem absent_without (without : packagesOf adopted.files =
    Function.update (packagesOf st.files) name none) (key : Bytes) :
    adopted.files (.packages key) = none ↔ key = name ∨ st.files (.packages key) = none := by
  show packagesOf adopted.files key = none ↔ key = name ∨ packagesOf st.files key = none
  rw [without]
  by_cases own : key = name
  · simp [own]
  · simp [own]

/-- Once the file is taken away its name resolves to nothing or to its digest, or
publishing it is refused. -/
theorem importable_iff (present : st.files (.packages name) = some (.regular content))
    (without : packagesOf adopted.files = Function.update (packagesOf st.files) name none) :
    storeResolve adopted name = .error .notFound ∨ storeResolve adopted name = .ok digest ↔
      Importable st.files name digest := by
  have same := published_without present without
  have absent := absent_without without
  cases form : canonicalForm name with
  | none => simp [storeResolve_of_none form, Importable, form]
  | some canonical =>
      have own : resolvePath adopted.files (.packages canonical) = .error .notFound ∨
          resolvePath adopted.files (.packages canonical) = .ok digest ↔
            canonical = name ∨ st.files (.packages canonical) = none ∨
              published st.files canonical = some digest := by
        rw [resolvePath_notFound, absent, ← published_eq_some, same, or_assoc]
      have shape : Importable st.files name digest ↔
          (canonical = name ∨ st.files (.packages canonical) = none ∨
            published st.files canonical = some digest) ∧
          (storeArchOf canonical = none →
            ∀ arch ∈ gArches, ∀ found, published st.files (archProbe canonical arch) = some found →
              found = digest) := by
        simp [Importable, form]
      rw [shape, ← own]
      cases arch : storeArchOf canonical with
      | some word =>
          rw [storeResolve_qualified form (by simp [arch])]
          simp
      | none =>
          constructor
          · intro resolved
            have probes : ∀ candidate ∈ candidates adopted.files canonical,
                candidate.2 = digest := by
              rcases resolved with free | answered
              · rw [(storeResolve_notFound form free).2 arch]
                simp
              · exact (candidates_of_storeResolve form arch answered).2.2
            refine ⟨?_, ?_⟩
            · rcases resolved with free | answered
              · exact Or.inl (resolvePath_notFound.mpr (storeResolve_notFound form free).1)
              · have readable := (candidates_of_storeResolve form arch answered).1
                cases direct : resolvePath adopted.files (.packages canonical) with
                | ok found =>
                    have member : (canonical, found) ∈ candidates adopted.files canonical :=
                      mem_candidates.mpr ⟨List.mem_cons_self, published_eq_some.mpr direct⟩
                    exact Or.inr (congrArg Except.ok (probes _ member))
                | error error =>
                    rcases resolvePath_error direct with rfl | rfl
                    · exact Or.inl rfl
                    · exact absurd direct readable
            · intro _ word known found there
              rw [← same] at there
              exact probes (archProbe canonical word, found)
                (mem_candidates.mpr ⟨mem_probeNames.mpr (Or.inr ⟨word, known, rfl⟩), there⟩)
          · intro ⟨direct, probes⟩
            have readable : resolvePath adopted.files (.packages canonical) ≠ .error .io := by
              rcases direct with free | answered
              · simp [free]
              · simp [answered]
            have agree : ∀ candidate ∈ candidates adopted.files canonical,
                candidate.2 = digest := by
              intro candidate member
              obtain ⟨named, found⟩ := mem_candidates.mp member
              rcases mem_probeNames.mp named with own | ⟨word, known, probe⟩
              · rw [own, published_eq_some] at found
                rcases direct with free | answered
                · rw [free] at found
                  contradiction
                · exact (Except.ok.inj (answered.symm.trans found)).symm
              · rw [same, probe] at found
                exact probes rfl word known _ found
            by_cases empty : candidates adopted.files canonical = []
            · left
              rw [storeResolve_bare form arch readable, empty]
              rfl
            · exact Or.inr (storeResolve_of_agree form arch readable empty agree)

/-- After the adoption the publish succeeds, and the name resolves to the digest,
or it is refused. -/
theorem storePublish_adopted (succeeds : sys.Succeeds) (valid : storeDigestIsValid digest = true)
    (present : (stat adopted.files (.blobs digest)).isSome) :
    (storePublish sys adopted name digest).2 = .ok () ↔
      storeResolve adopted name = .error .notFound ∨ storeResolve adopted name = .ok digest := by
  cases form : canonicalForm name with
  | none =>
      have refused : ∃ error, error ≠ .conflict ∧
          storePublish sys adopted name digest = (adopted, .error error) :=
        storePublish_refused sys (Or.inl form)
      obtain ⟨error, _, same⟩ := refused
      simp [same, storeResolve_of_none form]
  | some canonical =>
      rw [storePublish_eq sys form valid present]
      split
      next existing resolved =>
        rw [resolved]
        split
        next same => simp [same]
        next differs => simp [differs]
      next free => simp [free, (publishLink_of_succeeds succeeds adopted canonical valid).1]
      next error other failed =>
        rw [failed]
        simpa using other

theorem storePublish_resolves (ok : (storePublish sys st name digest).2 = .ok ()) :
    storeResolve (storePublish sys st name digest).1 name = .ok digest := by
  cases storePublish_outcome sys st name digest with
  | kept packages resolved =>
      rw [storeResolve_congr packages]
      exact resolved ok
  | linked canonical form valid present free _ packages =>
      exact storeResolve_linked form valid free packages

/-- The turn of a regular file: it is mismatched and stays, or it is adopted, and
imported or lost. -/
theorem importEntry_regular (succeeds : sys.Succeeds) (nameValid : storeNameIsValid name = true)
    (present : st.files (.packages name) = some (.regular content)) (stats : ImportStats) :
    importEntry sha sys manifest false name st stats =
      if manifestDisagrees manifest (ascii "packages/" ++ name) (sha.digest content) then
        (st, { stats with mismatched := stats.mismatched + 1 })
      else
        importFile sys st name (sha.digest content) (.packages name)
          { stats with bytes := stats.bytes + content.length } := by
  have hashed : storeHashFile sha sys st (.packages name) = some (sha.digest content) := by
    unfold storeHashFile
    rw [if_pos (succeeds _), stat_of_regular present]
    dsimp only
    rw [if_pos (sha.valid content)]
  unfold importEntry
  rw [if_neg (storeNameIsValid.text nameValid).head, if_neg (by simp [nameValid]),
    rawEntryPath_of_lt _ (storeNameIsValid.length_lt nameValid)]
  dsimp only
  rw [present]
  dsimp only
  rw [hashed]
  rfl

/-- The outcomes of a file that is adopted. -/
theorem importFile_outcome (succeeds : sys.Succeeds)
    (present : st.files (.packages name) = some (.regular content))
    (valid : storeDigestIsValid digest = true) (stats : ImportStats) :
    (Importable st.files name digest ∧
        (importFile sys st name digest (.packages name) stats).2 =
          { stats with imported := stats.imported + 1 } ∧
        storeResolve (importFile sys st name digest (.packages name) stats).1 name =
          .ok digest) ∨
      ¬ Importable st.files name digest ∧
        (importFile sys st name digest (.packages name) stats).2 =
          { stats with failed := stats.failed + 1 } ∧
        (importFile sys st name digest (.packages name) stats).1.files (.packages name) = none := by
  obtain ⟨ok, without, there⟩ := storeBlobAdopt_packages succeeds present valid
  have publishes := (storePublish_adopted succeeds valid there).trans
    (importable_iff present without)
  unfold importFile
  split
  next adopted error failed =>
    rw [failed] at ok
    contradiction
  next adopted done =>
    rw [done] at without there publishes
    split
    next after error refused =>
      rw [refused] at publishes
      refine Or.inr ⟨fun importable => ?_, rfl, ?_⟩
      · have impossible := publishes.mpr importable
        contradiction
      · have outcome := storePublish_outcome sys adopted name digest
        rw [refused] at outcome
        cases outcome with
        | kept packages _ =>
            show packagesOf after.files name = none
            rw [packages, without, Function.update_self]
        | linked canonical form valid present free ok packages => contradiction
    next after published =>
      have resolves : (storePublish sys adopted name digest).2 = .ok () → _ :=
        storePublish_resolves
      rw [published] at publishes resolves
      exact Or.inl ⟨publishes.mp rfl, rfl, resolves rfl⟩

end File

/-! ## The other files -/

section Others

variable {sha : Sha256sum} {sys : Sys} {st : Store} {manifest : Option JsonValue}
  {name other content : Bytes} {names : List Bytes} {stats : ImportStats}

theorem storeBlobAdopt_cases (sys : Sys) (st : Store) (name digest : Bytes) :
    packagesOf (storeBlobAdopt sys st (.packages name) digest).1.files = packagesOf st.files ∨
      packagesOf (storeBlobAdopt sys st (.packages name) digest).1.files =
        Function.update (packagesOf st.files) name none := by
  unfold storeBlobAdopt
  split
  next => exact Or.inl rfl
  next =>
    split
    next => exact Or.inl rfl
    next path located =>
      obtain rfl := blobPath_eq_some located
      split
      next =>
        rw [Store.withFiles_files]
        rcases unlink_files sys st.files (.packages name) with same | removed
        · rw [same]
          exact Or.inl rfl
        · rw [removed, packagesOf_update_packages]
          exact Or.inr rfl
      next =>
        split
        next => exact Or.inl rfl
        next files renamed =>
          obtain ⟨node, _, rfl⟩ := rename_eq_some renamed
          rw [Store.withFiles_files, packagesOf_update_blobs, packagesOf_update_packages]
          exact Or.inr rfl

/-- A publish replaces no regular file, and makes none. -/
theorem storePublish_regular (sys : Sys) (st : Store) (name digest : Bytes) :
    packagesOf (storePublish sys st name digest).1.files other = some (.regular content) ↔
      packagesOf st.files other = some (.regular content) := by
  cases storePublish_outcome sys st name digest with
  | kept packages _ => rw [packages]
  | linked canonical form valid present free _ packages =>
      have absent : packagesOf st.files canonical = none := (storeResolve_notFound form free).1
      rw [packages]
      by_cases own : other = canonical
      · rw [own, Function.update_self, absent]
        simp
      · rw [Function.update_of_ne own]

/-- The turns of other names leave a regular file alone. -/
theorem importDir_keeps (absent : name ∉ names)
    (present : packagesOf st.files name = some (.regular content)) :
    packagesOf (importDir sha sys manifest false names st stats).1.files name =
      some (.regular content) := by
  induction names generalizing st stats with
  | nil => exact present
  | cons head tail inductionHypothesis =>
      rw [List.mem_cons, not_or] at absent
      unfold importDir
      apply inductionHypothesis absent.2
      refine importEntry_induct (motive := fun files =>
        packagesOf files name = some (.regular content)) present ?_ ?_
      · intro bytes _
        rcases storeBlobAdopt_cases sys st head (sha.digest bytes) with same | removed
        · rw [same]
          exact present
        · rw [removed, Function.update_of_ne absent.1]
          exact present
      · intro adopted digest kept
        rw [storePublish_regular]
        exact kept

/-- No turn makes a regular file. -/
theorem importDir_makes_none
    (present : packagesOf (importDir sha sys manifest false names st stats).1.files name =
      some (.regular content)) :
    packagesOf st.files name = some (.regular content) := by
  revert present
  apply importDir_induct (motive := fun files =>
    packagesOf files name = some (.regular content) →
      packagesOf st.files name = some (.regular content))
  · exact id
  · intro before head bytes kept _ present
    apply kept
    rcases storeBlobAdopt_cases sys before head (sha.digest bytes) with same | removed
    · rw [← same]
      exact present
    · rw [removed] at present
      by_cases own : name = head
      · rw [own, Function.update_self] at present
        contradiction
      · rw [Function.update_of_ne own] at present
        exact present
  · intro adopted head digest kept present
    rw [storePublish_regular] at present
    exact kept present

end Others

/-! ## The whole import -/

section Import

variable {sha : Sha256sum} {sys : Sys} {st : Store} {manifest : Option JsonValue}
  {names : List Bytes} {name content : Bytes}

theorem importDir_append (first second : List Bytes) (st : Store) (stats : ImportStats) :
    importDir sha sys manifest false (first ++ second) st stats =
      importDir sha sys manifest false second
        (importDir sha sys manifest false first st stats).1
        (importDir sha sys manifest false first st stats).2 := by
  induction first generalizing st stats with
  | nil => rfl
  | cons head tail inductionHypothesis =>
      simp only [List.cons_append, importDir]
      exact inductionHypothesis _ _

/-- A file is kept or imported exactly when the manifest disagrees with its bytes
or, at its own turn, nothing stands against publishing it. -/
theorem neverLost_iff (succeeds : sys.Succeeds) (listing : sys.Listing st.files .packages)
    (opened : sys.readdir .packages = some names) (valid : storeNameIsValid name = true)
    (present : st.files (.packages name) = some (.regular content)) :
    NeverLost sha sys st manifest names name content ↔
      manifestDisagrees manifest (ascii "packages/" ++ name) (sha.digest content) = true ∨
        Importable (importUpTo sha sys st manifest names name).1.files name
          (sha.digest content) := by
  obtain ⟨nodup, listed⟩ := listing names opened
  have member : name ∈ names := by
    apply (listed name).mpr
    left
    show (st.files (.packages name)).isSome
    rw [present]
    rfl
  obtain ⟨before, after, split⟩ := List.append_of_mem member
  have fresh : name ∉ before ∧ name ∉ after := by
    rw [split, List.nodup_append] at nodup
    refine ⟨fun among => ?_, (List.nodup_cons.mp nodup.2.1).1⟩
    exact nodup.2.2 name among name List.mem_cons_self rfl
  have upTo : names.takeWhile (fun other => other != name) = before := by
    rw [split, List.takeWhile_append_of_pos]
    · simp
    · intro other among
      have differs : other ≠ name := by
        rintro rfl
        exact fresh.1 among
      simpa using differs
  have reached : (importUpTo sha sys st manifest names name).1.files (.packages name) =
      some (.regular content) := by
    unfold importUpTo
    rw [upTo]
    exact importDir_keeps fresh.1 present
  have final : (importerRun sha sys st manifest false).1 =
      (importDir sha sys manifest false after
        (importEntry sha sys manifest false name (importUpTo sha sys st manifest names name).1
          (importUpTo sha sys st manifest names name).2).1
        (importEntry sha sys manifest false name (importUpTo sha sys st manifest names name).1
          (importUpTo sha sys st manifest names name).2).2).1 := by
    unfold importerRun importUpTo
    rw [opened, upTo, split]
    dsimp only
    rw [importDir_append]
    rfl
  unfold NeverLost
  dsimp only
  rw [final, importEntry_regular succeeds valid reached]
  by_cases disagrees : manifestDisagrees manifest (ascii "packages/" ++ name)
      (sha.digest content) = true
  · rw [if_pos disagrees]
    exact iff_of_true (Or.inl ⟨importDir_keeps fresh.2 reached, Or.inr rfl⟩) (Or.inl disagrees)
  · rw [if_neg disagrees]
    rcases importFile_outcome succeeds reached (sha.valid content)
      { (importUpTo sha sys st manifest names name).2 with
        bytes := (importUpTo sha sys st manifest names name).2.bytes + content.length } with
      ⟨importable, counted, resolves⟩ | ⟨refused, counted, gone⟩
    · refine iff_of_true (Or.inr ⟨?_, resolves⟩) (Or.inr importable)
      rw [counted]
    · refine iff_of_false ?_ (by simp [disagrees, refused])
      rintro (⟨kept, _⟩ | ⟨imported, _⟩)
      · have earlier := importDir_makes_none kept
        have absent : packagesOf _ name = none := gone
        rw [absent] at earlier
        contradiction
      · rw [counted] at imported
        dsimp only at imported
        omega

end Import

/-! ### A file behind an architecture -/

/-- A static export of foo-1-1.tar.gz and bar-1-1-x86_64.tar.gz next to a published
foo-1-1-x86_64.tar.gz. -/
def shadowedExport : Store where
  root := Root.standard
  pid := 1
  tmpCounter := 0
  files
    | .packages name =>
        if name = ascii "foo-1-1.tar.gz" then some (.regular (ascii "a"))
        else if name = ascii "bar-1-1-x86_64.tar.gz" then some (.regular (ascii "b"))
        else if name = ascii "foo-1-1-x86_64.tar.gz" then
          some (.symlink (blobTarget (Sha256sum.sample.digest (ascii "b"))))
        else none
    | .blobs digest =>
        if digest = Sha256sum.sample.digest (ascii "b") then some (.regular (ascii "b")) else none
    | .tmp _ => none

def shadowedNames : List Bytes :=
  [[dot], [dot, dot], ascii "foo-1-1.tar.gz", ascii "bar-1-1-x86_64.tar.gz",
    ascii "foo-1-1-x86_64.tar.gz"]

def shadowedSys : Sys := Sys.succeeding fun _ => some shadowedNames

/-- The file is moved away, its name is refused, and nothing under packages/ has
its bytes. -/
theorem shadowed_file_lost :
    ¬ NeverLost .sample shadowedSys shadowedExport none shadowedNames (ascii "foo-1-1.tar.gz")
        (ascii "a") ∧
      (importerRun .sample shadowedSys shadowedExport none false).1.files
        (.packages (ascii "foo-1-1.tar.gz")) = none ∧
      (importerRun .sample shadowedSys shadowedExport none false).2.1.failed = 1 := by
  decide +kernel

/-- The file beside it names its architecture and is imported. -/
theorem qualified_file_kept :
    NeverLost .sample shadowedSys shadowedExport none shadowedNames
      (ascii "bar-1-1-x86_64.tar.gz") (ascii "b") := by
  have listing : shadowedSys.Listing shadowedExport.files .packages := by
    intro names opened
    obtain rfl : shadowedNames = names := Option.some.inj opened
    refine ⟨by decide, fun name => ?_⟩
    show _ ↔ (shadowedExport.files (.packages name)).isSome ∨ _
    simp only [shadowedNames, List.mem_cons, List.not_mem_nil, or_false, shadowedExport]
    constructor
    · rintro (rfl | rfl | rfl | rfl | rfl) <;> decide
    · rintro (there | rfl | rfl)
      · split at there
        next foo => simp [foo]
        next =>
          split at there
          next bar => simp [bar]
          next =>
            split at there
            next entry => simp [entry]
            next => contradiction
      · simp
      · simp
  apply (neverLost_iff (Sys.succeeds_succeeding _) listing rfl (by decide +kernel) rfl).mpr
  refine Or.inr ⟨ascii "bar-1-1-x86_64.tar.gz", by decide +kernel, Or.inl rfl, ?_⟩
  intro unqualified
  have qualified : storeArchOf (ascii "bar-1-1-x86_64.tar.gz") ≠ none := by decide +kernel
  exact absurd unqualified qualified

end CixCache
