import CixCache.Document.Parsed
import CixCache.Document.Recorded
import CixCache.ImportLoss
import CixCache.Invariant

/-!
Contract: a store exported together with its manifest, and imported again.

Owns: `Mirrors`, a tree of files with the bytes behind every entry of a store;
`Overruled`, the one thing that makes the importer refuse such a file, an entry of
another spelling that was imported before it; that the import restores every answer of
the store exactly when no file is overruled; and that a file whose bytes are not
the recorded ones is never imported.

The manifest is the served text, parsed by the importer's own reader.

Does not own: the text and its reader (`Parsed`), or what an import loses without a
manifest (`ImportLoss`).
-/

namespace CixCache

open CixCache.Lib

/-- The manifest a server writes, as the importer loads it. -/
def savedManifest (env : DocEnv) (st : Store) : Option JsonValue :=
  jsonParse (manifestWriteJson env st jwInit).buf

/-- The target has the bytes behind every entry of the source, and no other name. -/
structure Mirrors (sha : Sha256sum) (source target : Files) : Prop where
  copied : ∀ name digest, published source name = some digest →
    ∃ content, packagesOf target name = some (.regular content) ∧ sha.digest content = digest
  nothingElse : ∀ name, published source name = none → packagesOf target name = none

/-- The later name is bare, and the earlier one is its spelling with an architecture,
published with other bytes. -/
def Overruled (source : Files) (earlier later : Bytes) : Prop :=
  storeArchOf later = none ∧ ∃ arch ∈ gArches, earlier = archProbe later arch ∧
    ∃ digest other, published source earlier = some digest ∧
      published source later = some other ∧ digest ≠ other

/-! ## The architecture of a probe -/

private theorem cut_ext_check :
    ∀ arch ∈ gArches, ∀ row ∈ gSuffixes, ∀ kept ≤ (arch ++ row.ext).length,
      ∀ other ∈ gSuffixes, other.ext <:+ (arch ++ row.ext).take kept →
        (arch ++ row.ext).take kept = arch ++ other.ext := by
  decide +kernel

private theorem ext_no_dash : ∀ row ∈ gSuffixes, dash ∉ row.ext := by decide

/-- A probe that is a valid name carries the architecture it asks for, also when
its buffer cut it. -/
theorem storeArchOf_archProbe {name arch : Bytes} (canonical : canonicalForm name = some name)
    (unqualified : storeArchOf name = none) (known : arch ∈ gArches)
    (valid : storeNameIsValid (archProbe name arch) = true) :
    storeArchOf (archProbe name arch) = some arch := by
  have nameFits := storeNameIsValid.length_lt (canonicalForm_valid canonical)
  obtain ⟨parts, rfl, bare, _⟩ := parts_of_canonical_bare canonical unqualified
  have renderLength : parts.render.length = parts.base.length + parts.suffix.ext.length := by
    rw [NameParts.render, NameParts.stem_of_bare bare, List.length_append]
  have extPositive : 4 ≤ parts.suffix.ext.length :=
    (by decide : ∀ row ∈ gSuffixes, 4 ≤ row.ext.length) _ parts.suffix_known
  have regroup : archName parts.render arch =
      (parts.base ++ [dash]) ++ (arch ++ parts.suffix.ext) := by
    rw [NameParts.archName_render bare known]
    simp [NameParts.render, NameParts.stem, NameParts.archTail, NameParts.withArch]
  -- The buffer holds the base and its hyphen; what it cuts is behind them.
  obtain ⟨kept, cut⟩ : ∃ kept, archProbe parts.render arch =
      parts.base ++ dash :: (arch ++ parts.suffix.ext).take kept := by
    unfold storeNameMax at nameFits
    refine ⟨254 - parts.base.length, ?_⟩
    have headLength : (parts.base ++ [dash]).length = parts.base.length + 1 := by simp
    have index : storeNameMax - 1 - (parts.base ++ [dash]).length = 254 - parts.base.length := by
      rw [headLength, storeNameMax]
      omega
    rw [archProbe, regroup, snprintf, List.take_append, index,
      List.take_of_length_le (by rw [headLength, storeNameMax]; omega)]
    simp
  obtain ⟨ext, found⟩ := Option.isSome_iff_exists.mp (storeNameIsValid_iff.mp valid).2.2
  obtain ⟨row, rowKnown, rfl, front, _, same⟩ := storeSuffixOf_some found
  have inside : row.ext <:+ (arch ++ parts.suffix.ext).take kept := by
    have ends : row.ext <:+ parts.base ++ dash :: (arch ++ parts.suffix.ext).take kept :=
      ⟨front, by rw [← same, cut]⟩
    have tailEnds : dash :: (arch ++ parts.suffix.ext).take kept <:+
        parts.base ++ dash :: (arch ++ parts.suffix.ext).take kept := List.suffix_append _ _
    rcases List.suffix_or_suffix_of_suffix ends tailEnds with shorter | longer
    · rcases List.suffix_cons_iff.mp shorter with whole | inner
      · exact absurd (whole ▸ List.mem_cons_self) (ext_no_dash row rowKnown)
      · exact inner
    · exact absurd (longer.subset List.mem_cons_self) (ext_no_dash row rowKnown)
  have tail : (arch ++ parts.suffix.ext).take kept = arch ++ row.ext := by
    rw [List.take_eq_take_min] at inside ⊢
    exact cut_ext_check arch known parts.suffix parts.suffix_known _ (Nat.min_le_right _ _) row
      rowKnown inside
  have rendered : archProbe parts.render arch =
      ((parts.withArch arch known).withSuffix row rowKnown).render := by
    rw [cut, tail]
    simp [NameParts.render, NameParts.stem, NameParts.archTail, NameParts.withArch,
      NameParts.withSuffix]
  rw [rendered, NameParts.storeArchOf_render]
  rfl

/-! ## The saved manifest -/

section Manifest

variable {env : DocEnv} {source : Store} {name digest : Bytes}

/-- The saved manifest records no other digest for a published name. -/
theorem savedManifest_agrees (sizes : source.SizesFit) (valid : storeNameIsValid name = true)
    (entry : published source.files name = some digest) :
    manifestDisagrees (savedManifest env source) (ascii "packages/" ++ name) digest = false := by
  have file : ascii "packages/" ++ name = fileText name :=
    (fileText_of_lt (storeNameIsValid.length_lt valid)).symm
  unfold manifestDisagrees
  rw [savedManifest, manifest_parsed env sizes, file]
  split
  next recorded found =>
    obtain ⟨format, member, sameFile, rfl⟩ := manifestDigestFor_some found
    obtain ⟨e, listed, rfl⟩ := manifestOf_formats member
    have sameName : e.name = name := fileText_injective (storeNameIsValid.length_lt listed.valid)
      (storeNameIsValid.length_lt valid) sameFile
    have own := listed.entry
    rw [sameName, entry] at own
    rw [Option.some.inj own]
    simp [manifestFormat, fileBody, strcasecmpEq]
  next => rfl

/-- The saved manifest records the digest of every artifact. -/
theorem savedManifest_records (sees : env.Sees source) (sizes : source.SizesFit)
    {facts : FileFacts} (artifact : Artifact source facts) :
    manifestDigestFor (savedManifest env source) (ascii "packages/" ++ facts.name) =
      some facts.digest := by
  obtain ⟨names, opened⟩ := Option.isSome_iff_exists.mp sees.opens
  obtain ⟨e, stored, unsigned, rfl⟩ := (sees.artifact_iff opened).mp artifact
  obtain ⟨record, inManifest, inside⟩ := sees.allocates.manifest_format opened stored unsigned
  have found := manifestDigestFor_format
    (List.mem_flatMap.mpr ⟨record, inManifest, inside⟩ :
      manifestFormat source e ∈ (manifestOf env source).formats)
  have file : ascii "packages/" ++ e.name = fileText e.name :=
    (fileText_of_lt (storeNameIsValid.length_lt artifact.valid)).symm
  rw [savedManifest, manifest_parsed env sizes]
  show manifestDigestFor _ (ascii "packages/" ++ e.name) = _
  rw [file]
  exact found

end Manifest

/-! ## One turn -/

section Turn

variable {sha : Sha256sum} {sys : Sys} {st : Store} {manifest : Option JsonValue}
  {name digest content : Bytes} {stats : ImportStats} {source target : Files}
  {done names : List Bytes}

theorem importDir_cons (dryRun : Bool) : importDir sha sys manifest dryRun (name :: names) st stats =
    importDir sha sys manifest dryRun names (importEntry sha sys manifest dryRun name st stats).1
      (importEntry sha sys manifest dryRun name st stats).2 := rfl

/-- A turn never takes a failure back. -/
theorem importEntry_counts (sha : Sha256sum) (sys : Sys) (manifest : Option JsonValue)
    (dryRun : Bool) (name : Bytes) (st : Store) (stats : ImportStats) :
    stats.failed ≤ (importEntry sha sys manifest dryRun name st stats).2.failed ∧
      stats.mismatched ≤ (importEntry sha sys manifest dryRun name st stats).2.mismatched := by
  have same : stats.failed ≤ stats.failed ∧ stats.mismatched ≤ stats.mismatched :=
    ⟨Nat.le_refl _, Nat.le_refl _⟩
  unfold importEntry
  split
  next => exact same
  next =>
    split
    next => exact same
    next =>
      split
      next => exact same
      next path located =>
        split
        next => exact same
        next => exact same
        next content present =>
          split
          next => exact ⟨Nat.le_succ _, Nat.le_refl _⟩
          next digest hashed =>
            split
            next => exact ⟨Nat.le_refl _, Nat.le_succ _⟩
            next =>
              dsimp only
              split
              next => exact same
              next =>
                unfold importFile
                split
                next => exact ⟨Nat.le_succ _, Nat.le_refl _⟩
                next =>
                  split
                  next => exact ⟨Nat.le_succ _, Nat.le_refl _⟩
                  next => exact same

theorem importDir_counts (sha : Sha256sum) (sys : Sys) (manifest : Option JsonValue)
    (dryRun : Bool) (names : List Bytes) (st : Store) (stats : ImportStats) :
    stats.failed ≤ (importDir sha sys manifest dryRun names st stats).2.failed ∧
      stats.mismatched ≤ (importDir sha sys manifest dryRun names st stats).2.mismatched := by
  induction names generalizing st stats with
  | nil => exact ⟨Nat.le_refl _, Nat.le_refl _⟩
  | cons head tail inductionHypothesis =>
      have first := importEntry_counts sha sys manifest dryRun head st stats
      have later := inductionHypothesis (importEntry sha sys manifest dryRun head st stats).1
        (importEntry sha sys manifest dryRun head st stats).2
      exact ⟨first.1.trans later.1, first.2.trans later.2⟩

/-- A name without a file costs its turn nothing. -/
theorem importEntry_absent (dryRun : Bool) (absent : packagesOf st.files name = none) :
    importEntry sha sys manifest dryRun name st stats = (st, stats) := by
  unfold importEntry
  split
  next => rfl
  next =>
    split
    next => rfl
    next invalid =>
      have valid : storeNameIsValid name = true := by simpa using invalid
      rw [rawEntryPath_of_lt _ (storeNameIsValid.length_lt valid)]
      dsimp only
      rw [show st.files (.packages name) = none from absent]

/-- What a successful import leaves under a canonical name: a link to the blob, or
nothing, when a spelling with an architecture answers for it already. -/
theorem importFile_packages (succeeds : sys.Succeeds)
    (present : st.files (.packages name) = some (.regular content))
    (canonical : canonicalForm name = some name) (valid : storeDigestIsValid digest = true)
    (importable : Importable st.files name digest) :
    packagesOf (importFile sys st name digest (.packages name) stats).1.files =
        Function.update (packagesOf st.files) name (some (.symlink (blobTarget digest))) ∨
      packagesOf (importFile sys st name digest (.packages name) stats).1.files =
          Function.update (packagesOf st.files) name none ∧
        storeArchOf name = none ∧
        ∃ arch ∈ gArches, published st.files (archProbe name arch) = some digest := by
  obtain ⟨ok, without, there⟩ := storeBlobAdopt_packages succeeds present valid
  have publishes := ((storePublish_adopted succeeds valid there).trans
    (importable_iff present without)).mpr importable
  have unchanged := published_without present without
  unfold importFile
  split
  next adopted error failed =>
    rw [failed] at ok
    contradiction
  next adopted finished =>
    rw [finished] at without publishes unchanged
    dsimp only at without publishes unchanged
    have outcome := storePublish_outcome sys adopted name digest
    split
    next after error refused =>
      rw [refused] at publishes
      contradiction
    next after answered =>
      rw [answered] at outcome
      cases outcome with
      | linked form key _ _ _ _ packages =>
          obtain rfl := Option.some.inj (canonical.symm.trans key)
          left
          show packagesOf after.files = _
          rw [packages, without, Function.update_idem]
      | kept packages resolved =>
          right
          have gone : after.files (.packages name) = none := by
            show packagesOf after.files name = none
            rw [packages, without, Function.update_self]
          refine ⟨packages.trans without, ?_⟩
          have answer : storeResolve after name = .ok digest := by
            rw [storeResolve_congr packages]
            exact resolved rfl
          cases arch : storeArchOf name with
          | some word =>
              rw [storeResolve_qualified canonical (by simp [arch]),
                resolvePath_notFound.mpr gone] at answer
              contradiction
          | none =>
              refine ⟨rfl, ?_⟩
              obtain ⟨_, some, agree⟩ := candidates_of_storeResolve canonical arch answer
              obtain ⟨candidate, member⟩ := List.exists_mem_of_ne_nil _ some
              have same := agree candidate member
              obtain ⟨named, found⟩ := mem_candidates.mp member
              rw [same] at found
              rcases mem_probeNames.mp named with own | probe
              · rw [own, published_of_absent gone] at found
                contradiction
              · obtain ⟨word, known, spelled⟩ := probe
                refine ⟨word, known, ?_⟩
                rw [← spelled, ← unchanged, ← found]
                exact published_congr (congrFun packages.symm candidate.1)

/-- The state of the import of a mirror after some names: what is published is of
the source, and every name that had its turn is answered for. -/
structure Restored (source target : Files) (done : List Bytes) (current : Files) : Prop where
  pending : ∀ name, name ∉ done → packagesOf current name = packagesOf target name
  sound : ∀ name digest, published current name = some digest →
    name ∈ done ∧ published source name = some digest
  complete : ∀ name ∈ done, ∀ digest, published source name = some digest →
    published current name = some digest ∨ storeArchOf name = none ∧
      ∃ arch ∈ gArches, published current (archProbe name arch) = some digest
  readable : ∀ name ∈ done, published current name = none → packagesOf current name = none

/-- A file that had no turn is there still, and answers for nothing. -/
theorem Restored.unpublished {current : Files} (restored : Restored source target done current)
    (fresh : name ∉ done) : published current name = none := by
  by_contra some
  obtain ⟨digest, found⟩ := Option.ne_none_iff_exists'.mp some
  exact fresh (restored.sound name digest found).1

theorem Restored.overruled_iff {current : Files} (restored : Restored source target done current)
    (holds : StoreInvariant sha source) (entry : published source name = some digest) :
    Importable current name digest ↔ ∀ earlier ∈ done, ¬ Overruled source earlier name := by
  have canonical := (holds.published entry).1
  constructor
  · intro importable earlier member overruled
    obtain ⟨bare, arch, known, rfl, found, other, stated, own, differs⟩ := overruled
    obtain ⟨form, same, _, probes⟩ := importable
    obtain rfl := Option.some.inj (canonical.symm.trans same)
    have probeValid := canonicalForm_valid (holds.published stated).1
    have qualified := storeArchOf_archProbe canonical bare known probeValid
    rcases restored.complete _ member found stated with there | through
    · rw [entry] at own
      rw [probes bare arch known found there, Option.some.inj own] at differs
      contradiction
    · rw [qualified] at through
      exact absurd through.1 (by simp)
  · intro free
    refine ⟨name, canonical, Or.inl rfl, ?_⟩
    intro bare arch known found there
    obtain ⟨member, stated⟩ := restored.sound _ _ there
    by_contra differs
    exact free _ member ⟨bare, arch, known, rfl, found, digest, stated, entry, differs⟩

/-- The turn of a name that is published nowhere. -/
theorem Restored.skip {current : Files} (restored : Restored source target done current)
    (fresh : name ∉ done) (mirror : Mirrors sha source target)
    (entry : published source name = none) :
    Restored source target (done ++ [name]) current where
  pending := fun other notDone =>
    restored.pending other fun member => notDone (List.mem_append_left _ member)
  sound := fun other digest found =>
    ⟨List.mem_append_left _ (restored.sound other digest found).1,
      (restored.sound other digest found).2⟩
  complete := by
    intro other member digest stated
    rcases List.mem_append.mp member with earlier | own
    · exact restored.complete other earlier digest stated
    · rw [List.mem_singleton.mp own, entry] at stated
      contradiction
  readable := by
    intro other member missing
    rcases List.mem_append.mp member with earlier | own
    · exact restored.readable other earlier missing
    · rw [List.mem_singleton.mp own, restored.pending name fresh]
      exact mirror.nothingElse name entry

/-- The turn of a published name that is imported. -/
theorem Restored.imported {current after : Files} (restored : Restored source target done current)
    (fresh : name ∉ done) (entry : published source name = some digest)
    (packages : packagesOf after =
        Function.update (packagesOf current) name (some (.symlink (blobTarget digest))) ∨
      packagesOf after = Function.update (packagesOf current) name none ∧
        storeArchOf name = none ∧
        ∃ arch ∈ gArches, published current (archProbe name arch) = some digest) :
    Restored source target (done ++ [name]) after := by
  have others : ∀ other, other ≠ name → packagesOf after other = packagesOf current other := by
    intro other differs
    rcases packages with linked | through
    · rw [linked, Function.update_of_ne differs]
    · rw [through.1, Function.update_of_ne differs]
  have same : ∀ other, other ≠ name → published after other = published current other :=
    fun other differs => published_congr (others other differs)
  have kept : ∀ {other value}, published current other = some value →
      published after other = some value := by
    intro other value found
    have differs : other ≠ name := by
      rintro rfl
      rw [restored.unpublished fresh] at found
      contradiction
    rw [same other differs]
    exact found
  have own : published after name = some digest ∨ packagesOf after name = none ∧
      storeArchOf name = none ∧
        ∃ arch ∈ gArches, published after (archProbe name arch) = some digest := by
    rcases packages with linked | through
    · left
      apply published_eq_some.mpr
      apply resolvePath_blobTarget (published_valid entry)
      show packagesOf after name = _
      rw [linked, Function.update_self]
    · right
      obtain ⟨gone, bare, arch, known, found⟩ := through
      refine ⟨?_, bare, arch, known, kept found⟩
      rw [gone, Function.update_self]
  constructor
  · intro other notDone
    rw [List.mem_append, List.mem_singleton, not_or] at notDone
    rw [others other notDone.2]
    exact restored.pending other notDone.1
  · intro other value found
    by_cases isName : other = name
    · rcases own with linked | through
      · rw [isName, linked] at found
        rw [isName, ← Option.some.inj found]
        exact ⟨List.mem_append_right _ (List.mem_singleton.mpr rfl), entry⟩
      · rw [isName, published_of_absent through.1] at found
        contradiction
    · rw [same other isName] at found
      obtain ⟨member, stated⟩ := restored.sound other value found
      exact ⟨List.mem_append_left _ member, stated⟩
  · intro other member value stated
    rcases List.mem_append.mp member with earlier | isName
    · rcases restored.complete other earlier value stated with there | through
      · exact Or.inl (kept there)
      · obtain ⟨bare, arch, known, found⟩ := through
        exact Or.inr ⟨bare, arch, known, kept found⟩
    · rw [List.mem_singleton.mp isName, entry] at stated
      rw [List.mem_singleton.mp isName, ← Option.some.inj stated]
      rcases own with linked | through
      · exact Or.inl linked
      · exact Or.inr through.2
  · intro other member missing
    by_cases isName : other = name
    · rcases own with linked | through
      · rw [isName, linked] at missing
        contradiction
      · rw [isName]
        exact through.1
    · rw [same other isName] at missing
      rw [others other isName]
      rcases List.mem_append.mp member with earlier | absurdly
      · exact restored.readable other earlier missing
      · exact absurd (List.mem_singleton.mp absurdly) isName

/-- One turn of the import of a mirror. -/
theorem importEntry_mirror (stats : ImportStats) (succeeds : sys.Succeeds) (holds : StoreInvariant sha source)
    (mirror : Mirrors sha source target)
    (agrees : ∀ name digest, storeNameIsValid name = true → published source name = some digest →
      manifestDisagrees manifest (ascii "packages/" ++ name) digest = false)
    (restored : Restored source target done st.files) (fresh : name ∉ done) :
    (∀ earlier ∈ done, ¬ Overruled source earlier name) ∧
        Restored source target (done ++ [name])
          (importEntry sha sys manifest false name st stats).1.files ∧
        (importEntry sha sys manifest false name st stats).2.failed = stats.failed ∧
        (importEntry sha sys manifest false name st stats).2.mismatched = stats.mismatched ∨
      (¬ ∀ earlier ∈ done, ¬ Overruled source earlier name) ∧
        stats.failed < (importEntry sha sys manifest false name st stats).2.failed := by
  cases entry : published source name with
  | none =>
      have absent : packagesOf st.files name = none := by
        rw [restored.pending name fresh]
        exact mirror.nothingElse name entry
      rw [importEntry_absent false absent]
      refine Or.inl ⟨?_, restored.skip fresh mirror entry, rfl, rfl⟩
      intro earlier _ overruled
      obtain ⟨_, _, _, _, _, other, _, own, _⟩ := overruled
      rw [entry] at own
      contradiction
  | some digest =>
      obtain ⟨canonical, _, _⟩ := holds.published entry
      have valid := canonicalForm_valid canonical
      obtain ⟨content, copied, hashes⟩ := mirror.copied name digest entry
      have present : st.files (.packages name) = some (.regular content) := by
        show packagesOf st.files name = _
        rw [restored.pending name fresh, copied]
      have digestValid := published_valid entry
      rw [importEntry_regular succeeds valid present stats, hashes, agrees name digest valid entry,
        if_neg (by simp)]
      rcases importFile_outcome succeeds present digestValid
        { stats with bytes := stats.bytes + content.length } with
        ⟨importable, counted, _⟩ | ⟨refused, counted, _⟩
      · refine Or.inl ⟨(restored.overruled_iff holds entry).mp importable, ?_, ?_, ?_⟩
        · exact restored.imported fresh entry
            (importFile_packages succeeds present canonical digestValid importable)
        · rw [counted]
        · rw [counted]
      · refine Or.inr ⟨fun free => refused ((restored.overruled_iff holds entry).mpr free), ?_⟩
        rw [counted]
        exact Nat.lt_succ_self _

/-- No file is overruled by one that had its turn before it. -/
def InOrder (source : Files) (done names : List Bytes) : Prop :=
  (∀ earlier ∈ done, ∀ later ∈ names, ¬ Overruled source earlier later) ∧
    names.Pairwise fun earlier later => ¬ Overruled source earlier later

theorem inOrder_cons : InOrder source done (name :: names) ↔
    (∀ earlier ∈ done, ¬ Overruled source earlier name) ∧
      InOrder source (done ++ [name]) names := by
  unfold InOrder
  rw [List.pairwise_cons]
  constructor
  · rintro ⟨before, own, rest⟩
    refine ⟨fun earlier member => before earlier member name List.mem_cons_self, ?_, rest⟩
    intro earlier member later among
    rcases List.mem_append.mp member with old | isName
    · exact before earlier old later (List.mem_cons_of_mem _ among)
    · rw [List.mem_singleton.mp isName]
      exact own later among
  · rintro ⟨head, before, rest⟩
    refine ⟨?_, fun later among => before name (by simp) later among, rest⟩
    intro earlier member later among
    rcases List.mem_cons.mp among with isName | other
    · rw [isName]
      exact head earlier member
    · exact before earlier (List.mem_append_left _ member) later other

/-- The turns of a mirror: nothing fails exactly when no file is overruled, and then
every name is answered for. -/
theorem importDir_mirror (stats : ImportStats) (succeeds : sys.Succeeds) (holds : StoreInvariant sha source)
    (mirror : Mirrors sha source target)
    (agrees : ∀ name digest, storeNameIsValid name = true → published source name = some digest →
      manifestDisagrees manifest (ascii "packages/" ++ name) digest = false)
    (restored : Restored source target done st.files) (distinct : (done ++ names).Nodup) :
    InOrder source done names ∧
        Restored source target (done ++ names)
          (importDir sha sys manifest false names st stats).1.files ∧
        (importDir sha sys manifest false names st stats).2.failed = stats.failed ∧
        (importDir sha sys manifest false names st stats).2.mismatched = stats.mismatched ∨
      ¬ InOrder source done names ∧
        stats.failed < (importDir sha sys manifest false names st stats).2.failed := by
  induction names generalizing done st stats with
  | nil =>
      refine Or.inl ⟨⟨by simp, List.Pairwise.nil⟩, ?_, rfl, rfl⟩
      rw [List.append_nil]
      exact restored
  | cons head tail inductionHypothesis =>
      have fresh : head ∉ done := by
        intro member
        exact (List.nodup_append.mp distinct).2.2 head member head List.mem_cons_self rfl
      have regroup : done ++ head :: tail = (done ++ [head]) ++ tail := by simp
      rw [regroup] at distinct ⊢
      rw [inOrder_cons, importDir_cons]
      rcases importEntry_mirror stats succeeds holds mirror agrees restored fresh with
        ⟨free, next, failed, mismatched⟩ | ⟨overruled, failed⟩
      · rcases inductionHypothesis _ next distinct with
          ⟨inOrder, final, failures, mismatches⟩ | ⟨outOfOrder, failures⟩
        · exact Or.inl ⟨⟨free, inOrder⟩, final, failures.trans failed, mismatches.trans mismatched⟩
        · refine Or.inr ⟨fun both => outOfOrder both.2, ?_⟩
          rw [failed] at failures
          exact failures
      · exact Or.inr ⟨fun both => overruled both.1,
          Nat.lt_of_lt_of_le failed (importDir_counts _ _ _ false _ _ _).1⟩

end Turn

/-! ## The whole import -/

section Import

variable {sha : Sha256sum} {sys : Sys} {env : DocEnv} {src st : Store} {names : List Bytes}

/-- Two bare names whose candidates carry the same digests resolve alike. -/
theorem storeResolve_same_candidates {st other : Store} {name canonical : Bytes}
    (form : canonicalForm name = some canonical) (bare : storeArchOf canonical = none)
    (readable : resolvePath st.files (.packages canonical) ≠ .error .io)
    (otherReadable : resolvePath other.files (.packages canonical) ≠ .error .io)
    (sub : ∀ candidate ∈ candidates st.files canonical,
      ∃ more ∈ candidates other.files canonical, more.2 = candidate.2)
    (sup : ∀ candidate ∈ candidates other.files canonical,
      ∃ less ∈ candidates st.files canonical, less.2 = candidate.2) :
    storeResolve st name = storeResolve other name := by
  cases verdict : settle (candidates other.files canonical) with
  | absent =>
      have none : candidates other.files canonical = [] := settle_eq_absent.mp verdict
      have empty : candidates st.files canonical = [] := by
        by_contra some
        obtain ⟨candidate, member⟩ := List.exists_mem_of_ne_nil _ some
        obtain ⟨_, impossible, _⟩ := sub candidate member
        rw [none] at impossible
        contradiction
      rw [storeResolve_bare form bare readable, storeResolve_bare form bare otherReadable, none,
        empty]
  | one key digest =>
      obtain ⟨first, agree⟩ := settle_eq_one.mp verdict
      have inhabited := List.mem_of_mem_head? first
      rw [storeResolve_of_agree form bare otherReadable (List.ne_nil_of_mem inhabited) agree]
      apply storeResolve_of_agree form bare readable
      · obtain ⟨less, member, _⟩ := sup _ inhabited
        exact List.ne_nil_of_mem member
      · intro candidate member
        obtain ⟨more, among, same⟩ := sub candidate member
        rw [← same]
        exact agree more among
  | ambiguous =>
      obtain ⟨first, firstMember, second, secondMember, differ⟩ := settle_eq_ambiguous.mp verdict
      obtain ⟨less, member, same⟩ := sup first firstMember
      obtain ⟨also, alsoMember, alsoSame⟩ := sup second secondMember
      have disagree : settle (candidates st.files canonical) = .ambiguous :=
        settle_eq_ambiguous.mpr
          ⟨less, member, also, alsoMember, by rw [same, alsoSame]; exact differ⟩
      rw [storeResolve_bare form bare readable, storeResolve_bare form bare otherReadable, verdict,
        disagree]

/-- A tree restored in every name answers every request as the source does. -/
theorem Restored.resolves {target : Files} {current : Store}
    (restored : Restored src.files target names current.files)
    (holds : StoreInvariant sha src.files) (entries : EntryMap src.files)
    (mirror : Mirrors sha src.files target)
    (every : ∀ name, (packagesOf target name).isSome → name ∈ names) (name : Bytes) :
    storeResolve current name = storeResolve src name := by
  have listed : ∀ key digest, published src.files key = some digest → key ∈ names := by
    intro key digest stated
    apply every
    obtain ⟨content, copied, _⟩ := mirror.copied key digest stated
    rw [copied]
    rfl
  have free : ∀ key, published current.files key = none →
      current.files (.packages key) = none := by
    intro key missing
    by_cases turn : key ∈ names
    · exact restored.readable key turn missing
    · show packagesOf current.files key = none
      rw [restored.pending key turn]
      cases there : packagesOf target key with
      | none => rfl
      | some node => exact absurd (every key (by rw [there]; rfl)) turn
  have readable : ∀ key, resolvePath current.files (.packages key) ≠ .error .io := by
    intro key unreadable
    have missing : published current.files key = none := by
      unfold published
      rw [unreadable]
    rw [resolvePath_notFound.mpr (free key missing)] at unreadable
    contradiction
  cases form : canonicalForm name with
  | none => rw [storeResolve_of_none form, storeResolve_of_none form]
  | some canonical =>
      cases arch : storeArchOf canonical with
      | some word =>
          have qualified : (storeArchOf canonical).isSome := by simp [arch]
          rw [storeResolve_qualified form qualified, storeResolve_qualified form qualified]
          cases stated : published src.files canonical with
          | some digest =>
              rcases restored.complete _ (listed _ _ stated) digest stated with there | through
              · rw [published_eq_some.mp there, published_eq_some.mp stated]
              · rw [arch] at through
                exact absurd through.1 (by simp)
          | none =>
              have missing : published current.files canonical = none := by
                by_contra some
                obtain ⟨digest, found⟩ := Option.ne_none_iff_exists'.mp some
                rw [(restored.sound _ _ found).2] at stated
                contradiction
              have gone : src.files (.packages canonical) = none := by
                by_contra some
                obtain ⟨node, there⟩ := Option.ne_none_iff_exists'.mp some
                have isSome := entries.resolves canonical node there
                rw [stated] at isSome
                contradiction
              rw [resolvePath_notFound.mpr (free canonical missing), resolvePath_notFound.mpr gone]
      | none =>
          apply storeResolve_same_candidates form arch (readable canonical)
            (entries.readable canonical)
          · intro candidate member
            obtain ⟨named, found⟩ := mem_candidates.mp member
            exact ⟨candidate, mem_candidates.mpr ⟨named, (restored.sound _ _ found).2⟩, rfl⟩
          · intro candidate member
            obtain ⟨named, stated⟩ := mem_candidates.mp member
            have own := restored.complete _ (listed _ _ stated) _ stated
            rcases own with there | through
            · exact ⟨candidate, mem_candidates.mpr ⟨named, there⟩, rfl⟩
            · obtain ⟨bare, word, known, found⟩ := through
              -- A probe has an architecture, so it is the canonical name that is answered for.
              have isOwn : candidate.1 = canonical := by
                rcases mem_probeNames.mp named with own | probe
                · exact own
                · obtain ⟨other, otherKnown, spelled⟩ := probe
                  have valid := canonicalForm_valid (holds.published stated).1
                  rw [spelled] at bare valid
                  rw [storeArchOf_archProbe (canonicalForm_fixed form) arch otherKnown valid] at bare
                  contradiction
              rw [isOwn] at found
              exact ⟨(archProbe canonical word, candidate.2), mem_candidates.mpr
                ⟨mem_probeNames.mpr (Or.inr ⟨word, known, rfl⟩), found⟩, rfl⟩

/-- The export of a store is imported whole exactly when no bare name comes after a
spelling of it that has other bytes; and then every name resolves as in the store. -/
theorem mirror_imported_iff (holds : StoreInvariant sha src.files) (entries : EntryMap src.files)
    (sizes : src.SizesFit) (mirror : Mirrors sha src.files st.files) (succeeds : sys.Succeeds)
    (listing : sys.Listing st.files .packages) (opened : sys.readdir .packages = some names) :
    ((importerRun sha sys st (savedManifest env src) false).2.2 = true ↔
        names.Pairwise fun earlier later => ¬ Overruled src.files earlier later) ∧
      ((importerRun sha sys st (savedManifest env src) false).2.2 = true →
        ∀ name, storeResolve (importerRun sha sys st (savedManifest env src) false).1 name =
          storeResolve src name) := by
  obtain ⟨distinct, listed⟩ := listing names opened
  have start : Restored src.files st.files [] st.files := by
    constructor
    · exact fun _ _ => rfl
    · intro name digest found
      cases stated : published src.files name with
      | none =>
          rw [published_of_absent (mirror.nothingElse name stated)] at found
          contradiction
      | some other =>
          obtain ⟨content, copied, _⟩ := mirror.copied name other stated
          have regular : st.files (.packages name) = some (.regular content) := copied
          simp [published, resolvePath, regular] at found
    · exact fun _ member => absurd member List.not_mem_nil
    · exact fun _ member => absurd member List.not_mem_nil
  have agrees : ∀ name digest, storeNameIsValid name = true →
      published src.files name = some digest →
        manifestDisagrees (savedManifest env src) (ascii "packages/" ++ name) digest = false :=
    fun name digest valid entry => savedManifest_agrees sizes valid entry
  have whole : ([] ++ names).Nodup := by simpa using distinct
  have outcome := importDir_mirror ⟨0, 0, 0, 0, 0⟩ succeeds holds mirror agrees start whole
  have inOrder : InOrder src.files [] names ↔
      names.Pairwise fun earlier later => ¬ Overruled src.files earlier later := by
    simp [InOrder]
  have shape : importerRun sha sys st (savedManifest env src) false =
      ((importDir sha sys (savedManifest env src) false names st ⟨0, 0, 0, 0, 0⟩).1,
        (importDir sha sys (savedManifest env src) false names st ⟨0, 0, 0, 0, 0⟩).2,
        decide ((importDir sha sys (savedManifest env src) false names st
            ⟨0, 0, 0, 0, 0⟩).2.failed = 0 ∧
          (importDir sha sys (savedManifest env src) false names st
            ⟨0, 0, 0, 0, 0⟩).2.mismatched = 0)) := by
    unfold importerRun
    rw [opened]
  rw [shape, ← inOrder]
  dsimp only
  rcases outcome with ⟨ordered, restored, failed, mismatched⟩ | ⟨disordered, failed⟩
  · refine ⟨iff_of_true (by simp [failed, mismatched]) ordered, fun _ name => ?_⟩
    rw [List.nil_append] at restored
    refine restored.resolves holds entries mirror ?_ name
    intro other there
    exact (listed other).mpr (Or.inl there)
  · have nonzero : (importDir sha sys (savedManifest env src) false names st
        ⟨0, 0, 0, 0, 0⟩).2.failed ≠ 0 := Nat.ne_of_gt failed
    exact ⟨iff_of_false (by simp [nonzero]) disordered, fun success => by simp [nonzero] at success⟩

end Import

/-! ### Exports of a list of files -/

/-- A tree of files as a static export has them. -/
def Store.static (contents : List (Bytes × Bytes)) : Store where
  root := Root.standard
  pid := 1
  tmpCounter := 0
  files
    | .packages name => (contents.lookup name).map .regular
    | .blobs _ => none
    | .tmp _ => none

/-- The entries a store has for these files. -/
def digestsOf (sha : Sha256sum) (contents : List (Bytes × Bytes)) : List (Bytes × Bytes) :=
  contents.map fun file => (file.1, sha.digest file.2)

def blobsFor (sha : Sha256sum) (contents : List (Bytes × Bytes)) : List (Bytes × Bytes) :=
  contents.map fun file => (sha.digest file.2, file.2)

/-- The store these files were exported from. -/
def Store.exporter (sha : Sha256sum) (contents : List (Bytes × Bytes)) : Store :=
  .holding (digestsOf sha contents) (blobsFor sha contents)

theorem lookup_digestsOf (sha : Sha256sum) (contents : List (Bytes × Bytes)) (name : Bytes) :
    (digestsOf sha contents).lookup name = (contents.lookup name).map sha.digest := by
  induction contents with
  | nil => rfl
  | cons head tail inductionHypothesis =>
      obtain ⟨key, content⟩ := head
      show List.lookup name ((key, sha.digest content) :: digestsOf sha tail) = _
      rw [List.lookup_cons, List.lookup_cons]
      cases name == key with
      | true => rfl
      | false => exact inductionHypothesis

theorem published_exporter (sha : Sha256sum) (contents : List (Bytes × Bytes)) (name : Bytes) :
    published (Store.exporter sha contents).files name =
      (contents.lookup name).map sha.digest := by
  have listed := lookup_digestsOf sha contents name
  cases found : contents.lookup name with
  | some content =>
      rw [found] at listed
      exact published_holding (sha.valid content) listed
  | none =>
      rw [found] at listed
      apply published_of_absent
      show ((digestsOf sha contents).lookup name).map _ = none
      rw [listed]
      rfl

theorem mirrors_exporter (sha : Sha256sum) (contents : List (Bytes × Bytes)) :
    Mirrors sha (Store.exporter sha contents).files (Store.static contents).files where
  copied := by
    intro name digest stated
    rw [published_exporter] at stated
    obtain ⟨content, found, hashes⟩ := Option.map_eq_some_iff.mp stated
    refine ⟨content, ?_, hashes⟩
    show (contents.lookup name).map _ = _
    rw [found]
    rfl
  nothingElse := by
    intro name free
    rw [published_exporter, Option.map_eq_none_iff] at free
    show (contents.lookup name).map _ = none
    rw [free]
    rfl

theorem storeInvariant_exporter (sha : Sha256sum) {contents : List (Bytes × Bytes)}
    (canonical : ∀ file ∈ contents, canonicalForm file.1 = some file.1) :
    StoreInvariant sha (Store.exporter sha contents).files where
  entries := by
    intro name target present
    have shape : ((digestsOf sha contents).lookup name).map _ = some (Node.symlink target) := present
    rw [lookup_digestsOf, Option.map_map, Option.map_eq_some_iff] at shape
    obtain ⟨content, found, same⟩ := shape
    obtain ⟨before, after, split, _⟩ := List.lookup_eq_some_iff.mp found
    have member : (name, content) ∈ contents := by
      rw [split]
      simp
    refine ⟨canonical _ member, sha.digest content, (Node.symlink.inj same).symm,
      sha.valid content, ?_⟩
    show (((blobsFor sha contents).lookup (sha.digest content)).map _).isSome
    rw [Option.isSome_map, List.lookup_isSome_iff]
    exact ⟨_, List.mem_map_of_mem member, beq_iff_eq.mpr rfl⟩
  blobs := by
    intro name node present
    have shape : ((blobsFor sha contents).lookup name).map _ = some node := present
    obtain ⟨content, found, same⟩ := Option.map_eq_some_iff.mp shape
    obtain ⟨before, after, split, _⟩ := List.lookup_eq_some_iff.mp found
    have member : (name, content) ∈ blobsFor sha contents := by
      rw [split]
      simp
    obtain ⟨file, _, stored⟩ := List.mem_map.mp member
    rw [Prod.mk.injEq] at stored
    exact ⟨content, same.symm, by rw [← stored.2, stored.1]⟩

theorem sizesFit_exporter (sha : Sha256sum) {contents : List (Bytes × Bytes)}
    (short : ∀ file ∈ contents, file.2.length < 2 ^ 63) :
    (Store.exporter sha contents).SizesFit := by
  apply sizesFit_holding
  intro blob member
  obtain ⟨file, inContents, rfl⟩ := List.mem_map.mp member
  exact short file inContents

/-- A package published beside its spelling with an architecture and other bytes,
and another one published in both spellings with the same bytes. -/
def spelledContents : List (Bytes × Bytes) :=
  [(ascii "foo-1-1.tar.gz", ascii "a"), (ascii "foo-1-1-x86_64.tar.gz", ascii "b"),
    (ascii "bar-1-1-x86_64.tar.gz", []), (ascii "bar-1-1.tar.gz", [])]

def spelledNames : List Bytes := [dot] :: [dot, dot] :: spelledContents.map Prod.fst

def spelledEnv : DocEnv :=
  .holding (digestsOf .sample spelledContents) (blobsFor .sample spelledContents)

def spelledManifest : Option JsonValue :=
  savedManifest spelledEnv (Store.exporter .sample spelledContents)

/-- A listing that yields the bare name first is imported whole, and both names of
the other package answer though one has no entry; the reverse listing is not. -/
theorem spelled_export_imported :
    ((importerRun .sample (Sys.succeeding fun _ => some spelledNames) (Store.static spelledContents)
          spelledManifest false).2.2 = true ∧
        ∀ name, storeResolve (importerRun .sample (Sys.succeeding fun _ => some spelledNames)
          (Store.static spelledContents) spelledManifest false).1 name =
            storeResolve (Store.exporter .sample spelledContents) name) ∧
      (importerRun .sample (Sys.succeeding fun _ => some spelledNames.reverse)
        (Store.static spelledContents) spelledManifest false).2.2 = false := by
  have sizes : (Store.exporter .sample spelledContents).SizesFit := sizesFit_holding (by decide)
  have manifest : spelledManifest =
      some (manifestOf spelledEnv (Store.exporter .sample spelledContents)).json := by
    unfold spelledManifest savedManifest
    exact manifest_parsed spelledEnv sizes
  have canonical : ∀ file ∈ spelledContents, canonicalForm file.1 = some file.1 := by
    decide +kernel
  have holds := storeInvariant_exporter .sample canonical
  have entries : EntryMap (Store.exporter .sample spelledContents).files :=
    entryMap_holding (by decide +kernel)
  have listing : (Sys.succeeding fun _ => some spelledNames).Listing
      (Store.static spelledContents).files .packages := by
    intro names opened
    obtain rfl : spelledNames = names := Option.some.inj opened
    refine ⟨by decide, fun name => ?_⟩
    show _ ↔ ((spelledContents.lookup name).map Node.regular).isSome ∨ _
    rw [Option.isSome_map, List.lookup_isSome_iff]
    simp [spelledNames, spelledContents, or_assoc, or_comm, or_left_comm]
  have result := @mirror_imported_iff .sample _ spelledEnv _ _ _ holds entries sizes
    (mirrors_exporter .sample spelledContents) (Sys.succeeds_succeeding _) listing rfl
  have saved : savedManifest spelledEnv (Store.exporter .sample spelledContents) =
      spelledManifest := rfl
  rw [saved] at result
  have whole : (importerRun .sample (Sys.succeeding fun _ => some spelledNames)
      (Store.static spelledContents) spelledManifest false).2.2 = true := by
    rw [manifest]
    decide +kernel
  refine ⟨⟨whole, result.2 whole⟩, ?_⟩
  rw [manifest]
  decide +kernel

/-! ## Files with other bytes -/

section Tampered

variable {sha : Sha256sum} {sys : Sys} {env : DocEnv} {src st : Store} {names : List Bytes}
  {manifest : Option JsonValue}

/-- Under the name of an artifact stands a file that does not hash to its digest. -/
def TamperedFile (sha : Sha256sum) (src st : Store) (name content : Bytes) : Prop :=
  packagesOf st.files name = some (.regular content) ∧
    ∃ facts, Artifact src facts ∧ facts.name = name ∧ sha.digest content ≠ facts.digest

theorem toLower_hex {c : Byte} (hex : isHexLower c = true) : toLower c = c := by
  unfold isHexLower isDigit at hex
  unfold toLower isUpper
  rw [if_neg]
  intro upper
  simp only [Bool.or_eq_true, Bool.and_eq_true, decide_eq_true_eq, UInt8.le_iff_toNat_le] at hex upper
  have bounds : (65 : Byte).toNat = 65 ∧ (90 : Byte).toNat = 90 ∧ (48 : Byte).toNat = 48 ∧
      (57 : Byte).toNat = 57 ∧ (97 : Byte).toNat = 97 ∧ (102 : Byte).toNat = 102 := by decide
  omega

/-- Digests are compared without regard to case, and have none. -/
theorem strcasecmpEq_digest {left right : Bytes} (leftValid : storeDigestIsValid left = true)
    (rightValid : storeDigestIsValid right = true) :
    strcasecmpEq left right = true ↔ left = right := by
  have lower : ∀ {digest : Bytes}, storeDigestIsValid digest = true →
      digest.map toLower = digest := by
    intro digest valid
    have each : ∀ c ∈ digest, toLower c = id c :=
      fun c member => toLower_hex (storeDigestIsValid_hex valid c member)
    rw [List.map_congr_left each, List.map_id]
  rw [strcasecmpEq, lower leftValid, lower rightValid]
  simp

/-- The saved manifest disagrees with the bytes of a file exactly when it is tampered
with. -/
theorem savedManifest_disagrees_iff (sees : env.Sees src) (sizes : src.SizesFit)
    {name content : Bytes} (valid : storeNameIsValid name = true)
    (present : packagesOf st.files name = some (.regular content)) :
    manifestDisagrees (savedManifest env src) (ascii "packages/" ++ name) (sha.digest content) =
      true ↔ TamperedFile sha src st name content := by
  constructor
  · intro disagrees
    refine ⟨present, ?_⟩
    unfold manifestDisagrees at disagrees
    split at disagrees
    next recorded found =>
      have file : ascii "packages/" ++ name = fileText name :=
        (fileText_of_lt (storeNameIsValid.length_lt valid)).symm
      rw [savedManifest, manifest_parsed env sizes, file] at found
      obtain ⟨format, member, sameFile, rfl⟩ := manifestDigestFor_some found
      obtain ⟨e, listed, rfl⟩ := manifestOf_formats member
      have sameName : e.name = name := fileText_injective
        (storeNameIsValid.length_lt listed.valid) (storeNameIsValid.length_lt valid) sameFile
      refine ⟨⟨e.name, (storeSuffixOf e.name).getD [], e.digest, offT (storeBlobExists src e.digest)⟩,
        ⟨listed.valid, listed.unsigned, listed.entry, storeSuffixOf_valid listed.valid, rfl⟩,
        sameName, ?_⟩
      intro same
      have equal := (strcasecmpEq_digest (published_valid listed.entry) (sha.valid content)).mpr
        same.symm
      have differs : (!strcasecmpEq e.digest (sha.digest content)) = true := disagrees
      rw [equal] at differs
      contradiction
    next => contradiction
  · intro tampered
    obtain ⟨_, facts, artifact, rfl, differs⟩ := tampered
    unfold manifestDisagrees
    rw [savedManifest_records sees sizes artifact]
    have unequal : strcasecmpEq facts.digest (sha.digest content) ≠ true := fun equal => differs
      ((strcasecmpEq_digest (published_valid artifact.entry) (sha.valid content)).mp equal).symm
    simpa using unequal

/-- A turn that counts a mismatch is the turn of a file the manifest disagrees with. -/
theorem importEntry_mismatched (succeeds : sys.Succeeds) {name : Bytes} {stats : ImportStats} :
    stats.mismatched < (importEntry sha sys manifest false name st stats).2.mismatched ↔
      storeNameIsValid name = true ∧ ∃ content, packagesOf st.files name = some (.regular content) ∧
        manifestDisagrees manifest (ascii "packages/" ++ name) (sha.digest content) = true := by
  by_cases valid : storeNameIsValid name = true
  · cases there : packagesOf st.files name with
    | none =>
        rw [importEntry_absent false there]
        simp
    | some node =>
        cases node with
        | symlink target =>
            have counted : (importEntry sha sys manifest false name st stats).2 =
                { stats with already := stats.already + 1 } := by
              unfold importEntry
              rw [if_neg (storeNameIsValid.text valid).head, if_neg (by simp [valid]),
                rawEntryPath_of_lt _ (storeNameIsValid.length_lt valid)]
              dsimp only
              rw [show st.files (.packages name) = some (.symlink target) from there]
            rw [counted]
            simp
        | regular content =>
            rw [importEntry_regular succeeds valid there stats]
            split
            next disagrees => simp [valid, disagrees]
            next agrees =>
              have unchanged : ∀ counted : ImportStats,
                  (importFile sys st name (sha.digest content) (.packages name)
                    counted).2.mismatched = counted.mismatched := by
                intro counted
                unfold importFile
                split
                next => rfl
                next =>
                  split
                  next => rfl
                  next => rfl
              rw [unchanged]
              simp [agrees]
  · have skipped : importEntry sha sys manifest false name st stats = (st, stats) := by
      unfold importEntry
      rw [if_pos (by simpa using valid : storeNameIsValid name = false)]
      split
      next => rfl
      next => rfl
    rw [skipped]
    simp [valid]

/-- The turns count a mismatch exactly for a file the manifest disagrees with. -/
theorem importDir_mismatched (succeeds : sys.Succeeds) (distinct : names.Nodup)
    {stats : ImportStats} :
    stats.mismatched < (importDir sha sys manifest false names st stats).2.mismatched ↔
      ∃ name ∈ names, storeNameIsValid name = true ∧
        ∃ content, packagesOf st.files name = some (.regular content) ∧
          manifestDisagrees manifest (ascii "packages/" ++ name) (sha.digest content) = true := by
  induction names generalizing st stats with
  | nil => simp [importDir]
  | cons head tail inductionHypothesis =>
      obtain ⟨fresh, rest⟩ := List.nodup_cons.mp distinct
      have alone : (importDir sha sys manifest false [head] st stats).1 =
          (importEntry sha sys manifest false head st stats).1 := rfl
      have own := (importEntry_counts sha sys manifest false head st stats).2
      have later := (importDir_counts sha sys manifest false tail
        (importEntry sha sys manifest false head st stats).1
        (importEntry sha sys manifest false head st stats).2).2
      rw [importDir_cons]
      constructor
      · intro counted
        by_cases turn : stats.mismatched <
            (importEntry sha sys manifest false head st stats).2.mismatched
        · exact ⟨head, List.mem_cons_self, (importEntry_mismatched succeeds).mp turn⟩
        · have same : (importEntry sha sys manifest false head st stats).2.mismatched =
              stats.mismatched := Nat.le_antisymm (Nat.le_of_not_lt turn) own
          rw [← same] at counted
          obtain ⟨name, member, valid, content, present, disagrees⟩ :=
            (inductionHypothesis rest).mp counted
          have earlier : packagesOf (importDir sha sys manifest false [head] st stats).1.files name =
              some (.regular content) := by
            rw [alone]
            exact present
          exact ⟨name, List.mem_cons_of_mem _ member, valid, content,
            importDir_makes_none earlier, disagrees⟩
      · rintro ⟨name, member, valid, content, present, disagrees⟩
        rcases List.mem_cons.mp member with isHead | among
        · rw [isHead] at valid present disagrees
          have turn : stats.mismatched <
              (importEntry sha sys manifest false head st stats).2.mismatched :=
            (importEntry_mismatched succeeds).mpr ⟨valid, content, present, disagrees⟩
          exact Nat.lt_of_lt_of_le turn later
        · have kept : packagesOf (importDir sha sys manifest false [head] st stats).1.files name =
              some (.regular content) := by
            apply importDir_keeps _ present
            rw [List.mem_singleton]
            rintro rfl
            exact fresh among
          rw [alone] at kept
          exact Nat.lt_of_le_of_lt own
            ((inductionHypothesis rest).mpr ⟨name, among, valid, content, kept, disagrees⟩)

/-- An import with a saved manifest reports a mismatch exactly when a file was tampered
with; such a file stays where it is and is not published. -/
theorem tampered_iff_mismatched (sees : env.Sees src) (sizes : src.SizesFit)
    (succeeds : sys.Succeeds) (listing : sys.Listing st.files .packages)
    (opened : sys.readdir .packages = some names) :
    (0 < (importerRun sha sys st (savedManifest env src) false).2.1.mismatched ↔
        ∃ name content, TamperedFile sha src st name content) ∧
      ∀ name content, TamperedFile sha src st name content →
        packagesOf (importerRun sha sys st (savedManifest env src) false).1.files name =
            some (.regular content) ∧
          published (importerRun sha sys st (savedManifest env src) false).1.files name = none := by
  obtain ⟨distinct, listed⟩ := listing names opened
  have store : (importerRun sha sys st (savedManifest env src) false).1 =
      (importDir sha sys (savedManifest env src) false names st ⟨0, 0, 0, 0, 0⟩).1 := by
    unfold importerRun
    rw [opened]
  have counters : (importerRun sha sys st (savedManifest env src) false).2.1 =
      (importDir sha sys (savedManifest env src) false names st ⟨0, 0, 0, 0, 0⟩).2 := by
    unfold importerRun
    rw [opened]
  rw [store, counters]
  have member : ∀ name content, packagesOf st.files name = some (.regular content) →
      name ∈ names := by
    intro name content present
    apply (listed name).mpr
    left
    show (packagesOf st.files name).isSome
    rw [present]
    rfl
  constructor
  · have counted := @importDir_mismatched sha sys st names (savedManifest env src) succeeds
      distinct ⟨0, 0, 0, 0, 0⟩
    rw [counted]
    constructor
    · rintro ⟨name, _, valid, content, present, disagrees⟩
      exact ⟨name, content, (savedManifest_disagrees_iff sees sizes valid present).mp disagrees⟩
    · rintro ⟨name, content, tampered⟩
      obtain ⟨facts, artifact, rfl, _⟩ := tampered.2
      exact ⟨facts.name, member _ _ tampered.1, artifact.valid, content, tampered.1,
        (savedManifest_disagrees_iff sees sizes artifact.valid tampered.1).mpr tampered⟩
  · intro name content tampered
    obtain ⟨before, after, split⟩ := List.append_of_mem (member _ _ tampered.1)
    rw [split] at distinct
    obtain ⟨_, rest, apart⟩ := List.nodup_append.mp distinct
    have fresh : name ∉ before :=
      fun among => apart name among name List.mem_cons_self rfl
    have freshAfter : name ∉ after := (List.nodup_cons.mp rest).1
    obtain ⟨facts, artifact, rfl, _⟩ := tampered.2
    have kept : packagesOf
        (importDir sha sys (savedManifest env src) false names st ⟨0, 0, 0, 0, 0⟩).1.files
          facts.name = some (.regular content) := by
      rw [split, importDir_append]
      have reached := @importDir_keeps sha sys _ (savedManifest env src) _ _ _ ⟨0, 0, 0, 0, 0⟩
        fresh tampered.1
      rw [importDir_cons]
      apply importDir_keeps freshAfter
      rw [importEntry_regular succeeds artifact.valid reached, if_pos]
      · exact reached
      · exact (savedManifest_disagrees_iff sees sizes artifact.valid tampered.1).mpr tampered
    refine ⟨kept, ?_⟩
    unfold published resolvePath
    rw [show (importDir sha sys (savedManifest env src) false names st ⟨0, 0, 0, 0, 0⟩).1.files
      (.packages facts.name) = some (.regular content) from kept]

end Tampered

/-- The bytes of an archive were replaced after the manifest was saved. -/
theorem replaced_file_mismatched :
    0 < (importerRun .sample (Sys.succeeding fun _ => some [[dot], [dot, dot], ascii "foo-1-1.iso"])
        (Store.static [(ascii "foo-1-1.iso", ascii "b")])
        (savedManifest (.holding (digestsOf .sample [(ascii "foo-1-1.iso", ascii "a")])
            (blobsFor .sample [(ascii "foo-1-1.iso", ascii "a")]))
          (Store.exporter .sample [(ascii "foo-1-1.iso", ascii "a")])) false).2.1.mismatched := by
  have sees : (DocEnv.holding (digestsOf .sample [(ascii "foo-1-1.iso", ascii "a")])
      (blobsFor .sample [(ascii "foo-1-1.iso", ascii "a")])).Sees
      (Store.exporter .sample [(ascii "foo-1-1.iso", ascii "a")]) :=
    DocEnv.sees_holding (by decide) (by decide)
  have sizes := @sizesFit_exporter .sample [(ascii "foo-1-1.iso", ascii "a")] (by decide)
  have listing : (Sys.succeeding fun _ => some [[dot], [dot, dot], ascii "foo-1-1.iso"]).Listing
      (Store.static [(ascii "foo-1-1.iso", ascii "b")]).files .packages := by
    intro names opened
    obtain rfl := Option.some.inj opened
    refine ⟨by decide, fun name => ?_⟩
    show _ ↔ (([(ascii "foo-1-1.iso", ascii "b")].lookup name).map Node.regular).isSome ∨ _
    rw [Option.isSome_map, List.lookup_isSome_iff]
    simp [or_comm, or_left_comm]
  apply (tampered_iff_mismatched sees sizes (Sys.succeeds_succeeding _) listing rfl).1.mpr
  refine ⟨ascii "foo-1-1.iso", ascii "b", rfl, ?_⟩
  refine ⟨⟨ascii "foo-1-1.iso", ascii ".iso", Sha256sum.sample.digest (ascii "a"), 1⟩,
    ⟨by decide, by decide, ?_, by decide, ?_⟩, rfl, by decide⟩
  · rw [published_exporter]
    rfl
  · decide +kernel

end CixCache
