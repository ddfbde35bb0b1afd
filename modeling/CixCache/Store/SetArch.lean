import CixCache.Store.Canonicalize
import CixCache.Store.Resolution

/-!
Contract: what stamping an architecture does to the entries of packages/.

Owns: `archTarget`, the name a pass wants an entry to have; that a pass is a run of
relocations over the names that fit; and that a pass over canonical entries that
reports no failure loses no entry and keeps what every name resolves to.

Does not own: the loop of the pass, and what a stamped name is.
-/

namespace CixCache

open CixCache.Lib

/-! ## Targets of a pass -/

/-- A valid name without an architecture. -/
def Archless (name : Bytes) : Prop := storeNameIsValid name = true ∧ storeArchOf name = none

instance (name : Bytes) : Decidable (Archless name) :=
  inferInstanceAs (Decidable (_ ∧ _))

/-- The name a pass wants an entry to have; one that carries an architecture, or whose
stamped name would be too long, keeps its own. -/
def archTarget (arch name : Bytes) : Bytes :=
  if Archless name ∧ (archName name arch).length < storeNameMax then archName name arch else name

section Targets

variable {arch name : Bytes}

theorem storeArchOf_stamped (known : arch ∈ gArches) (archless : Archless name) :
    storeArchOf (archName name arch) = some arch := by
  obtain ⟨valid, bare⟩ := archless
  obtain ⟨parts, rfl⟩ := NameParts.exists_render_of_valid valid
  rw [NameParts.storeArchOf_render] at bare
  rw [NameParts.archName_render bare known, NameParts.storeArchOf_render]
  rfl

/-- A stamped name shows what was stamped. -/
theorem archName_injective (known : arch ∈ gArches) {other : Bytes} (archless : Archless name)
    (otherArchless : Archless other) (same : archName name arch = archName other arch) :
    name = other := by
  obtain ⟨valid, bare⟩ := archless
  obtain ⟨otherValid, otherBare⟩ := otherArchless
  obtain ⟨parts, rfl⟩ := NameParts.exists_render_of_valid valid
  obtain ⟨others, rfl⟩ := NameParts.exists_render_of_valid otherValid
  rw [NameParts.storeArchOf_render] at bare otherBare
  rw [NameParts.archName_render bare known, NameParts.archName_render otherBare known] at same
  have stamped := NameParts.render_injective same
  have base := congrArg NameParts.base stamped
  have suffix := congrArg NameParts.suffix stamped
  simp only [NameParts.withArch] at base suffix
  simp only [NameParts.render, NameParts.stem_of_bare bare, NameParts.stem_of_bare otherBare, base,
    suffix]

theorem archTarget_of_fits (archless : Archless name)
    (fits : (archName name arch).length < storeNameMax) :
    archTarget arch name = archName name arch :=
  if_pos ⟨archless, fits⟩

theorem archTarget_of_ne (astray : archTarget arch name ≠ name) :
    Archless name ∧ (archName name arch).length < storeNameMax ∧
      archTarget arch name = archName name arch := by
  unfold archTarget at astray ⊢
  split at astray
  next stamped => exact ⟨stamped.1, stamped.2, if_pos stamped⟩
  next => exact absurd rfl astray

theorem archTarget_ne (known : arch ∈ gArches) (archless : Archless name)
    (fits : (archName name arch).length < storeNameMax) : archTarget arch name ≠ name := by
  rw [archTarget_of_fits archless fits]
  intro same
  have stamped := storeArchOf_stamped known archless
  rw [same, archless.2] at stamped
  contradiction

theorem archTarget_of_arch (qualified : (storeArchOf name).isSome) :
    archTarget arch name = name := by
  unfold archTarget
  rw [if_neg]
  rintro ⟨⟨_, bare⟩, _⟩
  rw [bare] at qualified
  contradiction

theorem archTarget_idem (known : arch ∈ gArches) (name : Bytes) :
    archTarget arch (archTarget arch name) = archTarget arch name := by
  by_cases astray : archTarget arch name = name
  · rw [astray, astray]
  · obtain ⟨archless, _, target⟩ := archTarget_of_ne astray
    apply archTarget_of_arch
    rw [target, storeArchOf_stamped known archless]
    rfl

/-- No two names want one target. -/
theorem archTarget_injective (known : arch ∈ gArches) {other : Bytes}
    (astray : archTarget arch name ≠ name) (otherAstray : archTarget arch other ≠ other)
    (same : archTarget arch name = archTarget arch other) : name = other := by
  obtain ⟨archless, _, target⟩ := archTarget_of_ne astray
  obtain ⟨otherArchless, _, otherTarget⟩ := archTarget_of_ne otherAstray
  rw [target, otherTarget] at same
  exact archName_injective known archless otherArchless same

end Targets

/-! ## A pass is a run of relocations -/

/-- The listed names a pass collects. -/
def archlessSet (files : Files) (names : List Bytes) : List Bytes :=
  names.filter fun name => (published files name).isSome && decide (Archless name)

theorem mem_archlessSet {files : Files} {names : List Bytes} {name : Bytes} :
    name ∈ archlessSet files names ↔
      name ∈ names ∧ (published files name).isSome ∧ Archless name := by
  simp [archlessSet]

theorem listed_archlessSet (files : Files) (names : List Bytes) :
    ((listed files names).filterMap fun entry =>
      if storeNameIsValid entry.1 = false ∨ (storeArchOf entry.1).isSome then none
      else some (snprintf storeNameMax entry.1)) = archlessSet files names := by
  rw [listed, publishedAmong, List.filterMap_filterMap, List.filterMap_filter, archlessSet,
    ← List.filterMap_eq_filter]
  congr 1
  funext name
  by_cases valid : storeNameIsValid name = true
  · have short := snprintf_of_lt (storeNameIsValid.length_lt valid)
    rw [if_pos valid]
    cases found : published files name with
    | none => simp [Option.guard, found]
    | some digest =>
        cases bare : storeArchOf name <;> simp [Option.guard, found, valid, bare, short, Archless]
  · have invalid : storeNameIsValid name = false := by simpa using valid
    simp [Option.guard, Archless, invalid]

/-- The stamped name does not fit. -/
def overlong (arch name : Bytes) : Bool := decide (storeNameMax ≤ (archName name arch).length)

section Runs

variable {sys : Sys} {st : Store} {arch : Bytes}

/-- The step of a pass on a name whose stamped name fits. -/
theorem setArchLoop_cons {dryRun : Bool} {name : Bytes} {rest : List Bytes}
    (archless : Archless name) (fits : (archName name arch).length < storeNameMax)
    (pass : Migration) :
    setArchLoop sys arch dryRun (name :: rest) st pass =
      let step :=
        migrateEntry sys dryRun (.packages name) (.packages (archTarget arch name)) st pass
      setArchLoop sys arch dryRun rest step.1 step.2 := by
  rw [setArchLoop, if_neg (Nat.not_le_of_lt fits),
    rawEntryPath_of_lt _ (storeNameIsValid.length_lt archless.1), rawEntryPath_of_lt _ fits,
    archTarget_of_fits archless fits]

/-- A name whose stamped name does not fit is left out. -/
theorem setArchLoop_overlong {dryRun : Bool} {name : Bytes} {rest : List Bytes}
    (long : storeNameMax ≤ (archName name arch).length) (pass : Migration) :
    setArchLoop sys arch dryRun (name :: rest) st pass =
      setArchLoop sys arch dryRun rest st { pass with failed := true } := by
  rw [setArchLoop, if_pos long]

/-- A pass whose renames succeed relocates the entries that fit in turn. -/
theorem setArchLoop_relocateAll (renames : sys.Renames) {names : List Bytes}
    (distinct : names.Nodup) (present : ∀ name ∈ names, (packagesOf st.files name).isSome)
    (archless : ∀ name ∈ names, Archless name) (failed : Bool) (moved stayed : Nat) :
    setArchLoop sys arch false names st ⟨failed, moved, stayed⟩ =
      let run := relocateAll (archTarget arch) (names.filter fun name => !overlong arch name)
        ⟨packagesOf st.files, moved, stayed⟩
      (st.withFiles (st.files.withPackages run.entries),
        ⟨failed || names.any (overlong arch), run.moved, run.stayed⟩) := by
  induction names generalizing st failed moved stayed with
  | nil => simp [setArchLoop, relocateAll]
  | cons name rest inductionHypothesis =>
      have own := present name List.mem_cons_self
      obtain ⟨fresh, restDistinct⟩ := List.nodup_cons.mp distinct
      have restPresent := fun other (member : other ∈ rest) =>
        present other (List.mem_cons_of_mem _ member)
      have restArchless := fun other (member : other ∈ rest) =>
        archless other (List.mem_cons_of_mem _ member)
      by_cases long : storeNameMax ≤ (archName name arch).length
      · have cut : overlong arch name = true := decide_eq_true long
        rw [setArchLoop_overlong long, inductionHypothesis restDistinct restPresent restArchless,
          List.filter_cons_of_neg (by simp [cut]), List.any_cons, cut]
        simp
      · have whole : overlong arch name = false := decide_eq_false long
        rw [setArchLoop_cons (archless name List.mem_cons_self) (Nat.lt_of_not_le long),
          migrateEntry_relocate renames _ own, List.filter_cons_of_pos (by simp [whole]),
          relocateAll, List.foldl_cons, ← relocateAll, List.any_cons, whole]
        dsimp only
        rw [inductionHypothesis restDistinct]
        · simp
        · intro other member
          have different : other ≠ name := fun same => fresh (same ▸ member)
          exact relocate_keeps different (restPresent other member) own
        · exact restArchless

/-- A dry run counts what stands at the targets and touches nothing. -/
theorem setArchLoop_dry {names : List Bytes} (archless : ∀ name ∈ names, Archless name)
    (pass : Migration) :
    setArchLoop sys arch true names st pass =
      let keys := names.filter fun name => !overlong arch name
      (st, ⟨pass.failed || names.any (overlong arch),
        pass.renamed + keys.countP fun name => !(packagesOf st.files (archTarget arch name)).isSome,
        pass.conflicts + keys.countP fun name =>
          (packagesOf st.files (archTarget arch name)).isSome⟩) := by
  induction names generalizing pass with
  | nil => simp [setArchLoop]
  | cons name rest inductionHypothesis =>
      have restArchless := fun other (member : other ∈ rest) =>
        archless other (List.mem_cons_of_mem _ member)
      by_cases long : storeNameMax ≤ (archName name arch).length
      · have cut : overlong arch name = true := decide_eq_true long
        rw [setArchLoop_overlong long, inductionHypothesis restArchless,
          List.filter_cons_of_neg (by simp [cut]), List.any_cons, cut]
        simp
      · have whole : overlong arch name = false := decide_eq_false long
        rw [setArchLoop_cons (archless name List.mem_cons_self) (Nat.lt_of_not_le long),
          List.filter_cons_of_pos (by simp [whole]), List.any_cons, whole, migrateEntry]
        dsimp only
        rw [List.countP_cons, List.countP_cons]
        by_cases taken : (st.files (.packages (archTarget arch name))).isSome
        · have standing : (packagesOf st.files (archTarget arch name)).isSome := taken
          rw [if_pos taken]
          dsimp only
          rw [inductionHypothesis restArchless]
          simp [standing, Nat.add_assoc, Nat.add_comm 1]
        · have absent : (packagesOf st.files (archTarget arch name)).isSome = false :=
            Bool.eq_false_iff.mpr taken
          rw [if_neg taken, if_pos rfl]
          dsimp only
          rw [inductionHypothesis restArchless]
          simp [absent, Nat.add_assoc, Nat.add_comm 1]

end Runs

/-! ## What a pass promises -/

section Walks

variable {sys : Sys} {st : Store} {arch : Bytes}

/-- A pass whose walk comes to its end works through the listed names without an
architecture. -/
theorem storeSetArch_passes (known : arch ∈ gArches) {names : List Bytes} {filled : SlotSet}
    (listing : sys.readdir .packages = some names)
    (walked : storeWalk sys st (collectArchless sys) .empty = some filled) (dryRun : Bool) :
    storeSetArch sys st arch dryRun =
      ((setArchLoop sys arch dryRun (archlessSet st.files names) st ⟨false, 0, 0⟩).1,
        some (setArchLoop sys arch dryRun (archlessSet st.files names) st ⟨false, 0, 0⟩).2) := by
  obtain ⟨others, same, slots⟩ := storeWalk_collectArchless walked
  rw [listing] at same
  obtain rfl := Option.some.inj same
  have collected := slots.trans (listed_archlessSet st.files names)
  have recognised : ¬ gArches.contains arch = false := by
    rw [List.contains_iff_mem.mpr known]
    simp
  rw [storeSetArch, if_neg recognised, walked, ← collected]

/-- The walk of a pass comes to its end. -/
theorem Walks.archless (walks : Walks sys st.files) :
    ∃ filled, storeWalk sys st (collectArchless sys) .empty = some filled := by
  apply Option.isSome_iff_exists.mp
  apply storeWalk_isSome st _ walks.opened
  intro set name _ _ _
  unfold collectArchless
  split
  next => rfl
  next => exact pushSlot_of_succeeds walks.succeeds _ _

/-- Of what a pass collects, the names that fit have another target. -/
theorem mem_stampable (known : arch ∈ gArches) {files : Files} {names : List Bytes}
    {name : Bytes} :
    name ∈ (archlessSet files names).filter (fun name => !overlong arch name) ↔
      name ∈ names ∧ (published files name).isSome ∧ archTarget arch name ≠ name := by
  rw [List.mem_filter, mem_archlessSet]
  constructor
  · rintro ⟨⟨listed, found, archless⟩, whole⟩
    have fits : (archName name arch).length < storeNameMax := by
      simpa [overlong] using whole
    exact ⟨listed, found, archTarget_ne known archless fits⟩
  · rintro ⟨listed, found, astray⟩
    obtain ⟨archless, fits, _⟩ := archTarget_of_ne astray
    refine ⟨⟨listed, found, archless⟩, ?_⟩
    simpa [overlong] using fits

/-- What a pass whose renames succeed does to the entries that fit, in the order of
`readdir`. -/
theorem storeSetArch_relocated (renames : sys.Renames) (known : arch ∈ gArches)
    {names : List Bytes} {filled : SlotSet} (listing : sys.readdir .packages = some names)
    (walked : storeWalk sys st (collectArchless sys) .empty = some filled)
    (distinct : names.Nodup) :
    ∃ run place,
      Relocated (archTarget arch) (packagesOf st.files)
          ((archlessSet st.files names).filter fun name => !overlong arch name) run place ∧
        storeSetArch sys st arch false =
          (st.withFiles (st.files.withPackages run.entries),
            some ⟨(archlessSet st.files names).any (overlong arch), run.moved, run.stayed⟩) := by
  have collectedDistinct : (archlessSet st.files names).Nodup := distinct.filter _
  have archless : ∀ name ∈ archlessSet st.files names, Archless name :=
    fun name member => (mem_archlessSet.mp member).2.2
  have present : ∀ name ∈ archlessSet st.files names, (packagesOf st.files name).isSome :=
    fun name member => published_mem (mem_archlessSet.mp member).2.1
  obtain ⟨place, relocated, _⟩ := (relocated_start (archTarget arch) (packagesOf st.files)).all
    (archTarget_idem known) (collectedDistinct.filter fun name => !overlong arch name)
    (fun name member => present name (List.mem_of_mem_filter member))
    (fun name member => ((mem_stampable known).mp member).2.2)
  refine ⟨relocateAll (archTarget arch)
    ((archlessSet st.files names).filter fun name => !overlong arch name)
    ⟨packagesOf st.files, 0, 0⟩, place, relocated, ?_⟩
  rw [storeSetArch_passes known listing walked,
    setArchLoop_relocateAll renames collectedDistinct present archless]
  simp

/-- What a pass whose renames succeed leaves behind, and what a dry run says: both fail
if a stamped name does not fit. -/
theorem Walks.stamped (walks : Walks sys st.files) (known : arch ∈ gArches) :
    ∃ keys run place failed, keys.Nodup ∧
      (∀ name, name ∈ keys ↔ (published st.files name).isSome ∧ archTarget arch name ≠ name) ∧
      Relocated (archTarget arch) (packagesOf st.files) keys run place ∧
      (failed = false ↔ ∀ name ∈ publishedNames st.files, Archless name →
        (archName name arch).length < storeNameMax) ∧
      storeSetArch sys st arch false =
        (st.withFiles (st.files.withPackages run.entries), some ⟨failed, run.moved, run.stayed⟩) ∧
      storeSetArch sys st arch true =
        (st, some ⟨failed,
          keys.countP fun name => !(packagesOf st.files (archTarget arch name)).isSome,
          keys.countP fun name => (packagesOf st.files (archTarget arch name)).isSome⟩) := by
  obtain ⟨names, listing⟩ := Option.isSome_iff_exists.mp walks.opened
  obtain ⟨distinct, complete⟩ := walks.listing names listing
  obtain ⟨filled, walked⟩ := walks.archless
  obtain ⟨run, place, relocated, passed⟩ :=
    storeSetArch_relocated walks.renames known listing walked distinct
  have listed : ∀ name, (published st.files name).isSome → name ∈ names :=
    fun name found => (complete name).mpr (Or.inl (published_mem found))
  have stampable : ∀ name, name ∈ (archlessSet st.files names).filter
      (fun name => !overlong arch name) ↔
        (published st.files name).isSome ∧ archTarget arch name ≠ name := by
    intro name
    rw [mem_stampable known]
    exact ⟨fun member => member.2, fun candidate => ⟨listed name candidate.1, candidate⟩⟩
  have whole : ∀ name, name ∈ archlessSet st.files names ↔
      (published st.files name).isSome ∧ Archless name := by
    intro name
    rw [mem_archlessSet]
    exact ⟨fun member => member.2, fun candidate => ⟨listed name candidate.1, candidate⟩⟩
  have keysDistinct : ((archlessSet st.files names).filter fun name => !overlong arch name).Nodup :=
    (distinct.filter _).filter _
  refine ⟨_, run, place, (archlessSet st.files names).any (overlong arch), keysDistinct, stampable,
    relocated, ?_, passed, ?_⟩
  · rw [List.any_eq_false]
    constructor
    · intro fit name found bare
      simpa [overlong] using fit name ((whole name).mpr ⟨found, bare⟩)
    · intro fit name member
      obtain ⟨found, bare⟩ := (whole name).mp member
      simpa [overlong] using fit name found bare
  · rw [storeSetArch_passes known listing walked,
      setArchLoop_dry fun name member => ((whole name).mp member).2]
    simp

end Walks

/-- Entries that carried an architecture are where they were; every other one is at its
stamped name, unless that was taken. No two are at one name, each has its digest, and
blobs/ is as it was. -/
structure Stamped (before after : Files) (arch : Bytes) (place : Bytes → Bytes) : Prop where
  qualified : ∀ name ∈ publishedNames before, (storeArchOf name).isSome → place name = name
  stamped : ∀ name ∈ publishedNames before, storeArchOf name = none →
    packagesOf before (archName name arch) = none → place name = archName name arch
  taken : ∀ name ∈ publishedNames before, storeArchOf name = none →
    (packagesOf before (archName name arch)).isSome → place name = name
  bijective : Set.BijOn place (entryNames before) (entryNames after)
  kept : ∀ name ∈ entryNames before, packagesOf after (place name) = packagesOf before name
  digests : ∀ name ∈ entryNames before, published after (place name) = published before name
  count : (publishedNames after).encard = (publishedNames before).encard
  canonical : ∀ name ∈ publishedNames after, canonicalForm name = some name
  blobs : blobsOf after = blobsOf before
  staged : tmpOf after = tmpOf before

/-- The published names without an architecture whose stamped name is taken. -/
def stampConflicts (files : Files) (arch : Bytes) : Set Bytes :=
  {name | name ∈ publishedNames files ∧ storeArchOf name = none ∧
    (packagesOf files (archName name arch)).isSome}

/-- The published names without an architecture whose stamped name is free. -/
def stampRenames (files : Files) (arch : Bytes) : Set Bytes :=
  {name | name ∈ publishedNames files ∧ storeArchOf name = none ∧
    packagesOf files (archName name arch) = none}

/-- The stamped spellings of a name that carries no architecture fit. -/
def StampsFit (name : Bytes) : Prop :=
  ∀ canonical, canonicalForm name = some canonical → storeArchOf canonical = none →
    ∀ arch ∈ gArches, (archName canonical arch).length < storeNameMax

/-- Every published name is canonical. -/
def CanonicalEntries (files : Files) : Prop :=
  ∀ name ∈ publishedNames files, canonicalForm name = some name

/-- Elements of a list without duplicates are counted once. -/
theorem encard_countP {α : Type} [DecidableEq α] {keys : List α} (distinct : keys.Nodup)
    (choose : α → Bool) : {key | key ∈ keys ∧ choose key = true}.encard = keys.countP choose := by
  have same : {key | key ∈ keys ∧ choose key = true} = ↑(keys.filter choose).toFinset := by
    ext key
    simp
  rw [same, Set.encard_coe_eq_coe_finsetCard, List.toFinset_card_of_nodup (distinct.filter _),
    List.countP_eq_length_filter]

section Stamping

variable {files : Files} {arch : Bytes} {keys : List Bytes} {run : Relocation Bytes Node}
  {place : Bytes → Bytes}

/-- No two names a pass relocates share a target. -/
theorem alone_stamped (known : arch ∈ gArches)
    (astray : ∀ name ∈ keys, archTarget arch name ≠ name) (start : Bytes → Option Node) :
    Alone (archTarget arch) start keys := by
  intro left leftMember right rightMember same _
  exact archTarget_injective known (astray left leftMember) (astray right rightMember) same

/-- Canonical entries that all fit are stamped. -/
theorem stamped_of_relocated (known : arch ∈ gArches) (entries : CanonicalEntries files)
    (collected : ∀ name, name ∈ keys ↔
      (published files name).isSome ∧ archTarget arch name ≠ name)
    (fit : ∀ name ∈ publishedNames files, Archless name →
      (archName name arch).length < storeNameMax)
    (relocated : Relocated (archTarget arch) (packagesOf files) keys run place) :
    Stamped files (files.withPackages run.entries) arch place := by
  have astray : ∀ name ∈ keys, archTarget arch name ≠ name :=
    fun name member => ((collected name).mp member).2
  have alone := alone_stamped known astray (packagesOf files)
  have stays := fun name (member : name ∈ keys) => relocated.stays_iff alone astray member
  -- A published name without an architecture is relocated to its stamped name.
  have bare : ∀ name ∈ publishedNames files, storeArchOf name = none →
      name ∈ keys ∧ archTarget arch name = archName name arch := by
    intro name found unqualified
    have archless : Archless name := ⟨canonicalForm_valid (entries name found), unqualified⟩
    have fits := fit name found archless
    exact ⟨(collected name).mpr ⟨found, archTarget_ne known archless fits⟩,
      archTarget_of_fits archless fits⟩
  refine
    { qualified := ?_
      stamped := ?_
      taken := ?_
      bijective := relocated.placed.bijOn
      kept := relocated.placed.kept
      digests := digests_of_placed relocated.placed
      count := count_of_placed relocated.placed
      canonical := ?_
      blobs := rfl
      staged := rfl }
  · intro name found qualified
    apply relocated.place_of_notMem
    intro member
    exact astray name member (archTarget_of_arch qualified)
  · intro name found unqualified free
    obtain ⟨member, target⟩ := bare name found unqualified
    rcases relocated.choice name with own | moved
    · have taken := (stays name member).mp own
      rw [target, free] at taken
      contradiction
    · rw [moved.2, target]
  · intro name found unqualified standing
    obtain ⟨member, target⟩ := bare name found unqualified
    exact (stays name member).mpr (by rw [target]; exact standing)
  · intro name found
    obtain ⟨origin, originFound, same⟩ :=
      (publishedNames_of_placed relocated.placed).surjOn found
    rw [← same]
    rcases relocated.choice origin with own | moved
    · rw [own]
      exact entries origin originFound
    · obtain ⟨archless, fits, target⟩ := archTarget_of_ne (astray origin moved.1)
      rw [moved.2, target]
      exact canonicalForm_archName (entries origin originFound) archless.2 known fits

/-- What a pass counts, by a look at the store it started from. -/
theorem stamp_counts (known : arch ∈ gArches) (entries : CanonicalEntries files)
    (distinct : keys.Nodup)
    (collected : ∀ name, name ∈ keys ↔
      (published files name).isSome ∧ archTarget arch name ≠ name)
    (fit : ∀ name ∈ publishedNames files, Archless name →
      (archName name arch).length < storeNameMax) :
    (stampConflicts files arch).encard =
        keys.countP (fun name => (packagesOf files (archTarget arch name)).isSome) ∧
      (stampRenames files arch).encard =
        keys.countP (fun name => !(packagesOf files (archTarget arch name)).isSome) := by
  have member : ∀ name, name ∈ keys ↔ name ∈ publishedNames files ∧ storeArchOf name = none := by
    intro name
    rw [collected]
    constructor
    · rintro ⟨found, astray⟩
      exact ⟨found, (archTarget_of_ne astray).1.2⟩
    · rintro ⟨found, bare⟩
      have archless : Archless name := ⟨canonicalForm_valid (entries name found), bare⟩
      exact ⟨found, archTarget_ne known archless (fit name found archless)⟩
  have target : ∀ name ∈ keys, archTarget arch name = archName name arch :=
    fun name inside => (archTarget_of_ne ((collected name).mp inside).2).2.2
  rw [← encard_countP distinct, ← encard_countP distinct]
  constructor
  · congr 1
    ext name
    constructor
    · rintro ⟨found, bare, taken⟩
      have inside := (member name).mpr ⟨found, bare⟩
      exact ⟨inside, by rw [target name inside]; exact taken⟩
    · rintro ⟨inside, taken⟩
      obtain ⟨found, bare⟩ := (member name).mp inside
      rw [target name inside] at taken
      exact ⟨found, bare, taken⟩
  · congr 1
    ext name
    constructor
    · rintro ⟨found, bare, free⟩
      have inside := (member name).mpr ⟨found, bare⟩
      exact ⟨inside, by rw [target name inside, free]; rfl⟩
    · rintro ⟨inside, free⟩
      obtain ⟨found, bare⟩ := (member name).mp inside
      rw [target name inside] at free
      exact ⟨found, bare, by simpa using free⟩

end Stamping

/-! ## What names resolve to -/

section Resolving

variable {st done : Store} {arch : Bytes} {place : Bytes → Bytes}

/-- An entry is where it was or at its stamped name; what has an architecture stays. -/
structure StampedPlaces (st done : Store) (arch : Bytes) (place : Bytes → Bytes) : Prop where
  choice : ∀ name, place name = name ∨ Archless name ∧ place name = archName name arch
  placed : Placed (packagesOf st.files) (packagesOf done.files) place

theorem StampedPlaces.published (places : StampedPlaces st done arch place) {name digest : Bytes}
    (found : published st.files name = some digest) :
    published done.files (place name) = some digest := by
  have present : (packagesOf st.files name).isSome :=
    published_mem (Option.isSome_iff_exists.mpr ⟨digest, found⟩)
  rw [published_node (places.placed.kept name present), found]

/-- What is published at a name was there before, or was stamped to it. -/
theorem StampedPlaces.origin (places : StampedPlaces st done arch place) {name digest : Bytes}
    (found : CixCache.published done.files name = some digest) :
    CixCache.published st.files name = some digest ∨
      ∃ origin, Archless origin ∧ archName origin arch = name ∧
        CixCache.published st.files origin = some digest := by
  have present : (packagesOf done.files name).isSome :=
    published_mem (Option.isSome_iff_exists.mpr ⟨digest, found⟩)
  obtain ⟨origin, originPresent, same⟩ := places.placed.covered name present
  have kept := published_node (places.placed.kept origin originPresent)
  rw [same, found] at kept
  rcases places.choice origin with own | moved
  · left
    rw [← same, own]
    exact kept.symm
  · exact Or.inr ⟨origin, moved.1, moved.2.symm.trans same, kept.symm⟩

/-- A name that is no stamped name holds what it held, or nothing. -/
theorem StampedPlaces.node (places : StampedPlaces st done arch place) (known : arch ∈ gArches)
    {name : Bytes} (bare : storeArchOf name = none) :
    packagesOf done.files name = packagesOf st.files name ∨ packagesOf done.files name = none := by
  cases found : packagesOf done.files name with
  | none => exact Or.inr rfl
  | some node =>
      left
      have present : (packagesOf done.files name).isSome := by rw [found]; rfl
      obtain ⟨origin, originPresent, same⟩ := places.placed.covered name present
      have kept := places.placed.kept origin originPresent
      rcases places.choice origin with own | moved
      · have stays : origin = name := own.symm.trans same
        rw [same, stays] at kept
        rw [← found, kept]
      · have stamped := storeArchOf_stamped known moved.1
        rw [← moved.2, same, bare] at stamped
        contradiction

/-- A request for an architecture is answered as before. -/
theorem StampedPlaces.resolves_qualified (places : StampedPlaces st done arch place)
    {name canonical digest : Bytes} (form : canonicalForm name = some canonical)
    (qualified : (storeArchOf canonical).isSome) (resolved : storeResolve st name = .ok digest) :
    storeResolve done name = .ok digest := by
  rw [storeResolve_qualified form qualified] at resolved ⊢
  have found := published_eq_some.mpr resolved
  have stays : place canonical = canonical := by
    rcases places.choice canonical with own | moved
    · exact own
    · rw [moved.1.2] at qualified
      contradiction
  have after := places.published found
  rw [stays] at after
  exact published_eq_some.mp after

/-- A bare request is answered as before: its entry may have become the one of an
architecture, and that is asked as well. -/
theorem StampedPlaces.resolves_bare (places : StampedPlaces st done arch place)
    (known : arch ∈ gArches) {name canonical digest : Bytes}
    (form : canonicalForm name = some canonical) (bare : storeArchOf canonical = none)
    (fits : ∀ arch ∈ gArches, (archName canonical arch).length < storeNameMax)
    (resolved : storeResolve st name = .ok digest) : storeResolve done name = .ok digest := by
  obtain ⟨readable, some, agree⟩ := candidates_of_storeResolve form bare resolved
  have canonicalArchless : Archless canonical := ⟨canonicalForm_out_valid form, bare⟩
  have probe : ∀ other ∈ gArches, archProbe canonical other = archName canonical other :=
    fun other member => archProbe_of_lt (fits other member)
  apply storeResolve_of_agree form bare
  · intro unreadable
    rcases places.node known bare with same | gone
    · apply readable
      have node : done.files (.packages canonical) = st.files (.packages canonical) := same
      simpa only [resolvePath, node] using unreadable
    · rw [resolvePath_notFound.mpr gone] at unreadable
      contradiction
  · -- The candidate that answered is still one, where it is now.
    obtain ⟨candidate, member⟩ := List.exists_mem_of_ne_nil _ some
    obtain ⟨key, found⟩ := candidate
    obtain ⟨named, before⟩ := mem_candidates.mp member
    apply List.ne_nil_of_mem (a := (place key, found))
    refine mem_candidates.mpr ⟨?_, places.published before⟩
    rcases places.choice key with own | moved
    · rw [own]
      exact named
    · rcases mem_probeNames.mp named with same | stamped
      · rw [moved.2, same]
        exact mem_probeNames.mpr (Or.inr ⟨arch, known, (probe arch known).symm⟩)
      · obtain ⟨other, otherKnown, same⟩ := stamped
        have carried := storeArchOf_stamped otherKnown canonicalArchless
        rw [← probe other otherKnown, ← same, moved.1.2] at carried
        contradiction
  · -- Every candidate now was one before, with its digest.
    intro candidate member
    obtain ⟨key, found⟩ := candidate
    obtain ⟨named, after⟩ := mem_candidates.mp member
    show found = digest
    rcases places.origin after with before | ⟨origin, archless, stamped, before⟩
    · exact agree _ (mem_candidates.mpr ⟨named, before⟩)
    · have same : origin = canonical := by
        rcases mem_probeNames.mp named with own | probed
        · have carried := storeArchOf_stamped known archless
          rw [stamped, own, bare] at carried
          contradiction
        · obtain ⟨other, otherKnown, key_eq⟩ := probed
          rw [probe other otherKnown] at key_eq
          have carried := storeArchOf_stamped known archless
          rw [stamped, key_eq, storeArchOf_stamped otherKnown canonicalArchless] at carried
          rw [key_eq, Option.some.inj carried] at stamped
          exact archName_injective known archless canonicalArchless stamped
      rw [same] at before
      exact agree _ (mem_candidates.mpr ⟨mem_probeNames.mpr (Or.inl rfl), before⟩)

theorem StampedPlaces.resolves (places : StampedPlaces st done arch place) (known : arch ∈ gArches)
    {name digest : Bytes} (fits : StampsFit name) (resolved : storeResolve st name = .ok digest) :
    storeResolve done name = .ok digest := by
  cases form : canonicalForm name with
  | none =>
      rw [storeResolve_of_none form] at resolved
      contradiction
  | some canonical =>
      cases qualified : storeArchOf canonical with
      | some other =>
          exact places.resolves_qualified form (by rw [qualified]; rfl) resolved
      | none =>
          exact places.resolves_bare known form qualified (fits canonical form qualified) resolved

end Resolving

/-- A pass over canonical entries that reports no failure loses nothing and breaks no
name, and a dry run, in any order, reports the same. -/
theorem storeSetArch_lossless {sys : Sys} {st done : Store} {arch : Bytes} {pass : Migration}
    (walks : Walks sys st.files) (known : arch ∈ gArches) (entries : CanonicalEntries st.files)
    (returned : storeSetArch sys st arch false = (done, some pass)) (ok : pass.failed = false) :
    (∃ place, Stamped st.files done.files arch place) ∧
      (stampConflicts st.files arch).encard = pass.conflicts ∧
      (stampRenames st.files arch).encard = pass.renamed ∧
      (∀ name digest, StampsFit name → storeResolve st name = .ok digest →
        storeResolve done name = .ok digest) ∧
      ∀ dry, Walks dry st.files → storeSetArch dry st arch true = (st, some pass) := by
  obtain ⟨keys, run, place, failed, distinct, collected, relocated, fit, passed, _⟩ :=
    walks.stamped known
  rw [passed] at returned
  obtain ⟨rfl, same⟩ := Prod.mk.inj returned
  obtain rfl := Option.some.inj same
  have fits := fit.mp ok
  have astray : ∀ name ∈ keys, archTarget arch name ≠ name :=
    fun name member => ((collected name).mp member).2
  have alone := alone_stamped known astray (packagesOf st.files)
  have stayed := (relocated.alone_iff astray).mp alone
  have moved := relocated.moved_of_alone alone astray
  obtain ⟨conflicts, renames⟩ := stamp_counts known entries distinct collected fits
  refine ⟨⟨place, stamped_of_relocated known entries collected fits relocated⟩, ?_, ?_, ?_, ?_⟩
  · rw [conflicts, ← stayed]
  · rw [renames, ← moved]
  · intro name digest short resolved
    have places :
        StampedPlaces st (st.withFiles (st.files.withPackages run.entries)) arch place := by
      refine ⟨fun other => ?_, relocated.placed⟩
      rcases relocated.choice other with own | gone
      · exact Or.inl own
      · obtain ⟨archless, _, target⟩ := archTarget_of_ne (astray other gone.1)
        exact Or.inr ⟨archless, gone.2.trans target⟩
    exact places.resolves known short resolved
  · intro dry dryWalks
    obtain ⟨others, _, _, dryFailed, othersDistinct, othersCollected, _, dryFit, _, foretold⟩ :=
      dryWalks.stamped known
    have permuted : keys.Perm others := by
      apply (List.perm_ext_iff_of_nodup distinct othersDistinct).mpr
      intro name
      rw [collected, othersCollected]
    rw [foretold, dryFit.mpr fits, stayed, moved, permuted.countP_eq, permuted.countP_eq]
    rw [show failed = false from ok]

/-- An image without an architecture beside one with another, and one whose stamped name
is taken. -/
def bareEntries : List (Bytes × Bytes) :=
  [(ascii "a-1-1.iso", List.replicate 64 97), (ascii "a-1-1-armv7l.iso", List.replicate 64 97),
    (ascii "b-1-1.iso", List.replicate 64 98), (ascii "b-1-1-x86_64.iso", List.replicate 64 99)]

def bareStore : Store := .holding bareEntries []

theorem bareStore_entries : CanonicalEntries bareStore.files := by
  have walks : Walks (.holding bareEntries []) bareStore.files :=
    walks_holding (by decide) (by decide)
  intro name found
  have listed := ((walks.listing _ rfl).2 name).mpr (Or.inl (published_mem found))
  have forms : ∀ name ∈ [dot] :: [dot, dot] :: bareEntries.map Prod.fst,
      name = [dot] ∨ name = [dot, dot] ∨ canonicalForm name = some name := by
    decide +kernel
  have unpublished : ¬ (published bareStore.files [dot]).isSome ∧
      ¬ (published bareStore.files [dot, dot]).isSome := by decide
  rcases forms name listed with point | points | form
  · subst point
    exact absurd found unpublished.1
  · subst points
    exact absurd found unpublished.2
  · exact form

/-- The stamped image still answers to its bare name. -/
theorem bareStore_stamped :
    storeResolve (storeSetArch (.holding bareEntries []) bareStore (ascii "x86_64") false).1
      (ascii "a-1-1.iso") = .ok (List.replicate 64 97) := by
  have counted : (storeSetArch (.holding bareEntries []) bareStore (ascii "x86_64") false).2 =
      some ⟨false, 1, 1⟩ := by
    decide +kernel
  have kept := (storeSetArch_lossless (walks_holding (by decide) (by decide)) (by decide)
    bareStore_entries (Prod.ext rfl counted) rfl).2.2.2.1
  apply kept
  · intro canonical form _ arch known
    have fixed : canonicalForm (ascii "a-1-1.iso") = some (ascii "a-1-1.iso") := by decide +kernel
    rw [← Option.some.inj (fixed.symm.trans form)]
    revert arch
    decide
  · decide +kernel

end CixCache
