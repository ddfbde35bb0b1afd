import Mathlib.Data.Set.Card
import CixCache.Lib.Relocation
import CixCache.Store.Migrate

/-!
Contract: what a canonicalisation pass does to the entries of packages/.

Owns: `canonicalTarget`, the name a pass wants an entry to have; that a pass is a run of
relocations over the names it collects; that it loses no entry and settles; and for
which stores the order of `readdir` decides nothing.

Does not own: the loop of the pass, and what a canonical name is.
-/

namespace CixCache

open CixCache.Lib

/-! ## Targets of a pass -/

/-- The name a pass wants an entry to have; one without a canonical form keeps its own. -/
def canonicalTarget (name : Bytes) : Bytes := (canonicalForm name).getD name

theorem canonicalTarget_of_form {name canonical : Bytes}
    (form : canonicalForm name = some canonical) : canonicalTarget name = canonical := by
  rw [canonicalTarget, form, Option.getD_some]

theorem canonicalTarget_idem (name : Bytes) :
    canonicalTarget (canonicalTarget name) = canonicalTarget name := by
  cases form : canonicalForm name with
  | none =>
      have own : canonicalTarget name = name := by rw [canonicalTarget, form, Option.getD_none]
      rw [own, own]
  | some canonical =>
      rw [canonicalTarget_of_form form]
      exact canonicalTarget_of_form (canonicalForm_fixed form)

/-- A name with another target has a canonical form that differs. -/
theorem form_of_astray {name : Bytes} (astray : canonicalTarget name ≠ name) :
    canonicalForm name = some (canonicalTarget name) := by
  cases form : canonicalForm name with
  | none => exact absurd (by rw [canonicalTarget, form, Option.getD_none]) astray
  | some canonical => rw [canonicalTarget_of_form form]

/-- `store_canonical_name` returns 1 for the names with another target. -/
theorem storeCanonicalName_of_astray {name : Bytes} (astray : canonicalTarget name ≠ name) :
    storeCanonicalName name = some (canonicalTarget name, true) := by
  rw [storeCanonicalName_of_canonicalForm (form_of_astray astray)]
  simp [astray]

theorem storeCanonicalName_of_settled {name : Bytes} (settled : canonicalTarget name = name)
    (out : Bytes) : storeCanonicalName name ≠ some (out, true) := by
  intro found
  have form : canonicalForm name = some out := by rw [canonicalForm, found, Option.map_some]
  have same := storeCanonicalName_of_canonicalForm form
  rw [canonicalTarget_of_form form] at settled
  rw [found, settled] at same
  simp at same

/-! ## The names a pass collects -/

/-- The listed names a pass would rename. -/
def renameSet (files : Files) (names : List Bytes) : List Bytes :=
  names.filter fun name => (published files name).isSome && canonicalTarget name != name

theorem mem_renameSet {files : Files} {names : List Bytes} {name : Bytes} :
    name ∈ renameSet files names ↔
      name ∈ names ∧ (published files name).isSome ∧ canonicalTarget name ≠ name := by
  simp [renameSet]

theorem listed_renameSet (files : Files) (names : List Bytes) :
    ((listed files names).filterMap fun entry =>
      match storeCanonicalName entry.1 with
      | some (_, true) => some (snprintf storeNameMax entry.1)
      | _ => none) = renameSet files names := by
  rw [listed, publishedAmong, List.filterMap_filterMap, List.filterMap_filter, renameSet,
    ← List.filterMap_eq_filter]
  congr 1
  funext name
  by_cases astray : canonicalTarget name = name
  · have skipped : (match storeCanonicalName name with
        | some (_, true) => some (snprintf storeNameMax name)
        | _ => none) = none := by
      split
      next out found => exact absurd found (storeCanonicalName_of_settled astray out)
      next => rfl
    have refused : Option.guard (fun name => (published files name).isSome &&
        canonicalTarget name != name) name = none := by simp [Option.guard, astray]
    rw [refused]
    cases published files name with
    | none => simp
    | some digest => simp [skipped]
  · have form := form_of_astray astray
    have valid := canonicalForm_valid form
    rw [if_pos valid]
    cases found : published files name with
    | none => simp [Option.guard, found]
    | some digest =>
        simp [storeCanonicalName_of_astray astray, Option.guard, found, astray,
          snprintf_of_lt (storeNameIsValid.length_lt valid)]

/-! ## A pass is a run of relocations -/

def Sys.Renames (sys : Sys) : Prop := ∀ source target, sys.allows (.rename source target) = true

/-- The tree with other entries in packages/. -/
def Files.withPackages (files : Files) (entries : Bytes → Option Node) : Files
  | .packages name => entries name
  | .blobs name => files (.blobs name)
  | .tmp name => files (.tmp name)

section Trees

variable (files : Files) (entries : Bytes → Option Node)

@[simp] theorem packagesOf_withPackages : packagesOf (files.withPackages entries) = entries := rfl

@[simp] theorem blobsOf_withPackages : blobsOf (files.withPackages entries) = blobsOf files := rfl

@[simp] theorem tmpOf_withPackages : tmpOf (files.withPackages entries) = tmpOf files := rfl

@[simp] theorem withPackages_withPackages (other : Bytes → Option Node) :
    (files.withPackages entries).withPackages other = files.withPackages other := by
  funext path
  cases path <;> rfl

@[simp] theorem withPackages_self : files.withPackages (packagesOf files) = files := by
  funext path
  cases path <;> rfl

/-- The tree a successful `rename` within packages/ leaves. -/
theorem update_packages {files : Files} {source target : Bytes} {node : Node}
    (present : packagesOf files source = some node) :
    Function.update (Function.update files (.packages source) none) (.packages target)
      (some node) = files.withPackages (moveEntry (packagesOf files) source target) := by
  funext path
  cases path with
  | packages name =>
      have entries : packagesOf (Function.update (Function.update files (.packages source) none)
          (.packages target) (some node)) = moveEntry (packagesOf files) source target := by
        rw [packagesOf_update_packages, packagesOf_update_packages, moveEntry, present]
      exact congrFun entries name
  | blobs name => rfl
  | tmp name => rfl

end Trees

section Runs

variable {sys : Sys} {st : Store}

theorem astray_paths (root : Root) {name : Bytes} (astray : canonicalTarget name ≠ name) :
    rawEntryPath root name = some (.packages name) ∧
      rawEntryPath root (canonicalTarget name) = some (.packages (canonicalTarget name)) := by
  have form := form_of_astray astray
  exact ⟨rawEntryPath_of_lt root (storeNameIsValid.length_lt (canonicalForm_valid form)),
    rawEntryPath_of_lt root (storeNameIsValid.length_lt (canonicalForm_out_valid form))⟩

/-- The step of a pass on a name with another target. -/
theorem canonicalizeLoop_cons {dryRun : Bool} {name : Bytes} {rest : List Bytes}
    (astray : canonicalTarget name ≠ name) (pass : Migration) :
    canonicalizeLoop sys dryRun (name :: rest) st pass =
      let step := migrateEntry sys dryRun (.packages name) (.packages (canonicalTarget name)) st pass
      canonicalizeLoop sys dryRun rest step.1 step.2 := by
  rw [canonicalizeLoop, storeCanonicalName_of_astray astray]
  dsimp only
  rw [(astray_paths st.root astray).1, (astray_paths st.root astray).2]

/-- A step of a pass whose renames succeed is one relocation. -/
theorem migrateEntry_relocate (renames : sys.Renames) (target : Bytes → Bytes) {name : Bytes}
    (present : (packagesOf st.files name).isSome) (failed : Bool) (moved stayed : Nat) :
    migrateEntry sys false (.packages name) (.packages (target name)) st
        ⟨failed, moved, stayed⟩ =
      let run := relocate target ⟨packagesOf st.files, moved, stayed⟩ name
      (st.withFiles (st.files.withPackages run.entries), ⟨failed, run.moved, run.stayed⟩) := by
  obtain ⟨node, found⟩ := Option.isSome_iff_exists.mp present
  have source : st.files (.packages name) = some node := found
  unfold migrateEntry relocate
  by_cases taken : (packagesOf st.files (target name)).isSome
  · have standing : (st.files (.packages (target name))).isSome := taken
    rw [if_pos standing, if_pos taken]
    simp
  · have absent : ¬(st.files (.packages (target name))).isSome := taken
    rw [if_neg absent, if_neg taken, if_neg (by simp), rename_of_present source (renames _ _),
      update_packages found]

/-- A pass whose renames succeed relocates the collected entries in turn. -/
theorem canonicalizeLoop_relocateAll (renames : sys.Renames) {names : List Bytes}
    (distinct : names.Nodup) (present : ∀ name ∈ names, (packagesOf st.files name).isSome)
    (astray : ∀ name ∈ names, canonicalTarget name ≠ name) (moved stayed : Nat) :
    canonicalizeLoop sys false names st ⟨false, moved, stayed⟩ =
      let run := relocateAll canonicalTarget names ⟨packagesOf st.files, moved, stayed⟩
      (st.withFiles (st.files.withPackages run.entries), ⟨false, run.moved, run.stayed⟩) := by
  induction names generalizing st moved stayed with
  | nil => simp [canonicalizeLoop, relocateAll]
  | cons name rest inductionHypothesis =>
      have own := present name List.mem_cons_self
      have fresh := (List.nodup_cons.mp distinct).1
      rw [canonicalizeLoop_cons (astray name List.mem_cons_self),
        migrateEntry_relocate renames _ own, relocateAll, List.foldl_cons, ← relocateAll]
      dsimp only
      rw [inductionHypothesis (List.nodup_cons.mp distinct).2]
      · simp
      · intro other member
        have different : other ≠ name := fun same => fresh (same ▸ member)
        exact relocate_keeps different (present other (List.mem_cons_of_mem _ member)) own
      · exact fun other member => astray other (List.mem_cons_of_mem _ member)

/-- A dry run counts what stands at the targets and touches nothing. -/
theorem canonicalizeLoop_dry {names : List Bytes}
    (astray : ∀ name ∈ names, canonicalTarget name ≠ name) (pass : Migration) :
    canonicalizeLoop sys true names st pass =
      (st, { pass with
        renamed := pass.renamed +
          names.countP fun name => !(packagesOf st.files (canonicalTarget name)).isSome
        conflicts := pass.conflicts +
          names.countP fun name => (packagesOf st.files (canonicalTarget name)).isSome }) := by
  induction names generalizing pass with
  | nil => rfl
  | cons name rest inductionHypothesis =>
      rw [canonicalizeLoop_cons (astray name List.mem_cons_self), migrateEntry, List.countP_cons,
        List.countP_cons]
      have restAstray := fun other (member : other ∈ rest) =>
        astray other (List.mem_cons_of_mem _ member)
      by_cases taken : (st.files (.packages (canonicalTarget name))).isSome
      · have standing : (packagesOf st.files (canonicalTarget name)).isSome := taken
        rw [if_pos taken]
        dsimp only
        rw [inductionHypothesis restAstray]
        simp [standing, Nat.add_assoc, Nat.add_comm 1]
      · have absent : (packagesOf st.files (canonicalTarget name)).isSome = false :=
          Bool.eq_false_iff.mpr taken
        rw [if_neg taken, if_pos rfl]
        dsimp only
        rw [inductionHypothesis restAstray]
        simp [absent, Nat.add_assoc, Nat.add_comm 1]

end Runs

/-! ## What a pass promises -/

/-- File-system calls succeed and packages/ is listed, in some order. -/
structure Walks (sys : Sys) (files : Files) : Prop where
  succeeds : sys.Succeeds
  opened : (sys.readdir .packages).isSome
  listing : sys.Listing files .packages

/-- What packages/ holds a name for. -/
def entryNames (files : Files) : Set Bytes := {name | (packagesOf files name).isSome}

def publishedNames (files : Files) : Set Bytes := {name | (published files name).isSome}

theorem published_mem {files : Files} {name : Bytes} (found : (published files name).isSome) :
    name ∈ entryNames files := by
  by_contra absent
  have empty : files (.packages name) = none := by simpa [entryNames, packagesOf] using absent
  rw [published_of_absent empty] at found
  contradiction

section Promises

variable {sys : Sys} {st : Store}

theorem Walks.collected (walks : Walks sys st.files) {names : List Bytes}
    (listing : sys.readdir .packages = some names) (name : Bytes) :
    name ∈ renameSet st.files names ↔
      (published st.files name).isSome ∧ canonicalTarget name ≠ name := by
  rw [mem_renameSet]
  constructor
  · exact fun member => member.2
  · intro candidate
    have listed := ((walks.listing names listing).2 name).mpr (Or.inl (published_mem candidate.1))
    exact ⟨listed, candidate⟩

/-- A pass whose walk comes to its end works through the listed names with another
target. -/
theorem storeCanonicalize_passes {names : List Bytes} {filled : SlotSet}
    (listing : sys.readdir .packages = some names)
    (walked : storeWalk sys st (collectNoncanonical sys) .empty = some filled) (dryRun : Bool) :
    storeCanonicalize sys st dryRun =
      ((canonicalizeLoop sys dryRun (renameSet st.files names) st ⟨false, 0, 0⟩).1,
        some (canonicalizeLoop sys dryRun (renameSet st.files names) st ⟨false, 0, 0⟩).2) := by
  obtain ⟨others, same, slots⟩ := storeWalk_collectNoncanonical walked
  rw [listing] at same
  obtain rfl := Option.some.inj same
  have collected := slots.trans (listed_renameSet st.files names)
  rw [storeCanonicalize, walked, ← collected]

/-- What a pass whose renames succeed does to the entries it collects, in the order of
`readdir`. -/
theorem storeCanonicalize_relocated (renames : sys.Renames) {names : List Bytes}
    {filled : SlotSet} (listing : sys.readdir .packages = some names)
    (walked : storeWalk sys st (collectNoncanonical sys) .empty = some filled)
    (distinct : names.Nodup) :
    ∃ run place,
      Relocated canonicalTarget (packagesOf st.files) (renameSet st.files names) run place ∧
        storeCanonicalize sys st false =
          (st.withFiles (st.files.withPackages run.entries),
            some ⟨false, run.moved, run.stayed⟩) := by
  have keysDistinct : (renameSet st.files names).Nodup := distinct.filter _
  have present : ∀ name ∈ renameSet st.files names, (packagesOf st.files name).isSome :=
    fun name member => published_mem (mem_renameSet.mp member).2.1
  have astray : ∀ name ∈ renameSet st.files names, canonicalTarget name ≠ name :=
    fun name member => (mem_renameSet.mp member).2.2
  obtain ⟨place, relocated, _⟩ := (relocated_start canonicalTarget (packagesOf st.files)).all
    canonicalTarget_idem keysDistinct present astray
  refine ⟨relocateAll canonicalTarget (renameSet st.files names) ⟨packagesOf st.files, 0, 0⟩,
    place, relocated, ?_⟩
  rw [storeCanonicalize_passes listing walked,
    canonicalizeLoop_relocateAll renames keysDistinct present astray]

theorem Walks.renames (walks : Walks sys st.files) : sys.Renames := fun _ _ => walks.succeeds _

/-- The walk of a pass comes to its end. -/
theorem Walks.noncanonical (walks : Walks sys st.files) :
    ∃ filled, storeWalk sys st (collectNoncanonical sys) .empty = some filled := by
  apply Option.isSome_iff_exists.mp
  apply storeWalk_isSome st _ walks.opened
  intro set name _ _ _
  unfold collectNoncanonical
  split
  next => exact pushSlot_of_succeeds walks.succeeds _ _
  next => rfl

/-- A pass works through the published names with another target, each once. -/
theorem Walks.passes (walks : Walks sys st.files) {names : List Bytes}
    (listing : sys.readdir .packages = some names) :
    (renameSet st.files names).Nodup ∧
      ∀ dryRun, storeCanonicalize sys st dryRun =
        ((canonicalizeLoop sys dryRun (renameSet st.files names) st ⟨false, 0, 0⟩).1,
          some (canonicalizeLoop sys dryRun (renameSet st.files names) st ⟨false, 0, 0⟩).2) := by
  obtain ⟨filled, walked⟩ := walks.noncanonical
  exact ⟨(walks.listing names listing).1.filter _, storeCanonicalize_passes listing walked⟩

/-- What a pass whose renames succeed leaves behind: every collected entry at its place. -/
theorem Walks.relocated (walks : Walks sys st.files) :
    ∃ keys run place, keys.Nodup ∧
      (∀ name, name ∈ keys ↔ (published st.files name).isSome ∧ canonicalTarget name ≠ name) ∧
      Relocated canonicalTarget (packagesOf st.files) keys run place ∧
      storeCanonicalize sys st false =
        (st.withFiles (st.files.withPackages run.entries), some ⟨false, run.moved, run.stayed⟩) ∧
      storeCanonicalize sys st true =
        (st, some ⟨false,
          keys.countP fun name => !(packagesOf st.files (canonicalTarget name)).isSome,
          keys.countP fun name => (packagesOf st.files (canonicalTarget name)).isSome⟩) := by
  obtain ⟨names, listing⟩ := Option.isSome_iff_exists.mp walks.opened
  obtain ⟨filled, walked⟩ := walks.noncanonical
  obtain ⟨keysDistinct, passes⟩ := walks.passes listing
  have collected := walks.collected listing
  obtain ⟨run, place, relocated, passed⟩ :=
    storeCanonicalize_relocated walks.renames listing walked (walks.listing names listing).1
  refine ⟨renameSet st.files names, run, place, keysDistinct, collected, relocated, passed, ?_⟩
  rw [passes, canonicalizeLoop_dry fun name member => ((collected name).mp member).2]
  simp

/-- A digest goes with the node. -/
theorem published_node {before after : Files} {name place : Bytes}
    (kept : packagesOf after place = packagesOf before name) :
    published after place = published before name := by
  have same : after (.packages place) = before (.packages name) := kept
  simp only [published, resolvePath, same]

/-- Each entry of `before` is where it was or at its canonical form, with its digest, and
no two are at one name; blobs/ is as it was. -/
structure Canonicalized (before after : Files) (place : Bytes → Bytes) : Prop where
  choice : ∀ name, place name = name ∨ canonicalForm name = some (place name)
  bijective : Set.BijOn place (entryNames before) (entryNames after)
  kept : ∀ name ∈ entryNames before, packagesOf after (place name) = packagesOf before name
  digests : ∀ name ∈ entryNames before, published after (place name) = published before name
  count : (publishedNames after).encard = (publishedNames before).encard
  entryMap : EntryMap before → EntryMap after
  blobs : blobsOf after = blobsOf before
  staged : tmpOf after = tmpOf before

/-- Every entry is canonical, cannot be made so or finds its canonical form taken, and
another pass of either kind changes nothing and reports `conflicts`. -/
structure SettledPass (st : Store) (conflicts : Nat) : Prop where
  blocked : ∀ name, (published st.files name).isSome → storeNameIsValid name = true →
    canonicalForm name = some name ∨ canonicalForm name = none ∨
      ∃ canonical, canonicalForm name = some canonical ∧ canonical ≠ name ∧
        canonical ∈ entryNames st.files
  again : ∀ sys dryRun, Walks sys st.files →
    storeCanonicalize sys st dryRun = (st, some ⟨false, 0, conflicts⟩)

section PlacedEntries

variable {before : Files} {entries : Bytes → Option Node} {place : Bytes → Bytes}

theorem digests_of_placed (placed : Placed (packagesOf before) entries place) :
    ∀ name ∈ entryNames before,
      published (before.withPackages entries) (place name) = published before name :=
  fun name present => published_node (placed.kept name present)

/-- Published entries stand where their names are placed. -/
theorem publishedNames_of_placed (placed : Placed (packagesOf before) entries place) :
    Set.BijOn place (publishedNames before) (publishedNames (before.withPackages entries)) := by
  have digests := digests_of_placed placed
  refine ⟨?_, placed.injective.mono fun name found => published_mem found, ?_⟩
  · intro name found
    show (published (before.withPackages entries) (place name)).isSome
    rw [digests name (published_mem found)]
    exact found
  · intro name found
    obtain ⟨origin, present, same⟩ := placed.covered name (published_mem found)
    refine ⟨origin, ?_, same⟩
    show (published before origin).isSome
    rw [← digests origin present, same]
    exact found

theorem count_of_placed (placed : Placed (packagesOf before) entries place) :
    (publishedNames (before.withPackages entries)).encard = (publishedNames before).encard := by
  have found := publishedNames_of_placed placed
  rw [← found.image_eq, found.injOn.encard_image]

end PlacedEntries

theorem canonicalized_of_placed {before : Files} {entries : Bytes → Option Node}
    {place : Bytes → Bytes} (placed : Placed (packagesOf before) entries place)
    (choice : ∀ name, place name = name ∨ canonicalForm name = some (place name)) :
    Canonicalized before (before.withPackages entries) place := by
  have digests := digests_of_placed placed
  have found := publishedNames_of_placed placed
  refine ⟨choice, placed.bijOn, placed.kept, digests, count_of_placed placed, ?_, rfl, rfl⟩
  intro holds
  constructor
  · intro name node standing
    have present : (entries name).isSome := by
      show (before.withPackages entries (.packages name)).isSome
      rw [standing]
      rfl
    obtain ⟨origin, originPresent, same⟩ := placed.covered name present
    obtain ⟨originNode, originStanding⟩ := Option.isSome_iff_exists.mp originPresent
    rw [← same, digests origin originPresent]
    exact holds.resolves origin originNode originStanding
  · intro name digest resolved
    obtain ⟨origin, originFound, same⟩ := found.surjOn (Option.isSome_iff_exists.mpr ⟨digest, resolved⟩)
    rw [← same] at resolved ⊢
    rcases choice origin with own | form
    · rw [own]
      obtain ⟨originDigest, originResolved⟩ := Option.isSome_iff_exists.mp originFound
      exact holds.named origin originDigest originResolved
    · exact canonicalForm_out_valid form

/-- A pass over entries whose targets are all taken changes nothing. -/
theorem Walks.blocked (walks : Walks sys st.files)
    (taken : ∀ name, (published st.files name).isSome → canonicalTarget name ≠ name →
      (packagesOf st.files (canonicalTarget name)).isSome) :
    ∃ keys : List Bytes, keys.Nodup ∧
      (∀ name, name ∈ keys ↔ (published st.files name).isSome ∧ canonicalTarget name ≠ name) ∧
      ∀ dryRun, storeCanonicalize sys st dryRun = (st, some ⟨false, 0, keys.length⟩) := by
  obtain ⟨names, listing⟩ := Option.isSome_iff_exists.mp walks.opened
  obtain ⟨distinct, passes⟩ := walks.passes listing
  have collected := walks.collected listing
  generalize renameSet st.files names = keys at distinct passes collected
  have astray : ∀ name ∈ keys, canonicalTarget name ≠ name :=
    fun name member => ((collected name).mp member).2
  have standing : ∀ name ∈ keys, (packagesOf st.files (canonicalTarget name)).isSome :=
    fun name member => taken name ((collected name).mp member).1 (astray name member)
  refine ⟨keys, distinct, collected, ?_⟩
  intro dryRun
  rw [passes]
  cases dryRun with
  | false =>
      have present : ∀ name ∈ keys, (packagesOf st.files name).isSome :=
        fun name member => published_mem ((collected name).mp member).1
      rw [canonicalizeLoop_relocateAll walks.renames distinct present astray]
      dsimp only
      rw [relocateAll_blocked standing]
      simp
  | true =>
      have every : keys.countP (fun name =>
          (packagesOf st.files (canonicalTarget name)).isSome) = keys.length :=
        List.countP_eq_length.mpr standing
      have none : keys.countP (fun name =>
          !(packagesOf st.files (canonicalTarget name)).isSome) = 0 := by
        apply List.countP_eq_zero.mpr
        intro name member
        simp [standing name member]
      rw [canonicalizeLoop_dry astray, every, none]
      simp

/-- A pass whose renames succeed loses no entry, and settles. -/
theorem storeCanonicalize_lossless (walks : Walks sys st.files) :
    ∃ after pass place,
      storeCanonicalize sys st false = (st.withFiles after, some pass) ∧ pass.failed = false ∧
        Canonicalized st.files after place ∧ SettledPass (st.withFiles after) pass.conflicts := by
  obtain ⟨keys, run, place, distinct, collected, relocated, passed, _⟩ := walks.relocated
  have choice : ∀ name, place name = name ∨ canonicalForm name = some (place name) := by
    intro name
    rcases relocated.choice name with own | moved
    · exact Or.inl own
    · right
      rw [moved.2]
      exact form_of_astray ((collected name).mp moved.1).2
  have canonicalized := canonicalized_of_placed relocated.placed choice
  -- What is still collected stayed where it was.
  have remaining : ∀ name, (published (st.files.withPackages run.entries) name).isSome →
      canonicalTarget name ≠ name → name ∈ keys ∧ place name = name := by
    intro name found astray
    obtain ⟨origin, present, same⟩ := relocated.placed.covered name (published_mem found)
    rcases relocated.choice origin with own | moved
    · have stays : origin = name := own.symm.trans same
      rw [← stays] at found astray ⊢
      rw [← own, canonicalized.digests origin present] at found
      exact ⟨(collected origin).mpr ⟨found, astray⟩, own⟩
    · rw [← same, moved.2, canonicalTarget_idem] at astray
      exact absurd rfl astray
  have taken : ∀ name, (published (st.files.withPackages run.entries) name).isSome →
      canonicalTarget name ≠ name → (run.entries (canonicalTarget name)).isSome := by
    intro name found astray
    obtain ⟨member, stays⟩ := remaining name found astray
    exact relocated.blocked name member stays
  refine ⟨_, _, place, passed, rfl, canonicalized, ?_, ?_⟩
  · intro name found valid
    by_cases astray : canonicalTarget name = name
    · cases form : canonicalForm name with
      | none => exact Or.inr (Or.inl rfl)
      | some canonical =>
          left
          rw [← canonicalTarget_of_form form, astray]
    · exact Or.inr (Or.inr ⟨_, form_of_astray astray, astray, taken name found astray⟩)
  · intro other dryRun otherWalks
    obtain ⟨left, leftDistinct, leftCollected, again⟩ := otherWalks.blocked taken
    have same : left.Perm (keys.filter fun name => place name == name) := by
      apply (List.perm_ext_iff_of_nodup leftDistinct (distinct.filter _)).mpr
      intro name
      rw [leftCollected, List.mem_filter, beq_iff_eq]
      constructor
      · exact fun candidate => remaining name candidate.1 candidate.2
      · intro kept
        have candidate := (collected name).mp kept.1
        have digests := canonicalized.digests name (published_mem candidate.1)
        rw [kept.2] at digests
        refine ⟨?_, candidate.2⟩
        rw [Store.withFiles_files, digests]
        exact candidate.1
    have count : left.length = run.stayed := by
      rw [same.length_eq, ← List.countP_eq_length_filter, relocated.stayed]
      exact List.countP_congr fun name _ => by simp
    rw [again, count]

end Promises

theorem walks_holding {entries blobs : List (Bytes × Bytes)}
    (entriesNodup : ([dot] :: [dot, dot] :: entries.map Prod.fst).Nodup)
    (blobsNodup : ([dot] :: [dot, dot] :: blobs.map Prod.fst).Nodup) :
    Walks (Sys.holding entries blobs) (Store.holding entries blobs).files :=
  ⟨Sys.succeeds_succeeding _, rfl, Sys.listing_holding entriesNodup blobsNodup .packages⟩

/-- Two spellings of one archive; the canonical one is there. -/
def respelledStore : Store :=
  .holding [(ascii "foo-1.0.tar.gz", List.replicate 64 97),
    (ascii "foo-1.0-1.tar.gz", List.replicate 64 98)] []

theorem respelledStore_settles :
    ∃ after pass place,
      storeCanonicalize (.holding [(ascii "foo-1.0.tar.gz", List.replicate 64 97),
          (ascii "foo-1.0-1.tar.gz", List.replicate 64 98)] []) respelledStore false =
        (respelledStore.withFiles after, some pass) ∧ pass.failed = false ∧
        Canonicalized respelledStore.files after place ∧
          SettledPass (respelledStore.withFiles after) pass.conflicts :=
  storeCanonicalize_lossless (walks_holding (by decide) (by decide))

/-! ## When `readdir` decides nothing -/

/-- Whatever the order of `readdir`, a pass ends with one map from names to digests and
one result, and a dry run foretells the result. -/
def OrderFree (st : Store) : Prop :=
  ∀ left right : Sys, Walks left st.files → Walks right st.files →
    published (storeCanonicalize left st false).1.files =
        published (storeCanonicalize right st false).1.files ∧
      (storeCanonicalize left st false).2 = (storeCanonicalize right st false).2 ∧
      storeCanonicalize left st true = (st, (storeCanonicalize left st false).2)

/-- No two entries share a canonical form that nothing stands at. -/
def UnsharedForms (files : Files) : Prop :=
  ∀ left right canonical, (published files left).isSome → (published files right).isSome →
    canonicalForm left = some canonical → canonicalForm right = some canonical →
      files (.packages canonical) = none → left = right

theorem alone_iff_unshared {files : Files} {keys : List Bytes}
    (collected : ∀ name, name ∈ keys ↔
      (published files name).isSome ∧ canonicalTarget name ≠ name) :
    Alone canonicalTarget (packagesOf files) keys ↔ UnsharedForms files := by
  constructor
  · intro alone left right canonical leftFound rightFound leftForm rightForm empty
    have collects : ∀ name, (published files name).isSome → canonicalForm name = some canonical →
        name ∈ keys := by
      intro name found form
      refine (collected name).mpr ⟨found, ?_⟩
      rw [canonicalTarget_of_form form]
      intro same
      rw [same] at empty
      rw [published_of_absent empty] at found
      contradiction
    apply alone left (collects left leftFound leftForm) right (collects right rightFound rightForm)
    · rw [canonicalTarget_of_form leftForm, canonicalTarget_of_form rightForm]
    · rw [canonicalTarget_of_form leftForm]
      exact empty
  · intro unshared left leftMember right rightMember same empty
    obtain ⟨leftFound, leftAstray⟩ := (collected left).mp leftMember
    obtain ⟨rightFound, rightAstray⟩ := (collected right).mp rightMember
    have rightForm := form_of_astray rightAstray
    rw [← same] at rightForm
    exact unshared left right _ leftFound rightFound (form_of_astray leftAstray) rightForm empty

/-- A directory of finitely many names can be listed. -/
theorem exists_walks {files : Files} (finite : (entryNames files).Finite) :
    ∃ sys, Walks sys files := by
  let names := (finite.toFinset ∪ {[dot], [dot, dot]}).toList
  refine ⟨.succeeding fun _ => some names, Sys.succeeds_succeeding _, rfl, ?_⟩
  intro listed listing
  rw [← Option.some.inj listing]
  refine ⟨Finset.nodup_toList _, fun name => ?_⟩
  rw [Finset.mem_toList, Finset.mem_union, Set.Finite.mem_toFinset, Finset.mem_insert,
    Finset.mem_singleton]
  rfl

/-- The order of `readdir` decides nothing exactly if no two entries share a free form. -/
theorem orderFree_iff {st : Store} (finite : (entryNames st.files).Finite) :
    OrderFree st ↔ UnsharedForms st.files := by
  constructor
  · intro orderFree
    obtain ⟨sys, walks⟩ := exists_walks finite
    obtain ⟨keys, run, place, _, collected, relocated, passed, foretold⟩ := walks.relocated
    have truth := (orderFree sys sys walks walks).2.2
    rw [passed, foretold] at truth
    have counts := Option.some.inj (congrArg Prod.snd truth)
    apply (alone_iff_unshared collected).mp
    apply (relocated.alone_iff fun name member => ((collected name).mp member).2).mpr
    exact (congrArg Migration.conflicts counts).symm
  · intro unshared left right leftWalks rightWalks
    obtain ⟨keys, run, place, distinct, collected, relocated, passed, foretold⟩ :=
      leftWalks.relocated
    obtain ⟨others, otherRun, otherPlace, otherDistinct, otherCollected, otherRelocated,
      otherPassed, _⟩ := rightWalks.relocated
    have alone := (alone_iff_unshared collected).mpr unshared
    have otherAlone := (alone_iff_unshared otherCollected).mpr unshared
    have present : ∀ name ∈ keys, (packagesOf st.files name).isSome :=
      fun name member => published_mem ((collected name).mp member).1
    have astray : ∀ name ∈ keys, canonicalTarget name ≠ name :=
      fun name member => ((collected name).mp member).2
    have same : keys.Perm others := by
      apply (List.perm_ext_iff_of_nodup distinct otherDistinct).mpr
      intro name
      rw [collected, otherCollected]
    have entries := relocated.unique otherRelocated same alone astray
    have otherAstray := fun name (member : name ∈ others) => astray name (same.symm.subset member)
    have moved := relocated.moved_of_alone alone astray
    have stayed := (relocated.alone_iff astray).mp alone
    have otherMoved := otherRelocated.moved_of_alone otherAlone otherAstray
    have otherStayed := (otherRelocated.alone_iff otherAstray).mp otherAlone
    refine ⟨?_, ?_, ?_⟩
    · rw [passed, otherPassed, entries]
    · rw [passed, otherPassed, moved, stayed, otherMoved, otherStayed, same.countP_eq,
        same.countP_eq]
    · rw [passed, foretold, moved, stayed]

/-- Another order of the listing is a listing. -/
theorem Walks.reorder {sys : Sys} {files : Files} (walks : Walks sys files)
    {names others : List Bytes} (listing : sys.readdir .packages = some names)
    (same : names.Perm others) : Walks (.succeeding fun _ => some others) files := by
  refine ⟨Sys.succeeds_succeeding _, rfl, ?_⟩
  obtain ⟨distinct, complete⟩ := walks.listing names listing
  intro listed reordered
  rw [← Option.some.inj reordered]
  refine ⟨same.nodup_iff.mp distinct, fun name => ?_⟩
  rw [← same.mem_iff]
  exact complete name

/-- Any entry with a free canonical form wins it in the order that yields it first. -/
theorem first_listed_wins {st : Store} (finite : (entryNames st.files).Finite)
    {name canonical : Bytes} (found : (published st.files name).isSome)
    (form : canonicalForm name = some canonical) (empty : st.files (.packages canonical) = none) :
    ∃ sys, Walks sys st.files ∧
      published (storeCanonicalize sys st false).1.files canonical = published st.files name := by
  have target := canonicalTarget_of_form form
  have astray : canonicalTarget name ≠ name := by
    intro same
    rw [← target, same] at empty
    rw [published_of_absent empty] at found
    contradiction
  obtain ⟨sys, anyWalks⟩ := exists_walks finite
  obtain ⟨names, listing⟩ := Option.isSome_iff_exists.mp anyWalks.opened
  have member : name ∈ names :=
    ((anyWalks.listing names listing).2 name).mpr (Or.inl (published_mem found))
  have walks := anyWalks.reorder listing (List.perm_cons_erase member)
  refine ⟨_, walks, ?_⟩
  obtain ⟨distinct, passes⟩ := walks.passes rfl
  have collected := walks.collected rfl
  have first : renameSet st.files (name :: names.erase name) =
      name :: renameSet st.files (names.erase name) :=
    List.filter_cons_of_pos (by simp [found, astray])
  rw [first] at distinct passes collected
  generalize renameSet st.files (names.erase name) = rest at distinct passes collected
  have present : ∀ other ∈ name :: rest, (packagesOf st.files other).isSome :=
    fun other inside => published_mem ((collected other).mp inside).1
  have allAstray : ∀ other ∈ name :: rest, canonicalTarget other ≠ other :=
    fun other inside => ((collected other).mp inside).2
  have standing := present name List.mem_cons_self
  have free : packagesOf st.files (canonicalTarget name) = none := by
    rw [target]
    exact empty
  have moved := (relocated_start canonicalTarget (packagesOf st.files)).move canonicalTarget_idem
    List.not_mem_nil standing astray free
  obtain ⟨last, relocated, agrees⟩ := moved.all canonicalTarget_idem distinct
    (fun other inside => present other (List.mem_cons_of_mem _ inside))
    (fun other inside => allAstray other (List.mem_cons_of_mem _ inside))
  have won : last name = canonical := by
    rw [agrees name List.mem_cons_self, Function.update_self, target]
  have kept := relocated.placed.kept name standing
  have step : relocate canonicalTarget ⟨packagesOf st.files, 0, 0⟩ name =
      ⟨moveEntry (packagesOf st.files) name (canonicalTarget name), 0 + 1, 0⟩ :=
    if_neg (by simp [free])
  rw [won] at kept
  rw [passes, canonicalizeLoop_relocateAll walks.renames distinct present allAstray, relocateAll,
    List.foldl_cons, step, ← relocateAll]
  exact published_node kept

theorem Walks.finite {sys : Sys} {files : Files} (walks : Walks sys files) :
    (entryNames files).Finite := by
  obtain ⟨names, listing⟩ := Option.isSome_iff_exists.mp walks.opened
  apply names.finite_toSet.subset
  intro name present
  exact ((walks.listing names listing).2 name).mpr (Or.inl present)

/-- A canonical name that is there is not shared. -/
theorem respelledStore_orderFree : OrderFree respelledStore := by
  have walks : Walks (Sys.holding _ []) respelledStore.files :=
    walks_holding (by decide) (by decide)
  apply (orderFree_iff walks.finite).mpr
  intro left _ canonical found _ form _ empty
  have listed := ((walks.listing _ rfl).2 left).mpr (Or.inl (published_mem found))
  have forms : ∀ name ∈ [[dot], [dot, dot], ascii "foo-1.0.tar.gz", ascii "foo-1.0-1.tar.gz"],
      (canonicalForm name).getD (ascii "foo-1.0-1.tar.gz") = ascii "foo-1.0-1.tar.gz" := by
    decide +kernel
  have same := forms left listed
  rw [form, Option.getD_some] at same
  have taken : (respelledStore.files (.packages (ascii "foo-1.0-1.tar.gz"))).isSome := by
    decide +kernel
  rw [← same, empty] at taken
  contradiction

/-- Two spellings of one archive, its canonical name free. -/
def twinStore : Store :=
  .holding [(ascii "foo-1.0.tar.gz", List.replicate 64 97),
    (ascii "foo-1.0-01.tar.gz", List.replicate 64 98)] []

/-- The two orders `readdir` can yield its entries in. -/
def twinOrders : Sys × Sys :=
  (.succeeding fun _ => some [[dot], [dot, dot], ascii "foo-1.0.tar.gz", ascii "foo-1.0-01.tar.gz"],
    .succeeding fun _ => some [[dot], [dot, dot], ascii "foo-1.0-01.tar.gz", ascii "foo-1.0.tar.gz"])

theorem twin_walks : Walks twinOrders.1 twinStore.files ∧ Walks twinOrders.2 twinStore.files := by
  have walks : Walks (Sys.holding _ []) twinStore.files := walks_holding (by decide) (by decide)
  exact ⟨walks.reorder rfl (by decide), walks.reorder rfl (by decide)⟩

/-- `readdir` decides whose digest the canonical name gets, and the dry run promises both
renames. -/
theorem twin_spellings_raced :
    published (storeCanonicalize twinOrders.1 twinStore false).1.files (ascii "foo-1.0-1.tar.gz") =
        some (List.replicate 64 97) ∧
      published (storeCanonicalize twinOrders.2 twinStore false).1.files
        (ascii "foo-1.0-1.tar.gz") = some (List.replicate 64 98) ∧
      (storeCanonicalize twinOrders.1 twinStore false).2 = some ⟨false, 1, 1⟩ ∧
      (storeCanonicalize twinOrders.1 twinStore true).2 = some ⟨false, 2, 0⟩ ∧
      ¬ OrderFree twinStore := by
  have first : published (storeCanonicalize twinOrders.1 twinStore false).1.files
      (ascii "foo-1.0-1.tar.gz") = some (List.replicate 64 97) := by decide +kernel
  have second : published (storeCanonicalize twinOrders.2 twinStore false).1.files
      (ascii "foo-1.0-1.tar.gz") = some (List.replicate 64 98) := by decide +kernel
  refine ⟨first, second, by decide +kernel, by decide +kernel, ?_⟩
  intro orderFree
  have same := congrFun (orderFree _ _ twin_walks.1 twin_walks.2).1 (ascii "foo-1.0-1.tar.gz")
  rw [first, second] at same
  revert same
  decide +kernel

end CixCache
