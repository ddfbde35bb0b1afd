import CixCache.Store.SetArch

/-!
Contract: what a migration pass does to an artifact and its detached signature.

Owns: `MigrationPass`, either pass with the name it wants an entry to have; which entries
it renames and what stands at a name afterwards, by a look at the store and the order of
`readdir` before it; and for which entries the signature beside an artifact is the one
that was beside it before.

Does not own: that a pass is a run of relocations, and the name of a signature.
-/

namespace CixCache

open CixCache.Lib

/-! ## Names of signatures -/

/-- What a signature's canonical form is, if it has one. -/
theorem canonicalForm_signed {name canonical target : Bytes}
    (artifact : storeIsSignature name = false) (form : canonicalForm name = some canonical)
    (signedForm : canonicalForm (name ++ storeSigExt) = some target) :
    target = canonical ++ storeSigExt := by
  have fits := storeNameIsValid.length_lt (canonicalForm_valid signedForm)
  have found : storeSignatureName name = some (name ++ storeSigExt) := by
    rw [storeSignatureName_eq (canonicalForm_valid form) artifact, if_neg]
    rw [List.length_append] at fits
    omega
  rw [canonicalForm_signature found form] at signedForm
  split at signedForm
  next => contradiction
  next => exact (Option.some.inj signedForm).symm

section Stamps

variable {arch name : Bytes}

/-- Deriving the signature's name and stamping commute. -/
theorem archName_signed (known : arch ∈ gArches) (archless : Archless name)
    (artifact : storeIsSignature name = false) :
    archName (name ++ storeSigExt) arch = archName name arch ++ storeSigExt ∧
      storeArchOf (archName name arch ++ storeSigExt) = some arch := by
  obtain ⟨valid, bare⟩ := archless
  obtain ⟨parts, rfl⟩ := NameParts.exists_render_of_valid valid
  rw [NameParts.storeArchOf_render] at bare
  obtain ⟨row, rowKnown, ext, signed, _⟩ := NameParts.exists_signature artifact
  have signedBare : (parts.withSuffix row rowKnown).arch = none := bare
  have stamped : archName (parts.render ++ storeSigExt) arch =
      ((parts.withSuffix row rowKnown).withArch arch known).render := by
    rw [← signed, NameParts.archName_render signedBare known]
  have same : ((parts.withSuffix row rowKnown).withArch arch known).render =
      archName parts.render arch ++ storeSigExt := by
    rw [NameParts.archName_render bare known]
    simp only [NameParts.render, NameParts.stem, NameParts.archTail, NameParts.withArch,
      NameParts.withSuffix, ext, List.append_assoc]
  refine ⟨stamped.trans same, ?_⟩
  rw [← same, NameParts.storeArchOf_render]
  rfl

end Stamps

/-! ## Either pass -/

/-- `store_canonicalize` and `store_set_arch`, neither as a dry run. -/
inductive MigrationPass where
  | canonicalize
  | setArch (arch : Bytes)
deriving DecidableEq, Repr

namespace MigrationPass

def run (sys : Sys) (st : Store) : MigrationPass → Store × Option Migration
  | canonicalize => storeCanonicalize sys st false
  | setArch arch => storeSetArch sys st arch false

/-- The callback of the walk that fills `struct rename_set`. -/
def collect (sys : Sys) : MigrationPass → WalkCallback SlotSet
  | canonicalize => collectNoncanonical sys
  | setArch _ => collectArchless sys

/-- What `readdir` yields of packages/ to a pass; nothing when its walk gives up. -/
def listing (pass : MigrationPass) (sys : Sys) (st : Store) : List Bytes :=
  match storeWalk sys st (pass.collect sys) .empty with
  | none => []
  | some _ => (sys.readdir .packages).getD []

/-- The name a pass wants an entry to have; an architecture nobody knows stamps nothing. -/
def newName : MigrationPass → Bytes → Bytes
  | canonicalize, name => canonicalTarget name
  | setArch arch, name => if arch ∈ gArches then archTarget arch name else name

theorem newName_known {arch : Bytes} (known : arch ∈ gArches) :
    (setArch arch).newName = archTarget arch := by
  funext name
  exact if_pos known

theorem newName_unknown {arch : Bytes} (unknown : arch ∉ gArches) (name : Bytes) :
    (setArch arch).newName name = name :=
  if_neg unknown

section Names

variable (pass : MigrationPass) {name : Bytes}

theorem newName_idem (name : Bytes) : pass.newName (pass.newName name) = pass.newName name := by
  cases pass with
  | canonicalize => exact canonicalTarget_idem name
  | setArch arch =>
      by_cases known : arch ∈ gArches
      · rw [newName_known known, archTarget_idem known]
      · rw [newName_unknown known, newName_unknown known]

/-- A signature that gets a new name gets the one that goes with its artifact's. -/
theorem newName_signed (artifact : storeIsSignature name = false)
    (astray : pass.newName name ≠ name)
    (signedAstray : pass.newName (name ++ storeSigExt) ≠ name ++ storeSigExt) :
    pass.newName (name ++ storeSigExt) = pass.newName name ++ storeSigExt := by
  cases pass with
  | canonicalize =>
      exact canonicalForm_signed artifact (form_of_astray astray) (form_of_astray signedAstray)
  | setArch arch =>
      by_cases known : arch ∈ gArches
      · rw [newName_known known] at astray signedAstray ⊢
        obtain ⟨archless, _, target⟩ := archTarget_of_ne astray
        obtain ⟨_, _, signedTarget⟩ := archTarget_of_ne signedAstray
        rw [signedTarget, target, (archName_signed known archless artifact).1]
      · exact absurd (newName_unknown known name) astray

/-- The name of the signature that goes with a new name is one a pass leaves alone. -/
theorem newName_signed_settled (artifact : storeIsSignature name = false)
    (astray : pass.newName name ≠ name) :
    pass.newName (pass.newName name ++ storeSigExt) = pass.newName name ++ storeSigExt := by
  cases pass with
  | canonicalize =>
      have form := form_of_astray astray
      have newArtifact : storeIsSignature (canonicalTarget name) = false := by
        rw [storeIsSignature_congr (canonicalForm_suffix form)]
        exact artifact
      by_contra signedAstray
      exact signedAstray
        (canonicalForm_signed newArtifact (canonicalForm_fixed form) (form_of_astray signedAstray))
  | setArch arch =>
      by_cases known : arch ∈ gArches
      · rw [newName_known known] at astray ⊢
        obtain ⟨archless, _, target⟩ := archTarget_of_ne astray
        rw [target]
        apply archTarget_of_arch
        rw [(archName_signed known archless artifact).2]
        rfl
      · exact absurd (newName_unknown known name) astray

end Names

/-! ## Who is renamed -/

/-- The listed entries a pass wants to have another name. -/
def collected (pass : MigrationPass) (files : Files) (names : List Bytes) : List Bytes :=
  names.filter fun name => (published files name).isSome && pass.newName name != name

/-- A listed entry gets its new name when that is free and no entry listed before it
wants the same one. -/
def Renames (pass : MigrationPass) (files : Files) (names : List Bytes) (name : Bytes) : Prop :=
  name ∈ pass.collected files names ∧ packagesOf files (pass.newName name) = none ∧
    ∀ other ∈ earlier names name, (published files other).isSome →
      pass.newName other ≠ pass.newName name

instance (pass : MigrationPass) (files : Files) (names : List Bytes) (name : Bytes) :
    Decidable (pass.Renames files names name) :=
  inferInstanceAs (Decidable (_ ∧ _))

/-- The entry a pass renames to a name. -/
def arrival (pass : MigrationPass) (files : Files) (names : List Bytes) (name : Bytes) :
    Option Bytes :=
  names.find? fun other => decide (pass.Renames files names other ∧ pass.newName other = name)

end MigrationPass

section Passes

variable {sys : Sys} {st : Store} {pass : MigrationPass} {name : Bytes}

theorem MigrationPass.mem_collected {files : Files} {names : List Bytes} :
    name ∈ pass.collected files names ↔
      name ∈ names ∧ (published files name).isSome ∧ pass.newName name ≠ name := by
  simp [collected]

/-- A pass that collects nothing relocates nothing. -/
theorem relocated_nothing {names : List Bytes} (nothing : pass.collected st.files names = [])
    (unchanged : (pass.run sys st).1 = st) :
    ∃ run place,
      Relocated pass.newName (packagesOf st.files) (pass.collected st.files names) run place ∧
        (pass.run sys st).1.files = st.files.withPackages run.entries := by
  refine ⟨_, _, nothing ▸ relocated_start _ _, ?_⟩
  rw [unchanged, withPackages_self]

/-- What a stamping collects and fits. -/
theorem MigrationPass.collected_setArch {arch : Bytes} (known : arch ∈ gArches) (files : Files)
    (names : List Bytes) :
    (setArch arch).collected files names =
      (archlessSet files names).filter fun name => !overlong arch name := by
  rw [archlessSet, List.filter_filter, collected, newName_known known]
  apply List.filter_congr
  intro name member
  rw [Bool.eq_iff_iff]
  have stampable := @mem_stampable arch known files names name
  simp only [archlessSet, List.filter_filter, List.mem_filter, member, true_and] at stampable
  rw [stampable]
  simp

/-- A pass whose renames succeed relocates what it collects, in the order of `readdir`. -/
theorem MigrationPass.run_relocated (pass : MigrationPass) (renames : sys.Renames)
    (distinct : (pass.listing sys st).Nodup) :
    ∃ run place,
      Relocated pass.newName (packagesOf st.files)
          (pass.collected st.files (pass.listing sys st)) run place ∧
        (pass.run sys st).1.files = st.files.withPackages run.entries := by
  cases walked : storeWalk sys st (pass.collect sys) .empty with
  | none =>
      have nothing : pass.listing sys st = [] := by rw [listing, walked]
      rw [nothing]
      apply relocated_nothing rfl
      cases pass with
      | canonicalize =>
          rw [collect] at walked
          rw [run, storeCanonicalize, walked]
      | setArch arch =>
          rw [collect] at walked
          rw [run, storeSetArch, walked]
          split <;> rfl
  | some filled =>
      cases yielded : sys.readdir .packages with
      | none =>
          rw [storeWalk, yielded] at walked
          contradiction
      | some names =>
          have own : pass.listing sys st = names := by
            rw [listing, walked, yielded]
            rfl
          rw [own] at distinct ⊢
          cases pass with
          | canonicalize =>
              obtain ⟨run, place, relocated, passed⟩ :=
                storeCanonicalize_relocated renames yielded walked distinct
              refine ⟨run, place, relocated, ?_⟩
              rw [MigrationPass.run, passed]
              rfl
          | setArch arch =>
              by_cases known : arch ∈ gArches
              · obtain ⟨run, place, relocated, passed⟩ :=
                  storeSetArch_relocated renames known yielded walked distinct
                rw [collected_setArch known, newName_known known]
                refine ⟨run, place, relocated, ?_⟩
                rw [MigrationPass.run, passed]
                rfl
              · apply relocated_nothing
                · simp [collected, newName, known]
                · simp [run, storeSetArch, known]

/-! ## What stands where afterwards -/

section After

variable {files : Files} {names : List Bytes} {run : Relocation Bytes Node} {place : Bytes → Bytes}

/-- The relocated entries are those a look at the store foretells. -/
theorem MigrationPass.renames_iff
    (relocated :
      Relocated pass.newName (packagesOf files) (pass.collected files names) run place)
    (name : Bytes) : pass.Renames files names name ↔ place name ≠ name := by
  have before : ∀ name ∈ pass.collected files names,
      earlier (pass.collected files names) name =
        (earlier names name).filter fun other =>
          (published files other).isSome && pass.newName other != other :=
    fun name member => earlier_filter (List.mem_filter.mp member).2
  constructor
  · rintro ⟨member, free, alone⟩
    apply (relocated.first name member).mpr
    refine ⟨free, fun other otherEarlier => ?_⟩
    rw [before name member] at otherEarlier
    obtain ⟨otherListed, candidate⟩ := List.mem_filter.mp otherEarlier
    have found : (published files other).isSome := by
      simp only [Bool.and_eq_true] at candidate
      exact candidate.1
    exact alone other otherListed found
  · intro moved
    have member := ((relocated.choice name).resolve_left moved).1
    obtain ⟨free, alone⟩ := (relocated.first name member).mp moved
    refine ⟨member, free, fun other otherEarlier found shared => ?_⟩
    -- An entry that keeps its name would stand at the name that is free.
    have astray : pass.newName other ≠ other := by
      intro own
      rw [← shared, own] at free
      rw [published_of_absent free] at found
      contradiction
    refine alone other ?_ shared
    rw [before name member, List.mem_filter]
    exact ⟨otherEarlier, by simp [found, astray]⟩

theorem MigrationPass.Renames.moved
    (relocated :
      Relocated pass.newName (packagesOf files) (pass.collected files names) run place)
    (renames : pass.Renames files names name) : place name = pass.newName name :=
  ((relocated.choice name).resolve_left ((renames_iff relocated name).mp renames)).2

theorem MigrationPass.Renames.found (renames : pass.Renames files names name) :
    (published files name).isSome :=
  (mem_collected.mp renames.1).2.1

theorem MigrationPass.Renames.astray (renames : pass.Renames files names name) :
    pass.newName name ≠ name :=
  (mem_collected.mp renames.1).2.2

theorem MigrationPass.arrival_some {other : Bytes}
    (arrived : pass.arrival files names name = some other) :
    pass.Renames files names other ∧ pass.newName other = name := by
  simpa using List.find?_some arrived

/-- Nothing is renamed to a name that is taken. -/
theorem MigrationPass.arrival_of_taken (taken : (packagesOf files name).isSome) :
    pass.arrival files names name = none := by
  cases arrived : pass.arrival files names name with
  | none => rfl
  | some other =>
      obtain ⟨renames, same⟩ := arrival_some arrived
      rw [← same, renames.2.1] at taken
      contradiction

/-- What is published at a name after a pass: nothing when it is renamed, else what was,
else what is renamed to it. -/
theorem MigrationPass.published_after
    (relocated :
      Relocated pass.newName (packagesOf files) (pass.collected files names) run place)
    (name : Bytes) :
    published (files.withPackages run.entries) name =
      if pass.Renames files names name then none
      else (published files name).or ((pass.arrival files names name).bind (published files)) := by
  have placed := relocated.placed
  have digests := digests_of_placed placed
  by_cases renames : pass.Renames files names name
  · rw [if_pos renames]
    apply published_of_absent
    exact relocated.vacated pass.newName_idem ((renames_iff relocated name).mp renames)
  · rw [if_neg renames]
    have stays : place name = name := by
      by_contra moved
      exact renames ((renames_iff relocated name).mpr moved)
    by_cases present : (packagesOf files name).isSome
    · have kept := digests name present
      rw [stays] at kept
      rw [kept, arrival_of_taken present, Option.bind_none, Option.or_none]
    · have absent : packagesOf files name = none := by simpa using present
      have unpublished : published files name = none := published_of_absent absent
      rw [unpublished, Option.none_or]
      cases arrived : pass.arrival files names name with
      | some other =>
          obtain ⟨otherRenames, same⟩ := arrival_some arrived
          have kept := digests other (published_mem otherRenames.found)
          rw [otherRenames.moved relocated, same] at kept
          rw [kept, Option.bind_some]
      | none =>
          rw [Option.bind_none]
          apply published_of_absent
          by_contra standing
          obtain ⟨origin, originPresent, same⟩ :=
            placed.covered name (Option.isSome_iff_ne_none.mpr standing)
          have moved : place origin ≠ origin := by
            intro own
            rw [← own, same, absent] at originPresent
            contradiction
          have originRenames := (renames_iff relocated origin).mpr moved
          have target := (originRenames.moved relocated).symm.trans same
          have missed := List.find?_eq_none.mp arrived origin
            (mem_collected.mp originRenames.1).1
          simp [originRenames, target] at missed

end After

/-! ## Pairs -/

/-- Where an entry is after a pass: at its name, or at the new one when it is gone from
there. -/
def MigrationPass.endName (pass : MigrationPass) (after : Files) (name : Bytes) : Bytes :=
  if (packagesOf after name).isSome then name else pass.newName name

/-- The signature beside an entry after a pass is the one that was beside it before. -/
def MigrationPass.SignatureFollows (pass : MigrationPass) (sys : Sys) (st : Store)
    (name : Bytes) : Prop :=
  let after := (pass.run sys st).1.files
  ∀ digest, published after (pass.endName after name ++ storeSigExt) = some digest ↔
    published st.files (name ++ storeSigExt) = some digest

/-- An entry that is renamed takes its signature along, or finds its digest, or as before
none, beside the new name; one that is not renamed keeps its signature and gets no other. -/
def MigrationPass.KeepsPair (pass : MigrationPass) (files : Files) (names : List Bytes)
    (name : Bytes) : Prop :=
  let signature := name ++ storeSigExt
  let counterpart := pass.newName name ++ storeSigExt
  if pass.Renames files names name then
    pass.Renames files names signature ∨
      published files signature = (published files counterpart).or
        ((pass.arrival files names counterpart).bind (published files))
  else ¬ pass.Renames files names signature ∧ pass.arrival files names signature = none

instance (pass : MigrationPass) (files : Files) (names : List Bytes) (name : Bytes) :
    Decidable (pass.KeepsPair files names name) :=
  inferInstanceAs (Decidable (if pass.Renames files names name then _ ∨ _ else _ ∧ _))

section Pairs

variable {files : Files} {names : List Bytes} {run : Relocation Bytes Node} {place : Bytes → Bytes}

/-- An entry is found where the pass placed it. -/
theorem MigrationPass.endName_eq
    (relocated :
      Relocated pass.newName (packagesOf files) (pass.collected files names) run place)
    (present : (packagesOf files name).isSome) :
    pass.endName (files.withPackages run.entries) name = place name := by
  unfold endName
  rw [packagesOf_withPackages]
  by_cases own : place name = name
  · have kept := relocated.placed.kept name present
    rw [own] at kept
    rw [kept, if_pos present, own]
  · rw [relocated.vacated pass.newName_idem own, if_neg (by simp),
      ((relocated.choice name).resolve_left own).2]

/-- An entry that stays has its signature kept exactly if that stays too and no other
comes. -/
theorem MigrationPass.kept_iff_of_stays
    (relocated :
      Relocated pass.newName (packagesOf files) (pass.collected files names) run place)
    (signature : Bytes) :
    published (files.withPackages run.entries) signature = published files signature ↔
      ¬ pass.Renames files names signature ∧ pass.arrival files names signature = none := by
  rw [published_after relocated]
  constructor
  · intro kept
    by_cases renames : pass.Renames files names signature
    · have found := renames.found
      rw [if_pos renames] at kept
      rw [← kept] at found
      contradiction
    · refine ⟨renames, ?_⟩
      rw [if_neg renames] at kept
      cases arrived : pass.arrival files names signature with
      | none => rfl
      | some other =>
          -- It comes to an empty name and is published there.
          obtain ⟨otherRenames, same⟩ := arrival_some arrived
          have absent : published files signature = none := by
            rw [← same]
            exact published_of_absent otherRenames.2.1
          have found := otherRenames.found
          rw [arrived, absent, Option.none_or, Option.bind_some] at kept
          rw [kept] at found
          contradiction
  · rintro ⟨stays, nothing⟩
    rw [if_neg stays, nothing, Option.bind_none, Option.or_none]

/-- An entry that is renamed has its signature kept exactly if that comes along or what
stands beside the new name has its digest. -/
theorem MigrationPass.kept_iff_of_renames
    (relocated :
      Relocated pass.newName (packagesOf files) (pass.collected files names) run place)
    (artifact : storeIsSignature name = false) (renames : pass.Renames files names name) :
    published (files.withPackages run.entries) (pass.newName name ++ storeSigExt) =
        published files (name ++ storeSigExt) ↔
      pass.Renames files names (name ++ storeSigExt) ∨
        published files (name ++ storeSigExt) =
          (published files (pass.newName name ++ storeSigExt)).or
            ((pass.arrival files names (pass.newName name ++ storeSigExt)).bind
              (published files)) := by
  have settled : ¬ pass.Renames files names (pass.newName name ++ storeSigExt) :=
    fun counterpart => counterpart.astray (pass.newName_signed_settled artifact renames.astray)
  have after := published_after relocated (pass.newName name ++ storeSigExt)
  rw [if_neg settled] at after
  rw [← after]
  constructor
  · exact fun kept => Or.inr kept.symm
  · rintro (together | same)
    · have place := together.moved relocated
      rw [pass.newName_signed artifact renames.astray together.astray] at place
      rw [← place]
      exact digests_of_placed relocated.placed _ (published_mem together.found)
    · exact same.symm

end Pairs

/-- A pass leaves every entry at its name or at the new one, each once, and the signature
beside one that is no signature is the one from before exactly if the store and the order
of `readdir` keep the pair. -/
theorem MigrationPass.signature_follows_iff (pass : MigrationPass) (renames : sys.Renames)
    (distinct : (pass.listing sys st).Nodup) :
    Placed (packagesOf st.files) (packagesOf (pass.run sys st).1.files)
        (pass.endName (pass.run sys st).1.files) ∧
      ∀ name, (published st.files name).isSome → storeIsSignature name = false →
        (pass.SignatureFollows sys st name ↔
          pass.KeepsPair st.files (pass.listing sys st) name) := by
  obtain ⟨run, place, relocated, passed⟩ :=
    @MigrationPass.run_relocated sys st pass renames distinct
  rw [passed]
  refine ⟨relocated.placed.congr fun name present => endName_eq relocated present, ?_⟩
  intro name found artifact
  have end_eq := endName_eq relocated (published_mem found)
  have follows : pass.SignatureFollows sys st name ↔
      published (st.files.withPackages run.entries) (place name ++ storeSigExt) =
        published st.files (name ++ storeSigExt) := by
    rw [Option.ext_iff, ← end_eq, SignatureFollows, passed]
  rw [follows, KeepsPair]
  by_cases renamed : pass.Renames st.files (pass.listing sys st) name
  · rw [if_pos renamed, renamed.moved relocated]
    exact kept_iff_of_renames relocated artifact renamed
  · have own : place name = name := by
      by_contra moved
      exact renamed ((renames_iff relocated name).mpr moved)
    rw [if_neg renamed, own]
    exact kept_iff_of_stays relocated _

end Passes

/-- An archive and its signature, both under an old spelling. -/
def oldPair : List (Bytes × Bytes) :=
  [(ascii "foo-1.0.tar.gz", List.replicate 64 97),
    (ascii "foo-1.0.tar.gz.minisig", List.replicate 64 98)]

/-- Nothing stands at their canonical names: they move together. -/
theorem oldPair_follows :
    MigrationPass.canonicalize.SignatureFollows (.holding oldPair []) (.holding oldPair [])
      (ascii "foo-1.0.tar.gz") := by
  have pairs := (@MigrationPass.signature_follows_iff (.holding oldPair []) (.holding oldPair [])
    .canonicalize (fun _ _ => rfl) (by decide +kernel)).2
  exact (pairs (ascii "foo-1.0.tar.gz") (by decide +kernel) (by decide +kernel)).mpr
    (by decide +kernel)

/-- The pair, and an archive published under the canonical name since. -/
def overtakenPair : List (Bytes × Bytes) :=
  oldPair ++ [(ascii "foo-1.0-1.tar.gz", List.replicate 64 99)]

/-- The old archive stays, and its signature is served beside the new one, which had
none. -/
theorem overtakenPair_crossed :
    let pass := MigrationPass.canonicalize
    let sys : Sys := .holding overtakenPair []
    let st : Store := .holding overtakenPair []
    let after := (pass.run sys st).1.files
    (pass.run sys st).2 = some ⟨false, 1, 1⟩ ∧
      storeIsSignature (ascii "foo-1.0-1.tar.gz") = false ∧
      published st.files (ascii "foo-1.0-1.tar.gz") = some (List.replicate 64 99) ∧
      published after (ascii "foo-1.0-1.tar.gz") = some (List.replicate 64 99) ∧
      published after (ascii "foo-1.0-1.tar.gz.minisig") = some (List.replicate 64 98) ∧
      ¬ pass.SignatureFollows sys st (ascii "foo-1.0-1.tar.gz") := by
  intro pass sys st after
  have crossed : published after (ascii "foo-1.0-1.tar.gz.minisig") =
      some (List.replicate 64 98) := by decide +kernel
  refine ⟨by decide +kernel, by decide +kernel, by decide +kernel, by decide +kernel, crossed, ?_⟩
  intro follows
  have own : pass.endName after (ascii "foo-1.0-1.tar.gz") ++ storeSigExt =
      ascii "foo-1.0-1.tar.gz.minisig" := by decide +kernel
  have signed := (follows (List.replicate 64 98)).mp (own ▸ crossed)
  have unsigned : published st.files (ascii "foo-1.0-1.tar.gz" ++ storeSigExt) = none := by
    decide +kernel
  exact Option.some_ne_none _ (signed.symm.trans unsigned)

end CixCache
