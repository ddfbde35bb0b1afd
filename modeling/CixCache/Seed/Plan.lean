import Mathlib.Logic.Function.Basic
import CixCache.Lib.Selection
import CixCache.Name.Suffix

/-!
Contract: the plan that two listings are turned into when one store seeds another.

Owns: the listed identities with the defaults of the fields that may be missing;
`namesOf`, `remoteHave` and `seedPlan`, the rows that upload, skip and delete.

Does not own: which identities a plan should delete.
-/

namespace CixCache

open CixCache.Lib

/-! ## Listings -/

/-- A format of an identity. -/
structure ListedFormat where
  name : Bytes
  sha256 : Option Bytes
  signed : Bool
  bytes : Option Nat
deriving DecidableEq, Repr

/-- An identity of a listing. -/
structure ListedIdentity where
  artifact : Option Bytes
  arch : Option Bytes
  stem : Bytes
  versionRank : Option Int
  modified : Option Int
  formats : List ListedFormat
deriving DecidableEq, Repr

/-- The artifact and the architecture of a group. -/
abbrev GroupKey := Bytes × Bytes

namespace ListedIdentity

def artifactOf (ident : ListedIdentity) : Bytes := ident.artifact.getD []

/-- An empty architecture is a missing one. -/
def archOf (ident : ListedIdentity) : Bytes :=
  match ident.arch with
  | none => ascii "-"
  | some arch => if arch = [] then ascii "-" else arch

def key (ident : ListedIdentity) : GroupKey := (ident.artifactOf, ident.archOf)

def rank (ident : ListedIdentity) : Int := ident.versionRank.getD 0

def time (ident : ListedIdentity) : Int := ident.modified.getD 0

end ListedIdentity

/-- A file of an identity, and whether it is a signature. -/
structure SeedFile where
  name : Bytes
  sha256 : Option Bytes
  size : Nat
  isSig : Bool
deriving DecidableEq, Repr

/-- `names_of` -/
def namesOf (ident : ListedIdentity) : List SeedFile :=
  ident.formats.flatMap fun fmt =>
    (if fmt.signed then [⟨fmt.name ++ storeSigExt, none, 0, true⟩] else []) ++
      [⟨fmt.name, fmt.sha256, fmt.bytes.getD 0, false⟩]

/-! ## Plans -/

/-- The options of a run: `since` is 0 without a date, `exclude` the search for a pattern. -/
structure SeedOptions where
  keep : Nat
  since : Int
  exclude : Option (Bytes → Bool)
  prune : Bool

def SeedOptions.excludes (opts : SeedOptions) (artifact : Bytes) : Bool :=
  match opts.exclude with
  | none => false
  | some search => search artifact

inductive SeedAction where
  | conflict
  | skip
  | push
  | prune
  | excluded
deriving DecidableEq, Repr

/-- A row of the plan; a digest or a stem that is missing is empty. -/
structure PlanRow where
  action : SeedAction
  name : Bytes
  sha256 : Bytes
  size : Nat
  artifact : Bytes
  stem : Bytes
deriving DecidableEq, Repr

/-- The names on the target, with the digests listed. -/
abbrev RemoteHave := Bytes → Option (Option Bytes)

/-- `setdefault(name, None)` -/
def RemoteHave.setDefault (known : RemoteHave) (name : Bytes) : RemoteHave :=
  if (known name).isSome then known else Function.update known name (some none)

/-- A format of the target; the digest of a signature is not listed. -/
def haveFormat (known : RemoteHave) (fmt : ListedFormat) : RemoteHave :=
  let named : RemoteHave := Function.update known fmt.name (some fmt.sha256)
  if fmt.signed then named.setDefault (fmt.name ++ storeSigExt) else named

def haveIdentity (known : RemoteHave) (ident : ListedIdentity) : RemoteHave :=
  ident.formats.foldl haveFormat known

def remoteHave (remote : List ListedIdentity) : RemoteHave :=
  remote.foldl haveIdentity fun _ => none

/-- Two digests that are both there and not the same. -/
def conflicts (sha held : Option Bytes) : Bool :=
  match sha, held with
  | some sha, some held => decide (sha ≠ []) && decide (held ≠ []) && decide (held ≠ sha)
  | _, _ => false

def seedAction (known : RemoteHave) (file : SeedFile) : SeedAction :=
  match known file.name with
  | none => .push
  | some held => if conflicts file.sha256 held then .conflict else .skip

/-- The row for a file of an identity that is selected. -/
def fileRow (known : RemoteHave) (key : GroupKey) (ident : ListedIdentity) (file : SeedFile) :
    PlanRow :=
  ⟨seedAction known file, file.name, file.sha256.getD [], file.size, key.1, ident.stem⟩

/-- The newest of a group, then those that are recent enough. -/
def chosenOf (opts : SeedOptions) (members : List ListedIdentity) : List ListedIdentity :=
  let chosen := greatest ListedIdentity.rank opts.keep members
  if opts.since ≠ 0 then chosen.filter fun ident => decide (opts.since ≤ ident.time) else chosen

/-- The groups of what is not excluded. -/
def sourceGroups (opts : SeedOptions) (source : List ListedIdentity) :
    List (GroupKey × List ListedIdentity) :=
  grouped ListedIdentity.key (source.filter fun ident => !opts.excludes ident.artifactOf)

/-- What is selected of a group; a group without a selection is skipped. -/
def selectionOf (opts : SeedOptions) (source : List ListedIdentity) (key : GroupKey) :
    Option (List ListedIdentity) :=
  let chosen := chosenOf opts (membersOf (sourceGroups opts source) key)
  if chosen = [] then none else some chosen

def keyLe (a b : GroupKey) : Prop := ((compare a.1 b.1).then (compare a.2 b.2)).isLE = true

instance : DecidableRel keyLe := fun _ _ => inferInstanceAs (Decidable (_ = true))

/-- The selections under their keys, in the order of the keys. -/
def selections (opts : SeedOptions) (source : List ListedIdentity) :
    List (GroupKey × List ListedIdentity) :=
  (((sourceGroups opts source).map Prod.fst).insertionSort keyLe).filterMap fun key =>
    (selectionOf opts source key).map fun chosen => (key, chosen)

/-- The rows that delete what a target identity is made of. -/
def identityPruneRows (ident : ListedIdentity) : List PlanRow :=
  ident.formats.flatMap fun fmt =>
    (if fmt.signed then
      [⟨.prune, fmt.name ++ storeSigExt, [], 0, ident.artifactOf, ident.stem⟩]
    else []) ++
      [⟨.prune, fmt.name, [], fmt.bytes.getD 0, ident.artifactOf, ident.stem⟩]

/-- Every identity of the target in a group with a selection, unless its stem is selected. -/
def pruneRows (opts : SeedOptions) (selected : List (GroupKey × List ListedIdentity))
    (remote : List ListedIdentity) : List PlanRow :=
  if opts.prune then
    remote.flatMap fun ident =>
      match selected.lookup ident.key with
      | none => []
      | some chosen =>
          if ident.stem ∈ chosen.map ListedIdentity.stem then [] else identityPruneRows ident
  else []

/-- The artifacts left behind. -/
def excludedRows (opts : SeedOptions) (source : List ListedIdentity) : List PlanRow :=
  let excluded := (source.map ListedIdentity.artifactOf).filter opts.excludes
  (excluded.eraseDups.insertionSort fun a b => (compare a b).isLE).map fun name =>
    ⟨.excluded, name, ascii "-", 0, name, ascii "-"⟩

/-- `main`, as far as the rows. -/
def seedPlan (opts : SeedOptions) (source target : List ListedIdentity) : List PlanRow :=
  (selections opts source).flatMap (fun group =>
      group.2.flatMap fun ident =>
        (namesOf ident).map (fileRow (remoteHave target) group.1 ident)) ++
    pruneRows opts (selections opts source) target ++ excludedRows opts source

/-! ## What the target has -/

/-- The files of an identity. -/
def filesOf (ident : ListedIdentity) : List Bytes := (namesOf ident).map SeedFile.name

theorem setDefault_kept {known : RemoteHave} {name : Bytes} (present : (known name).isSome)
    (other : Bytes) : (known.setDefault other name).isSome := by
  unfold RemoteHave.setDefault
  split
  next => exact present
  next missing =>
    by_cases same : name = other
    · rw [same] at present
      contradiction
    · rwa [Function.update_of_ne same]

theorem setDefault_present (known : RemoteHave) (name : Bytes) :
    (known.setDefault name name).isSome := by
  unfold RemoteHave.setDefault
  split
  next present => exact present
  next =>
    rw [Function.update_self]
    rfl

/-- What is known once the name of a format is. -/
theorem haveFormat_of_named {known : RemoteHave} {fmt : ListedFormat} {name : Bytes}
    (named : (Function.update known fmt.name (some fmt.sha256) name).isSome) :
    (haveFormat known fmt name).isSome := by
  unfold haveFormat
  split
  next => exact setDefault_kept named _
  next => exact named

theorem haveFormat_kept {known : RemoteHave} {name : Bytes} (present : (known name).isSome)
    (fmt : ListedFormat) : (haveFormat known fmt name).isSome := by
  apply haveFormat_of_named
  by_cases same : name = fmt.name
  · rw [same, Function.update_self]
    rfl
  · rwa [Function.update_of_ne same]

theorem haveFormat_name (known : RemoteHave) (fmt : ListedFormat) :
    (haveFormat known fmt fmt.name).isSome := by
  apply haveFormat_of_named
  rw [Function.update_self]
  rfl

theorem haveFormat_signature (known : RemoteHave) {fmt : ListedFormat} (signed : fmt.signed = true) :
    (haveFormat known fmt (fmt.name ++ storeSigExt)).isSome := by
  unfold haveFormat
  rw [if_pos signed]
  exact setDefault_present _ _

/-- A name that is known stays known. -/
theorem foldl_haveFormat_kept {known : RemoteHave} {name : Bytes} (present : (known name).isSome)
    (formats : List ListedFormat) : (formats.foldl haveFormat known name).isSome := by
  induction formats generalizing known with
  | nil => exact present
  | cons fmt rest inductionHypothesis => exact inductionHypothesis (haveFormat_kept present fmt)

theorem mem_filesOf {ident : ListedIdentity} {name : Bytes} :
    name ∈ filesOf ident ↔ ∃ fmt ∈ ident.formats,
      fmt.signed = true ∧ name = fmt.name ++ storeSigExt ∨ name = fmt.name := by
  unfold filesOf namesOf
  simp only [List.map_flatMap, List.mem_flatMap, List.map_append, List.map_cons, List.map_nil,
    List.mem_append, List.mem_singleton]
  apply exists_congr
  intro fmt
  cases fmt.signed <;> simp

theorem haveIdentity_files (known : RemoteHave) {ident : ListedIdentity} {name : Bytes}
    (file : name ∈ filesOf ident) : (haveIdentity known ident name).isSome := by
  obtain ⟨fmt, member, named⟩ := mem_filesOf.mp file
  unfold haveIdentity
  generalize ident.formats = formats at member
  induction formats generalizing known with
  | nil => contradiction
  | cons first rest inductionHypothesis =>
      rw [List.foldl_cons]
      rcases List.mem_cons.mp member with here | later
      · subst here
        apply foldl_haveFormat_kept
        rcases named with ⟨signed, rfl⟩ | rfl
        · exact haveFormat_signature known signed
        · exact haveFormat_name known fmt
      · exact inductionHypothesis _ later

theorem foldl_haveIdentity_kept {known : RemoteHave} {name : Bytes}
    (present : (known name).isSome) (idents : List ListedIdentity) :
    (idents.foldl haveIdentity known name).isSome := by
  induction idents generalizing known with
  | nil => exact present
  | cons next rest inductionHypothesis =>
      exact inductionHypothesis (foldl_haveFormat_kept present next.formats)

/-- Every file of a target identity is known. -/
theorem remoteHave_files {remote : List ListedIdentity} {ident : ListedIdentity} {name : Bytes}
    (member : ident ∈ remote) (file : name ∈ filesOf ident) :
    (remoteHave remote name).isSome := by
  obtain ⟨before, after, rfl⟩ := List.append_of_mem member
  unfold remoteHave
  rw [List.foldl_append, List.foldl_cons]
  have present := haveIdentity_files (before.foldl haveIdentity fun _ => none) file
  exact foldl_haveIdentity_kept present after

end CixCache
