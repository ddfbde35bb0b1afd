import CixCache.Json
import CixCache.Store.Publish

/-!
Contract: the migration of a static export into the store.

Owns: the manifest lookup, `importEntry` (one turn of the `readdir` loop) and
`importerRun`; and what one turn can do to the tree: adopt a regular file whose
bytes were hashed, then publish the digest under the file's name.

Does not own: reading and parsing MANIFEST.json.
-/

namespace CixCache

/-! ## The manifest -/

/-- The digest an entry records for one exact `<tier>/<name>` path. -/
def entryDigestFor (entry : Option JsonValue) (file : Bytes) : Option Bytes :=
  match jsonAsString (jsonObjectGet entry (ascii "file")) with
  | some entryFile =>
      if entryFile = file then jsonAsString (jsonObjectGet entry (ascii "sha256")) else none
  | none => none

/-- A flat entry, or one element of `formats` for each encoding. -/
def identityDigestFor (entry : JsonValue) (file : Bytes) : Option Bytes :=
  match entry with
  | .object _ =>
      match jsonObjectGet (some entry) (ascii "formats") with
      | some (.array items) => items.findSome? fun item => entryDigestFor (some item) file
      | _ => entryDigestFor (some entry) file
  | _ => none

def sectionDigestFor (sec : Option JsonValue) (file : Bytes) : Option Bytes :=
  match sec with
  | some (.object members) => members.findSome? fun member => identityDigestFor member.2 file
  | _ => none

/-- Both sections are searched, packages first. -/
def manifestDigestFor (root : Option JsonValue) (file : Bytes) : Option Bytes :=
  match root with
  | none => none
  | some _ =>
      match sectionDigestFor (jsonObjectGet root (ascii "packages")) file with
      | some digest => some digest
      | none => sectionDigestFor (jsonObjectGet root (ascii "installers")) file

/-! ## The import -/

structure ImportStats where
  imported : Nat
  already : Nat
  mismatched : Nat
  failed : Nat
  bytes : Nat
deriving DecidableEq, Repr

/-- Whether the manifest records another digest for a file. -/
def manifestDisagrees (manifest : Option JsonValue) (file digest : Bytes) : Bool :=
  match manifestDigestFor manifest file with
  | some recorded => !strcasecmpEq recorded digest
  | none => false

/-- The end of a turn: adopt the file as a blob and publish its name. -/
def importFile (sys : Sys) (st : Store) (name digest : Bytes) (path : Path)
    (stats : ImportStats) : Store × ImportStats :=
  match storeBlobAdopt sys st path digest with
  | (adopted, .error _) => (adopted, { stats with failed := stats.failed + 1 })
  | (adopted, .ok ()) =>
      match storePublish sys adopted name digest with
      | (done, .error _) => (done, { stats with failed := stats.failed + 1 })
      | (done, .ok ()) => (done, { stats with imported := stats.imported + 1 })

/-- One turn of the `readdir` loop of `import_dir`. -/
def importEntry (sha : Sha256sum) (sys : Sys) (manifest : Option JsonValue) (dryRun : Bool)
    (name : Bytes) (st : Store) (stats : ImportStats) : Store × ImportStats :=
  if name.head? = some dot then (st, stats)
  else if storeNameIsValid name = false then (st, stats)
  else
    match rawEntryPath st.root name with
    | none => (st, stats)
    | some path =>
        match st.files path with
        | none => (st, stats)
        -- Already imported: a re-run resumes rather than redoes.
        | some (.symlink _) => (st, { stats with already := stats.already + 1 })
        | some (.regular content) =>
            match storeHashFile sha sys st path with
            | none => (st, { stats with failed := stats.failed + 1 })
            | some digest =>
                if manifestDisagrees manifest (ascii "packages/" ++ name) digest then
                  (st, { stats with mismatched := stats.mismatched + 1 })
                else
                  let counted := { stats with bytes := stats.bytes + content.length }
                  if dryRun then (st, { counted with imported := counted.imported + 1 })
                  else importFile sys st name digest path counted

def importDir (sha : Sha256sum) (sys : Sys) (manifest : Option JsonValue) (dryRun : Bool) :
    List Bytes → Store → ImportStats → Store × ImportStats
  | [], st, stats => (st, stats)
  | name :: rest, st, stats =>
      let (next, counted) := importEntry sha sys manifest dryRun name st stats
      importDir sha sys manifest dryRun rest next counted

/-- The store, the counters and whether the exit status is 0. -/
def importerRun (sha : Sha256sum) (sys : Sys) (st : Store) (manifest : Option JsonValue)
    (dryRun : Bool) : Store × ImportStats × Bool :=
  match sys.readdir .packages with
  | none => (st, ⟨0, 0, 0, 0, 0⟩, true)
  | some names =>
      let (done, stats) := importDir sha sys manifest dryRun names st ⟨0, 0, 0, 0, 0⟩
      (done, stats, stats.failed = 0 ∧ stats.mismatched = 0)

/-! ## What an import does -/

section Imports

variable {sha : Sha256sum} {sys : Sys} {manifest : Option JsonValue} {dryRun : Bool}

/-- A turn keeps the tree, or adopts the regular file of that name under the
digest of its bytes and publishes it. -/
theorem importEntry_induct {name : Bytes} {st : Store} {stats : ImportStats}
    {motive : Files → Prop} (start : motive st.files)
    (adopt : ∀ content, st.files (.packages name) = some (.regular content) →
      motive (storeBlobAdopt sys st (.packages name) (sha.digest content)).1.files)
    (publish : ∀ (adopted : Store) digest, motive adopted.files →
      motive (storePublish sys adopted name digest).1.files) :
    motive (importEntry sha sys manifest dryRun name st stats).1.files := by
  unfold importEntry
  split
  next => exact start
  next =>
    split
    next => exact start
    next invalid =>
      have valid : storeNameIsValid name = true := by simpa using invalid
      rw [rawEntryPath_of_lt _ (storeNameIsValid.length_lt valid)]
      dsimp only
      split
      next => exact start
      next => exact start
      next content present =>
        split
        next => exact start
        next digest hashed =>
          split
          next => exact start
          next =>
            split
            next => exact start
            next =>
              have same : digest = sha.digest content := by
                unfold storeHashFile at hashed
                split at hashed
                next =>
                  rw [stat_of_regular present] at hashed
                  dsimp only at hashed
                  split at hashed
                  next => exact (Option.some.inj hashed).symm
                  next => contradiction
                next => contradiction
              have adopted := adopt content present
              rw [← same] at adopted
              unfold importFile
              split
              next after error split =>
                rw [split] at adopted
                exact adopted
              next after split =>
                rw [split] at adopted
                have published := publish after digest adopted
                split
                next done error split =>
                  rw [split] at published
                  exact published
                next done split =>
                  rw [split] at published
                  exact published

theorem importDir_induct {names : List Bytes} {st : Store} {stats : ImportStats}
    {motive : Files → Prop} (start : motive st.files)
    (adopt : ∀ (before : Store) name content, motive before.files →
      before.files (.packages name) = some (.regular content) →
        motive (storeBlobAdopt sys before (.packages name) (sha.digest content)).1.files)
    (publish : ∀ (adopted : Store) name digest, motive adopted.files →
      motive (storePublish sys adopted name digest).1.files) :
    motive (importDir sha sys manifest dryRun names st stats).1.files := by
  induction names generalizing st stats with
  | nil => exact start
  | cons name rest inductionHypothesis =>
      unfold importDir
      apply inductionHypothesis
      apply importEntry_induct start
      · intro content present
        exact adopt st name content start present
      · intro adopted digest holds
        exact publish adopted name digest holds

/-- A property of the tree that every turn keeps survives the whole import. -/
theorem importerRun_induct {st : Store} {motive : Files → Prop} (start : motive st.files)
    (adopt : ∀ (before : Store) name content, motive before.files →
      before.files (.packages name) = some (.regular content) →
        motive (storeBlobAdopt sys before (.packages name) (sha.digest content)).1.files)
    (publish : ∀ (adopted : Store) name digest, motive adopted.files →
      motive (storePublish sys adopted name digest).1.files) :
    motive (importerRun sha sys st manifest dryRun).1.files := by
  unfold importerRun
  split
  next => exact start
  next => exact importDir_induct start adopt publish

end Imports

end CixCache
