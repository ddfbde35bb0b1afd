import Mathlib.Data.List.TakeWhile
import CixCache.JsonWriter
import CixCache.Lib.Grouping
import CixCache.Store.Entries

/-!
Contract: MANIFEST.json.

Owns: `manifestWriteJson` as a sequence of writer calls; `Manifest`, the document
as a tree of records and formats; that the calls write that tree; and that a
section groups its rows by stem, with a record for each stem.

Does not own: which entries there are, or what resolution answers.
-/

namespace CixCache

open CixCache.Lib

/-! ## Functions of the source -/

/-- STORE_DIR -/
def storeDir : Bytes := ascii "packages"

def emitKey (w : JsonWriter) (name : Bytes) : JsonWriter := jwKey w (storeStemOf name)

/-- `"%s/%s"` in a buffer of STORE_NAME_MAX + 16. -/
def fileText (name : Bytes) : Bytes := snprintf (storeNameMax + 16) (storeDir ++ slash :: name)

def emitBody (w : JsonWriter) (name digest : Bytes) (size : Int) : JsonWriter :=
  let w := jwStr (jwKey w (ascii "file")) (fileText name)
  let w := jwStr (jwKey w (ascii "sha256")) digest
  jwInt (jwKey w (ascii "bytes")) size

def emitSignature (st : Store) (w : JsonWriter) (name : Bytes) : JsonWriter :=
  match storeSignatureName name with
  | none => w
  | some sig =>
      match storeResolve st sig with
      -- absent: say nothing rather than assert a file that is not there
      | .error _ => w
      | .ok digest =>
          let size : Int := ((storeBlobExists st digest).getD 0 : Nat)
          let w := jwObjOpen (jwKey w (ascii "signature"))
          jwObjClose (emitBody w sig digest size)

def emitFormat (st : Store) (w : JsonWriter) (e : StoreEntry) : JsonWriter :=
  let w := jwStr (jwKey (jwObjOpen w) (ascii "format")) ((storeSuffixOf e.name).getD [])
  let w := emitBody w e.name e.digest e.size
  jwObjClose (emitSignature st w e.name)

def cmpStemThenName : StoreEntry → StoreEntry → Ordering := stemThenName

/-- The `while (i < count)` loop; every turn consumes a row. -/
def writeRows (st : Store) : Nat → List StoreEntry → JsonWriter → JsonWriter
  | 0, _, w => w
  | _, [], w => w
  | fuel + 1, first :: rest, w =>
      let sameStem := fun e : StoreEntry => storeStemOf e.name == storeStemOf first.name
      let w := jwArrOpen (jwKey (jwObjOpen (emitKey w first.name)) (ascii "formats"))
      let w := (first :: rest.takeWhile sameStem).foldl (emitFormat st) w
      writeRows st fuel (rest.dropWhile sameStem) (jwObjClose (jwArrClose w))

/-- The rows of a tier, in the order they are written. -/
def sectionRows (env : DocEnv) (ents : List StoreEntry) (installerTier : Bool) : List StoreEntry :=
  let rows := ents.filter fun e =>
    !storeIsSignature e.name && storeIsInstaller e.name == installerTier
  if rows.length > 0 then env.routine.sort cmpStemThenName rows else rows

def writeSection (env : DocEnv) (st : Store) (w : JsonWriter) (ents : List StoreEntry)
    (installerTier : Bool) : JsonWriter :=
  let w := jwObjOpen w
  if ents.length > 0 ∧ env.allocates (.rows installerTier) then
    let rows := sectionRows env ents installerTier
    jwObjClose (writeRows st rows.length rows w)
  else jwObjClose w

/-- The entries by name. -/
def manifestEntries (env : DocEnv) (st : Store) : List StoreEntry :=
  let ents := (storeList env.sys st).getD []
  if ents.length > 0 then env.routine.sort storeCmpName ents else ents

def manifestWriteJson (env : DocEnv) (st : Store) (w : JsonWriter) : JsonWriter :=
  let ents := manifestEntries env st
  let w := writeSection env st (jwKey (jwObjOpen w) (ascii "packages")) ents false
  let w := writeSection env st (jwKey w (ascii "installers")) ents true
  jwObjClose w

/-! ## The document as a tree -/

/-- A file as it is described: where it is, its digest, its size. -/
structure FileBody where
  file : Bytes
  sha256 : Bytes
  bytes : Int
deriving DecidableEq, Repr

structure ManifestFormat where
  format : Bytes
  body : FileBody
  signature : Option FileBody
deriving DecidableEq, Repr

structure ManifestRecord where
  key : Bytes
  formats : List ManifestFormat
deriving DecidableEq, Repr

structure Manifest where
  packages : List ManifestRecord
  installers : List ManifestRecord
deriving DecidableEq, Repr

def FileBody.members (body : FileBody) : List (Bytes × JsonValue) :=
  [(ascii "file", .string body.file), (ascii "sha256", .string body.sha256),
    (ascii "bytes", .number (printedInt body.bytes))]

def ManifestFormat.json (format : ManifestFormat) : JsonValue :=
  .object ([(ascii "format", .string format.format)] ++ (format.body.members ++
    format.signature.toList.map fun body => (ascii "signature", .object body.members)))

def ManifestRecord.member (record : ManifestRecord) : Bytes × JsonValue :=
  (record.key, .object [(ascii "formats", .array (record.formats.map ManifestFormat.json))])

def Manifest.json (manifest : Manifest) : JsonValue :=
  .object [(ascii "packages", .object (manifest.packages.map ManifestRecord.member)),
    (ascii "installers", .object (manifest.installers.map ManifestRecord.member))]

def fileBody (name digest : Bytes) (size : Int) : FileBody := ⟨fileText name, digest, size⟩

def signatureBody (st : Store) (name : Bytes) : Option FileBody :=
  (storeSignatureName name).bind fun sig =>
    match storeResolve st sig with
    | .error _ => none
    | .ok digest => some (fileBody sig digest ((storeBlobExists st digest).getD 0 : Nat))

def manifestFormat (st : Store) (e : StoreEntry) : ManifestFormat :=
  ⟨(storeSuffixOf e.name).getD [], fileBody e.name e.digest e.size, signatureBody st e.name⟩

/-- Neighbours of one stem together. -/
def stemGroups : Nat → List StoreEntry → List (Bytes × List StoreEntry)
  | 0, _ => []
  | _, [] => []
  | fuel + 1, first :: rest =>
      let sameStem := fun e : StoreEntry => storeStemOf e.name == storeStemOf first.name
      (storeStemOf first.name, first :: rest.takeWhile sameStem) ::
        stemGroups fuel (rest.dropWhile sameStem)

def manifestRecord (st : Store) (group : Bytes × List StoreEntry) : ManifestRecord :=
  ⟨group.1, group.2.map (manifestFormat st)⟩

def manifestSection (env : DocEnv) (st : Store) (ents : List StoreEntry) (installerTier : Bool) :
    List ManifestRecord :=
  if ents.length > 0 ∧ env.allocates (.rows installerTier) then
    let rows := sectionRows env ents installerTier
    (stemGroups rows.length rows).map (manifestRecord st)
  else []

def manifestOf (env : DocEnv) (st : Store) : Manifest :=
  let ents := manifestEntries env st
  ⟨manifestSection env st ents false, manifestSection env st ents true⟩

theorem fileText_of_lt {name : Bytes} (fits : name.length < storeNameMax) :
    fileText name = storeDir ++ slash :: name := by
  apply snprintf_of_lt
  have dir : storeDir.length = 8 := by decide
  rw [List.length_append, List.length_cons, dir]
  omega

/-! ## The calls write the tree -/

section Refinement

variable {env : DocEnv} {st : Store}

theorem writes_body (name digest : Bytes) (size : Int) :
    WritesMembers (emitBody · name digest size) (fileBody name digest size).members :=
  WritesMembers.append ((writes_str _).member _)
    (WritesMembers.append ((writes_str _).member _) ((writes_int _).member _))

theorem writes_signature (name : Bytes) :
    WritesMembers (emitSignature st · name)
      ((signatureBody st name).toList.map fun body => (ascii "signature", .object body.members)) := by
  unfold emitSignature signatureBody
  cases storeSignatureName name with
  | none => exact WritesMembers.nil
  | some sig =>
      dsimp only [Option.bind_some]
      cases storeResolve st sig with
      | error error => exact WritesMembers.nil
      | ok digest => exact (writes_body sig digest _).object.member _

theorem writes_format (e : StoreEntry) :
    WritesValue (emitFormat st · e) (manifestFormat st e).json :=
  (WritesMembers.append ((writes_str _).member _)
    (WritesMembers.append (writes_body _ _ _) (writes_signature e.name))).object

theorem writes_formats (st : Store) (rows : List StoreEntry) :
    WritesItems (fun w => rows.foldl (emitFormat st) w)
      ((rows.map (manifestFormat st)).map ManifestFormat.json) := by
  rw [List.map_map]
  exact WritesItems.foldl writes_format rows

theorem writes_rows (fuel : Nat) (rows : List StoreEntry) :
    WritesMembers (writeRows st fuel rows)
      (((stemGroups fuel rows).map (manifestRecord st)).map ManifestRecord.member) := by
  induction fuel generalizing rows with
  | zero => exact WritesMembers.nil
  | succ fuel inductionHypothesis =>
      cases rows with
      | nil => exact WritesMembers.nil
      | cons first rest =>
          have record := ((writes_formats st (first ::
            rest.takeWhile fun e => storeStemOf e.name == storeStemOf first.name)).array.member
              (ascii "formats")).object.member (storeStemOf first.name)
          exact record.append (inductionHypothesis
            (rest.dropWhile fun e => storeStemOf e.name == storeStemOf first.name))

theorem writes_section (ents : List StoreEntry) (installerTier : Bool) :
    WritesValue (writeSection env st · ents installerTier)
      (.object ((manifestSection env st ents installerTier).map ManifestRecord.member)) := by
  unfold writeSection manifestSection
  split
  next => exact (writes_rows _ _).object
  next => exact WritesMembers.nil.object

/-- The calls of `manifest_write_json` write the tree. -/
theorem writes_manifest (env : DocEnv) (st : Store) :
    WritesValue (manifestWriteJson env st) (manifestOf env st).json :=
  (WritesMembers.append ((writes_section _ _).member _) ((writes_section _ _).member _)).object

end Refinement

/-! ## The groups of a section -/

section Groups

/-- The loop of `write_section` groups its rows by stem. -/
theorem stemGroups_grouping {fuel : Nat} {rows : List StoreEntry} (enough : rows.length ≤ fuel) :
    Grouping (fun e => storeStemOf e.name) rows (stemGroups fuel rows) := by
  induction fuel generalizing rows with
  | zero =>
      rw [List.eq_nil_of_length_eq_zero (Nat.le_zero.mp enough)]
      exact grouping_nil _
  | succ fuel inductionHypothesis =>
      cases rows with
      | nil => exact grouping_nil _
      | cons first rest =>
          let sameStem := fun e : StoreEntry => storeStemOf e.name == storeStemOf first.name
          have shorter : (rest.dropWhile sameStem).length ≤ fuel := by
            have suffix := (List.dropWhile_suffix sameStem (l := rest)).length_le
            simp only [List.length_cons] at enough
            omega
          have members : ∀ e ∈ rest.takeWhile sameStem,
              storeStemOf e.name = storeStemOf first.name := by
            intro e member
            have same : sameStem e = true := List.mem_takeWhile_imp member
            exact eq_of_beq same
          have ends : ∀ e, (rest.dropWhile sameStem).head? = some e →
              storeStemOf e.name ≠ storeStemOf first.name := by
            intro e isHead same
            have stops := List.head?_dropWhile_not sameStem rest
            rw [isHead] at stops
            simp [sameStem, same] at stops
          have stretched := (inductionHypothesis shorter).stretch members ends
          rw [List.cons_append, List.takeWhile_append_dropWhile] at stretched
          exact stretched

variable {env : DocEnv} {st : Store}

theorem sectionRows_eq (env : DocEnv) (ents : List StoreEntry) (installerTier : Bool) :
    sectionRows env ents installerTier = env.routine.sort stemThenName (ents.filter fun e =>
      !storeIsSignature e.name && storeIsInstaller e.name == installerTier) := by
  unfold sectionRows cmpStemThenName
  dsimp only
  split
  next => rfl
  next empty =>
    have nothing := List.eq_nil_of_length_eq_zero (Nat.eq_zero_of_not_pos empty)
    rw [nothing, Qsort.sort_nil]

theorem manifestEntries_eq (env : DocEnv) (st : Store) :
    manifestEntries env st = env.routine.sort storeCmpName ((storeList env.sys st).getD []) := by
  unfold manifestEntries
  dsimp only
  split
  next => rfl
  next empty =>
    have nothing := List.eq_nil_of_length_eq_zero (Nat.eq_zero_of_not_pos empty)
    rw [nothing, Qsort.sort_nil]

/-- With the arrays at hand a section has a record for each group of its rows. -/
theorem manifestSection_eq (allocates : env.Allocates) (ents : List StoreEntry)
    (installerTier : Bool) :
    manifestSection env st ents installerTier =
      (stemGroups (sectionRows env ents installerTier).length
        (sectionRows env ents installerTier)).map (manifestRecord st) := by
  unfold manifestSection
  split
  next => rfl
  next refused =>
    have empty : ents = [] := by
      apply List.eq_nil_of_length_eq_zero
      have scratch := allocates.scratch (.rows installerTier)
      by_contra entries
      exact refused ⟨by omega, scratch⟩
    rw [empty]
    rfl

end Groups

end CixCache
