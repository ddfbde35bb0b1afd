import CixCache.JsonWriter
import CixCache.Lib.Grouping
import CixCache.Store.Version

/-!
Contract: the listing of /api/v1/artifacts.

Owns: `apiArtifacts` as a sequence of writer calls, with the identities it builds,
ranks and sorts; `Listing`, the document as a tree; that the calls write that
tree; and that `buildIdentities` finds the groups of one stem.

Does not own: which entries there are, or what resolution answers.
-/

namespace CixCache

open CixCache.Lib

/-! ## Functions of the source -/

/-- `struct identity` -/
structure Identity where
  stem : Bytes
  first : Nat
  n : Nat
  bytes : Int
  modified : Int
  versionRank : Nat
deriving DecidableEq, Repr

def cmpByStem : StoreEntry → StoreEntry → Ordering := stemThenName

def cmpIdentityNewest (x y : Identity) : Ordering :=
  if x.modified ≠ y.modified then if x.modified < y.modified then .gt else .lt
  else strcmp x.stem y.stem

/-- The counts of an identity, with one more file. -/
def Identity.addFile (identity : Identity) (e : StoreEntry) : Identity :=
  { identity with
    n := identity.n + 1
    bytes := if e.size > 0 then identity.bytes + e.size else identity.bytes
    modified := if e.mtime > identity.modified then e.mtime else identity.modified }

/-- One turn of the loop of `build_identities`. -/
def buildStep (out : List Identity) (i : Nat) (e : StoreEntry) : List Identity :=
  let stem := storeStemOf e.name
  let fresh : Identity := ⟨snprintf storeNameMax stem, i, 0, 0, 0, 0⟩
  match out.getLast? with
  | none => [fresh.addFile e]
  | some last =>
      if last.stem = stem then out.dropLast ++ [last.addFile e] else out ++ [fresh.addFile e]

def buildIdentities (ents : List StoreEntry) : List Identity :=
  ents.zipIdx.foldl (fun out row => buildStep out row.2 row.1) []

def rankIdentities (env : DocEnv) (ids : List Identity) : List Identity :=
  if env.allocates .reps then
    let reps := ids.map fun identity => snprintf storeNameMax identity.stem
    List.zipWith (fun (identity : Identity) rank => { identity with versionRank := rank }) ids
      (storeRankVersions env reps)
  -- Ranking is a nicety; leaving them equal is not a failure.
  else ids.map fun identity => { identity with versionRank := 0 }

/-- `has` of `write_formats`. -/
def hasSignature (st : Store) (name : Bytes) : Bool :=
  match storeSignatureName name with
  | none => false
  | some sig =>
      match storeResolve st sig with
      | .ok _ => true
      | .error _ => false

/-- One element of the array. -/
def writeFormat (policy : SignaturePolicy) (st : Store) (w : JsonWriter) (e : StoreEntry) :
    JsonWriter :=
  let has := hasSignature st e.name
  let w := jwStr (jwKey (jwObjOpen w) (ascii "format")) ((storeSuffixOf e.name).getD [])
  let w := jwStr (jwKey w (ascii "name")) e.name
  let w :=
    if storeNeedsSignature policy e.name || has then jwBool (jwKey w (ascii "signed")) has else w
  let w := jwStr (jwKey w (ascii "sha256")) e.digest
  let w := jwInt (jwKey w (ascii "bytes")) e.size
  jwObjClose (jwInt (jwKey w (ascii "modified")) e.mtime)

def writeFormats (policy : SignaturePolicy) (st : Store) (ents : List StoreEntry) (first n : Nat)
    (w : JsonWriter) : JsonWriter :=
  let w := jwArrOpen (jwKey w (ascii "formats"))
  jwArrClose (((ents.drop first).take n).foldl (writeFormat policy st) w)

def writeIdentity (policy : SignaturePolicy) (st : Store) (ents : List StoreEntry) (w : JsonWriter)
    (identity : Identity) : JsonWriter :=
  let split := storeSplitDisplay identity.stem
  let w := jwStr (jwKey (jwObjOpen w) (ascii "stem")) identity.stem
  let w := jwStr (jwKey w (ascii "artifact")) split.name
  let w := jwStr (jwKey w (ascii "version")) split.version
  let w := jwInt (jwKey w (ascii "release")) split.release
  let w := jwStr (jwKey w (ascii "arch")) split.arch
  let w := jwInt (jwKey w (ascii "version_rank")) identity.versionRank
  let w := writeFormats policy st ents identity.first identity.n w
  let w := jwInt (jwKey w (ascii "bytes")) identity.bytes
  jwObjClose (jwInt (jwKey w (ascii "modified")) identity.modified)

/-- `live` and `ids` as they are written; empty without entries or arrays. -/
def liveAndIds (env : DocEnv) (st : Store) : List StoreEntry × List Identity :=
  let ents := (storeList env.sys st).getD []
  if ents.length > 0 ∧ env.allocates .live ∧ env.allocates .ids then
    -- A signature is not a row of its own.
    let live := env.routine.sort cmpByStem (ents.filter fun e => !storeIsSignature e.name)
    let ids := rankIdentities env (buildIdentities live)
    (live, env.routine.sort cmpIdentityNewest ids)
  else ([], [])

def apiArtifacts (env : DocEnv) (policy : SignaturePolicy) (st : Store) (w : JsonWriter) :
    JsonWriter :=
  let (live, ids) := liveAndIds env st
  let w := jwArrOpen (jwKey (jwObjOpen w) (ascii "artifacts"))
  let w := jwArrClose (ids.foldl (writeIdentity policy st live) w)
  let bytes := ids.foldl (fun total identity => total + identity.bytes) 0
  let w := jwInt (jwKey w (ascii "count")) ids.length
  let w := jwInt (jwKey w (ascii "files")) live.length
  jwObjClose (jwInt (jwKey w (ascii "bytes")) bytes)

/-! ## The document as a tree -/

structure ListingFormat where
  format : Bytes
  name : Bytes
  signed : Option Bool
  sha256 : Bytes
  bytes : Int
  modified : Int
deriving DecidableEq, Repr

structure ListingRecord where
  stem : Bytes
  display : SplitDisplay
  versionRank : Nat
  formats : List ListingFormat
  bytes : Int
  modified : Int
deriving DecidableEq, Repr

structure Listing where
  artifacts : List ListingRecord
  count : Nat
  files : Nat
  bytes : Int
deriving DecidableEq, Repr

def ListingFormat.json (format : ListingFormat) : JsonValue :=
  .object ([(ascii "format", .string format.format)] ++ ([(ascii "name", .string format.name)] ++
    (format.signed.toList.map (fun signed => (ascii "signed", .boolean signed)) ++
      ([(ascii "sha256", .string format.sha256)] ++
        [(ascii "bytes", .number (printedInt format.bytes)),
          (ascii "modified", .number (printedInt format.modified))]))))

def ListingRecord.json (record : ListingRecord) : JsonValue :=
  .object [(ascii "stem", .string record.stem), (ascii "artifact", .string record.display.name),
    (ascii "version", .string record.display.version),
    (ascii "release", .number (printedInt record.display.release)),
    (ascii "arch", .string record.display.arch),
    (ascii "version_rank", .number (printedInt record.versionRank)),
    (ascii "formats", .array (record.formats.map ListingFormat.json)),
    (ascii "bytes", .number (printedInt record.bytes)),
    (ascii "modified", .number (printedInt record.modified))]

def Listing.json (listing : Listing) : JsonValue :=
  .object [(ascii "artifacts", .array (listing.artifacts.map ListingRecord.json)),
    (ascii "count", .number (printedInt listing.count)),
    (ascii "files", .number (printedInt listing.files)),
    (ascii "bytes", .number (printedInt listing.bytes))]

def listingFormat (policy : SignaturePolicy) (st : Store) (e : StoreEntry) : ListingFormat where
  format := (storeSuffixOf e.name).getD []
  name := e.name
  signed :=
    if storeNeedsSignature policy e.name || hasSignature st e.name then
      some (hasSignature st e.name)
    else none
  sha256 := e.digest
  bytes := e.size
  modified := e.mtime

def listingRecord (policy : SignaturePolicy) (st : Store) (live : List StoreEntry)
    (identity : Identity) : ListingRecord where
  stem := identity.stem
  display := storeSplitDisplay identity.stem
  versionRank := identity.versionRank
  formats := ((live.drop identity.first).take identity.n).map (listingFormat policy st)
  bytes := identity.bytes
  modified := identity.modified

def listingOf (env : DocEnv) (policy : SignaturePolicy) (st : Store) : Listing :=
  let (live, ids) := liveAndIds env st
  ⟨ids.map (listingRecord policy st live), ids.length, live.length,
    ids.foldl (fun total identity => total + identity.bytes) 0⟩

/-! ## The calls write the tree -/

section Refinement

variable {policy : SignaturePolicy} {st : Store}

theorem writes_listing_format (policy : SignaturePolicy) (st : Store) (e : StoreEntry) :
    WritesValue (writeFormat policy st · e) (listingFormat policy st e).json := by
  have signed : WritesMembers
      (fun w => if storeNeedsSignature policy e.name || hasSignature st e.name then
        jwBool (jwKey w (ascii "signed")) (hasSignature st e.name) else w)
      ((listingFormat policy st e).signed.toList.map
        fun signed => (ascii "signed", .boolean signed)) := by
    unfold listingFormat
    dsimp only
    split
    next => exact (writes_bool _).member _
    next => exact WritesMembers.nil
  exact (WritesMembers.append ((writes_str _).member _)
    (WritesMembers.append ((writes_str _).member _)
      (signed.append (WritesMembers.append ((writes_str _).member _)
        (WritesMembers.append ((writes_int _).member _) ((writes_int _).member _)))))).object

theorem writes_listing_formats (policy : SignaturePolicy) (st : Store) (ents : List StoreEntry)
    (first n : Nat) :
    WritesMembers (writeFormats policy st ents first n) [(ascii "formats",
      .array ((((ents.drop first).take n).map (listingFormat policy st)).map
        ListingFormat.json))] := by
  rw [List.map_map]
  exact (WritesItems.foldl (writes_listing_format policy st) _).array.member _

theorem writes_identity (policy : SignaturePolicy) (st : Store) (ents : List StoreEntry)
    (identity : Identity) :
    WritesValue (writeIdentity policy st ents · identity)
      (listingRecord policy st ents identity).json :=
  (WritesMembers.append ((writes_str _).member _)
    (WritesMembers.append ((writes_str _).member _)
      (WritesMembers.append ((writes_str _).member _)
        (WritesMembers.append ((writes_int _).member _)
          (WritesMembers.append ((writes_str _).member _)
            (WritesMembers.append ((writes_int _).member _)
              (WritesMembers.append (writes_listing_formats policy st ents _ _)
                (WritesMembers.append ((writes_int _).member _)
                  ((writes_int _).member _))))))))).object

/-- The calls of `api_artifacts` write the tree. -/
theorem writes_listing (env : DocEnv) (policy : SignaturePolicy) (st : Store) :
    WritesValue (apiArtifacts env policy st) (listingOf env policy st).json := by
  have records : WritesItems
      (fun w => (liveAndIds env st).2.foldl (writeIdentity policy st (liveAndIds env st).1) w)
      (((liveAndIds env st).2.map (listingRecord policy st (liveAndIds env st).1)).map
        ListingRecord.json) := by
    rw [List.map_map]
    exact WritesItems.foldl (writes_identity policy st _) _
  exact (WritesMembers.append (records.array.member _)
    (WritesMembers.append ((writes_int _).member _)
      (WritesMembers.append ((writes_int _).member _) ((writes_int _).member _)))).object

end Refinement

/-! ## The identities are the groups of one stem -/

def lastModified (entries : List StoreEntry) : Int :=
  entries.foldl (fun latest e => if e.mtime > latest then e.mtime else latest) 0

/-- The identity of a group whose files start at an index. -/
def identityOf (first : Nat) (group : Bytes × List StoreEntry) : Identity :=
  ⟨group.1, first, group.2.length, presentBytes group.2, lastModified group.2, 0⟩

def identitiesOf : Nat → List (Bytes × List StoreEntry) → List Identity
  | _, [] => []
  | first, group :: rest => identityOf first group :: identitiesOf (first + group.2.length) rest

theorem storeStemOf_length_lt (name : Bytes) : (storeStemOf name).length < storeNameMax := by
  unfold storeStemOf
  rw [List.length_take]
  split
  next => exact lt_of_le_of_lt (min_le_left _ _) (by decide)
  next short => omega

theorem snprintf_stem (name : Bytes) : snprintf storeNameMax (storeStemOf name) = storeStemOf name :=
  snprintf_of_lt (storeStemOf_length_lt name)

theorem identityOf_addFile (first : Nat) (stem : Bytes) (members : List StoreEntry)
    (e : StoreEntry) :
    (identityOf first (stem, members)).addFile e = identityOf first (stem, members ++ [e]) := by
  unfold identityOf Identity.addFile presentBytes lastModified
  dsimp only
  rw [List.length_append, List.map_append, List.sum_append, List.foldl_append]
  by_cases present : e.size > 0
  · simp [present]
  · simp [present]

theorem identitiesOf_append (first : Nat) (front : List (Bytes × List StoreEntry))
    (last : Bytes × List StoreEntry) :
    identitiesOf first (front ++ [last]) =
      identitiesOf first front ++ [identityOf (first + (front.flatMap Prod.snd).length) last] := by
  induction front generalizing first with
  | nil => rfl
  | cons group rest inductionHypothesis =>
      rw [List.cons_append, identitiesOf, identitiesOf, inductionHypothesis, List.cons_append,
        List.flatMap_cons, List.length_append, Nat.add_assoc]

theorem buildIdentities_append (ents : List StoreEntry) (e : StoreEntry) :
    buildIdentities (ents ++ [e]) = buildStep (buildIdentities ents) ents.length e := by
  unfold buildIdentities
  rw [List.zipIdx_append, List.foldl_append]
  simp

/-- A turn of the loop puts a file into the last group, or starts one. -/
theorem buildStep_groups {front : List StoreEntry} {groups : List (Bytes × List StoreEntry)}
    (grouping : Grouping (fun e => storeStemOf e.name) front groups) (e : StoreEntry) :
    ∃ next, Grouping (fun e => storeStemOf e.name) (front ++ [e]) next ∧
      buildStep (identitiesOf 0 groups) front.length e = identitiesOf 0 next := by
  have fresh : (⟨snprintf storeNameMax (storeStemOf e.name), front.length, 0, 0, 0, 0⟩ :
      Identity).addFile e = identityOf front.length (storeStemOf e.name, [e]) := by
    rw [snprintf_stem]
    exact identityOf_addFile front.length (storeStemOf e.name) [] e
  unfold buildStep
  dsimp only
  rw [fresh]
  rcases List.eq_nil_or_concat' groups with rfl | ⟨before, last, rfl⟩
  · refine ⟨[(storeStemOf e.name, [e])], grouping.push (by simp), ?_⟩
    rw [← grouping.covers]
    rfl
  · have latest : (identitiesOf 0 (before ++ [last])).getLast? =
        some (identityOf (before.flatMap Prod.snd).length last) := by
      rw [identitiesOf_append, List.getLast?_append, Nat.zero_add]
      rfl
    rw [latest]
    dsimp only
    split
    next same =>
      refine ⟨before ++ [(last.1, last.2 ++ [e])], grouping.join same, ?_⟩
      rw [identitiesOf_append, List.dropLast_concat, identitiesOf_append, Nat.zero_add,
        show last = (last.1, last.2) from rfl, identityOf_addFile]
    next other =>
      refine ⟨before ++ [last] ++ [(storeStemOf e.name, [e])], grouping.push ?_, ?_⟩
      · intro group isLast same
        rw [List.getLast?_concat] at isLast
        rw [← Option.some.inj isLast] at same
        exact other same
      · rw [identitiesOf_append 0 (before ++ [last]), Nat.zero_add, grouping.covers]

/-- `build_identities` makes one identity of each group of neighbours of one stem. -/
theorem buildIdentities_groups (ents : List StoreEntry) :
    ∃ groups, Grouping (fun e => storeStemOf e.name) ents groups ∧
      buildIdentities ents = identitiesOf 0 groups := by
  induction ents using List.reverseRecOn with
  | nil => exact ⟨[], grouping_nil _, rfl⟩
  | append_singleton front e inductionHypothesis =>
      obtain ⟨groups, grouping, built⟩ := inductionHypothesis
      rw [buildIdentities_append, built]
      exact buildStep_groups grouping e

/-- The files of an identity are those of its group. -/
theorem identitiesOf_files (before : List StoreEntry) (groups : List (Bytes × List StoreEntry)) :
    (identitiesOf before.length groups).map (fun identity => (identity.stem,
      ((before ++ groups.flatMap Prod.snd).drop identity.first).take identity.n)) = groups := by
  induction groups generalizing before with
  | nil => rfl
  | cons group rest inductionHypothesis =>
      rw [identitiesOf, List.map_cons, List.flatMap_cons]
      have later := inductionHypothesis (before ++ group.2)
      rw [List.length_append, List.append_assoc] at later
      rw [later]
      simp [identityOf]

theorem identitiesOf_stems (first : Nat) (groups : List (Bytes × List StoreEntry)) :
    (identitiesOf first groups).map Identity.stem = groups.map Prod.fst := by
  induction groups generalizing first with
  | nil => rfl
  | cons group rest inductionHypothesis =>
      rw [identitiesOf, List.map_cons, List.map_cons, inductionHypothesis]
      rfl

theorem identitiesOf_bytes (first : Nat) (groups : List (Bytes × List StoreEntry)) :
    ((identitiesOf first groups).map Identity.bytes).sum =
      presentBytes (groups.flatMap Prod.snd) := by
  induction groups generalizing first with
  | nil => rfl
  | cons group rest inductionHypothesis =>
      rw [identitiesOf, List.map_cons, List.sum_cons, inductionHypothesis, List.flatMap_cons]
      simp [presentBytes, identityOf]

theorem foldl_bytes (ids : List Identity) :
    ids.foldl (fun total identity => total + identity.bytes) 0 =
      (ids.map Identity.bytes).sum := by
  rw [← List.foldl_map, ← List.sum_eq_foldl]

/-! ## Ranking and sorting keep the identities -/

theorem storeRankVersions_length (env : DocEnv) (names : List Bytes) :
    (storeRankVersions env names).length = names.length := by
  unfold storeRankVersions
  split <;> simp

private theorem zipWith_map_left {α β γ : Type} (f : α → β → α) (g : α → γ)
    (same : ∀ a b, g (f a b) = g a) {left : List α} {right : List β}
    (length : right.length = left.length) : (List.zipWith f left right).map g = left.map g := by
  induction left generalizing right with
  | nil => rfl
  | cons a rest inductionHypothesis =>
      cases right with
      | nil => simp at length
      | cons b later =>
          rw [List.zipWith_cons_cons, List.map_cons, List.map_cons, same,
            inductionHypothesis (by simpa using length)]

/-- Ranking changes nothing else of an identity. -/
theorem rankIdentities_map (env : DocEnv) {γ : Type} (read : Identity → γ)
    (rankless : ∀ identity rank, read { identity with versionRank := rank } = read identity)
    (ids : List Identity) : (rankIdentities env ids).map read = ids.map read := by
  unfold rankIdentities
  split
  next =>
    apply zipWith_map_left _ _ rankless
    rw [storeRankVersions_length, List.length_map]
  next =>
    rw [List.map_map]
    exact List.map_congr_left fun identity _ => rankless identity 0

instance : Std.TransCmp cmpIdentityNewest := by
  have newest : Std.TransCmp fun x y : Identity => compare (-x.modified) (-y.modified) :=
    transCmp_on fun identity : Identity => -identity.modified
  have stems : Std.TransCmp fun x y : Identity => strcmp x.stem y.stem :=
    @transCmp_on _ strcmp _ _ Identity.stem
  have same : cmpIdentityNewest = compareLex
      (fun x y : Identity => compare (-x.modified) (-y.modified))
      (fun x y => strcmp x.stem y.stem) := by
    funext x y
    unfold cmpIdentityNewest compareLex
    dsimp only
    rw [Int.compare_eq_ite_lt]
    split
    next other =>
      split
      next older => rw [if_neg (by omega), if_pos (by omega)]; rfl
      next newer => rw [if_pos (by omega)]; rfl
    next equal =>
      rw [if_neg (by omega), if_neg (by omega)]
      rfl
  rw [same]
  infer_instance

theorem eq_of_cmpIdentityNewest {x y : Identity} (equal : cmpIdentityNewest x y = .eq) :
    x.stem = y.stem := by
  unfold cmpIdentityNewest at equal
  split at equal
  next => split at equal <;> contradiction
  next => exact Std.LawfulEqCmp.eq_of_compare equal

/-- With the arrays at hand the files are the entries that are no signatures, and
the identities are theirs. -/
theorem liveAndIds_eq {env : DocEnv} (allocates : env.Allocates) (st : Store) :
    liveAndIds env st =
      let live := env.routine.sort stemThenName
        (((storeList env.sys st).getD []).filter fun e => !storeIsSignature e.name)
      (live, env.routine.sort cmpIdentityNewest (rankIdentities env (buildIdentities live))) := by
  unfold liveAndIds cmpByStem
  dsimp only
  split
  next => rfl
  next refused =>
    have empty : (storeList env.sys st).getD [] = [] := by
      apply List.eq_nil_of_length_eq_zero
      by_contra entries
      exact refused ⟨by omega, allocates.scratch .live, allocates.scratch .ids⟩
    have nothing : (rankIdentities env (buildIdentities [])).map Identity.stem = [] :=
      rankIdentities_map env Identity.stem (fun _ _ => rfl) []
    rw [empty, List.filter_nil, Qsort.sort_nil, List.map_eq_nil_iff.mp nothing, Qsort.sort_nil]

end CixCache
