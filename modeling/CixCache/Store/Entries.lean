import CixCache.Lib.Sorting
import CixCache.Store.Collect

/-!
Contract: the published entries as a document reads them.

Owns: `StoreEntry`, `storeList` and the order of names; `DocEnv`, the environment
a document is put together in; and what `storeList` returns in terms of the
entries a walk reports.

Does not own: any document.
-/

namespace CixCache

open CixCache.Lib

/-! ## Functions of the source -/

/-- `struct store_entry` without its rank; -1 is the size of a blob that is not
there. -/
structure StoreEntry where
  name : Bytes
  digest : Bytes
  size : Int
  mtime : Int
deriving DecidableEq, Repr

/-- STORE_SHA256_MAX -/
def storeSha256Max : Nat := 65

/-- The arrays a document is put together in. -/
inductive Scratch where
  | rows (installerTier : Bool)
  | live
  | ids
  | reps
  | idx
deriving DecidableEq, Repr

/-- The environment of a document: the store's calls, the sorting routine of the
C library, and the arrays `malloc` and `calloc` yield. -/
structure DocEnv where
  sys : Sys
  routine : Qsort
  allocates : Scratch → Bool

/-- An environment that lists these names. -/
def DocEnv.listing (names : List Bytes) : DocEnv :=
  ⟨Sys.succeeding fun _ => some names, .insertion, fun _ => true⟩

structure EntrySet where
  v : List StoreEntry
  cap : Nat
deriving DecidableEq, Repr

/-- The `off_t` of a walk, which starts as -1. -/
def offT : Option Nat → Int
  | some size => size
  | none => -1

def collectEntry (sys : Sys) : WalkCallback EntrySet :=
  fun set name digest size mtime =>
    let e : StoreEntry :=
      ⟨snprintf storeNameMax name, snprintf storeSha256Max digest, offT size, mtime⟩
    if set.v.length = set.cap then
      if sys.allows (.realloc (grownCap set.cap)) then some ⟨set.v ++ [e], grownCap set.cap⟩
      else none
    else some ⟨set.v ++ [e], set.cap⟩

def storeList (sys : Sys) (st : Store) : Option (List StoreEntry) :=
  (storeWalk sys st (collectEntry sys) ⟨[], 0⟩).map EntrySet.v

def storeStemOf (name : Bytes) : Bytes :=
  name.take (if storeNameMax ≤ stemLen name then storeNameMax - 1 else stemLen name)

def storeCmpName (x y : StoreEntry) : Ordering := strcmp x.name y.name

/-- By stem, then by whole name. -/
def stemThenName (x y : StoreEntry) : Ordering :=
  (strcmp (storeStemOf x.name) (storeStemOf y.name)).then (strcmp x.name y.name)

/-! ## What is listed -/

/-- The entry a walk reports, as it is copied. -/
def entryOf (sys : Sys) (st : Store) (listed : Bytes × Bytes) : StoreEntry :=
  ⟨listed.1, listed.2, offT (storeBlobExists st listed.2), sys.mtime (.packages listed.1)⟩

def storedEntries (sys : Sys) (st : Store) (names : List Bytes) : List StoreEntry :=
  (listed st.files names).map (entryOf sys st)

/-- The sizes of the blobs that are there. -/
def presentBytes (entries : List StoreEntry) : Int :=
  (entries.map fun e => if e.size > 0 then e.size else 0).sum

/-- Every array can be had. -/
structure DocEnv.Allocates (env : DocEnv) : Prop where
  grows : ∀ slots, env.sys.allows (.realloc slots) = true
  scratch : ∀ array, env.allocates array = true

section Listing

variable {sys : Sys} {st : Store} {names : List Bytes}

theorem collectEntry_some {set grown : EntrySet} {name digest : Bytes} {size : Option Nat}
    {mtime : Int} (valid : storeNameIsValid name = true) (hex : storeDigestIsValid digest = true)
    (pushed : collectEntry sys set name digest size mtime = some grown) :
    grown.v = set.v ++ [⟨name, digest, offT size, mtime⟩] := by
  have whole : snprintf storeNameMax name = name :=
    snprintf_of_lt (storeNameIsValid.length_lt valid)
  have digestWhole : snprintf storeSha256Max digest = digest := by
    apply snprintf_of_lt
    rw [storeDigestIsValid_length hex]
    decide
  unfold collectEntry at pushed
  rw [whole, digestWhole] at pushed
  dsimp only at pushed
  split at pushed
  next =>
    split at pushed
    next => rw [← Option.some.inj pushed]
    next => contradiction
  next => rw [← Option.some.inj pushed]

theorem collectEntry_isSome (grows : ∀ slots, sys.allows (.realloc slots) = true)
    (set : EntrySet) (name digest : Bytes) (size : Option Nat) (mtime : Int) :
    (collectEntry sys set name digest size mtime).isSome := by
  unfold collectEntry
  dsimp only
  split
  next =>
    rw [if_pos (grows _)]
    rfl
  next => rfl

/-- The walk appends the copies of what it reports. -/
private theorem collected_entries {entries : List (Bytes × Bytes)} {set filled : EntrySet}
    (inside : ∀ entry ∈ entries, entry ∈ listed st.files names)
    (done : entries.foldlM (fun ctx entry => collectEntry sys ctx entry.1 entry.2
      (storeBlobExists st entry.2) (sys.mtime (.packages entry.1))) set = some filled) :
    filled.v = set.v ++ entries.map (entryOf sys st) := by
  induction entries generalizing set with
  | nil =>
      rw [← Option.some.inj done]
      simp
  | cons entry rest inductionHypothesis =>
      rw [List.foldlM_cons] at done
      obtain ⟨grown, pushed, later⟩ := Option.bind_eq_some_iff.mp done
      have member := mem_listed.mp (inside entry List.mem_cons_self)
      rw [inductionHypothesis (fun other further => inside other (List.mem_cons_of_mem _ further))
          later,
        collectEntry_some member.2.1 (published_valid member.2.2) pushed]
      simp [entryOf]

/-- A list that is returned holds the entries of the directory, in its order. -/
theorem storeList_some {ents : List StoreEntry} (returned : storeList sys st = some ents) :
    ∃ names, sys.readdir .packages = some names ∧ ents = storedEntries sys st names := by
  obtain ⟨filled, walked, rfl⟩ := Option.map_eq_some_iff.mp returned
  unfold storeWalk at walked
  split at walked
  next => contradiction
  next names opened =>
    refine ⟨names, opened, ?_⟩
    rw [walkEntries_eq] at walked
    simpa [storedEntries] using collected_entries (fun _ member => member) walked

theorem storeList_eq (grows : ∀ slots, sys.allows (.realloc slots) = true)
    (opened : sys.readdir .packages = some names) :
    storeList sys st = some (storedEntries sys st names) := by
  have walked := storeWalk_isSome st (collectEntry_isSome grows) (by rw [opened]; rfl)
    (⟨[], 0⟩ : EntrySet)
  obtain ⟨ents, returned⟩ := Option.isSome_iff_exists.mp
    (show (storeList sys st).isSome by rw [storeList, Option.isSome_map]; exact walked)
  obtain ⟨others, same, rfl⟩ := storeList_some returned
  rw [Option.some.inj (opened.symm.trans same)]
  exact returned

theorem mem_storedEntries {e : StoreEntry} :
    e ∈ storedEntries sys st names ↔
      e.name ∈ names ∧ storeNameIsValid e.name = true ∧
        published st.files e.name = some e.digest ∧ e = entryOf sys st (e.name, e.digest) := by
  rw [storedEntries, List.mem_map]
  constructor
  · intro found
    obtain ⟨⟨name, digest⟩, member, rfl⟩ := found
    have facts := mem_listed.mp member
    exact ⟨facts.1, facts.2.1, facts.2.2, rfl⟩
  · intro facts
    exact ⟨(e.name, e.digest), mem_listed.mpr ⟨facts.1, facts.2.1, facts.2.2.1⟩,
      facts.2.2.2.symm⟩

/-- The name tells listed entries apart. -/
theorem storedEntries_ext {a b : StoreEntry} (left : a ∈ storedEntries sys st names)
    (right : b ∈ storedEntries sys st names) (same : a.name = b.name) : a = b := by
  have leftFacts := mem_storedEntries.mp left
  have rightFacts := mem_storedEntries.mp right
  have digests : a.digest = b.digest := by
    have published := leftFacts.2.2.1
    rw [same, rightFacts.2.2.1] at published
    exact (Option.some.inj published).symm
  rw [leftFacts.2.2.2, rightFacts.2.2.2, same, digests]

theorem storedEntries_nodup (distinct : names.Nodup) :
    ((storedEntries sys st names).map StoreEntry.name).Nodup := by
  have kept : (storedEntries sys st names).map StoreEntry.name =
      (names.filter storeNameIsValid).filter fun name => (published st.files name).isSome := by
    unfold storedEntries listed publishedAmong
    generalize names.filter storeNameIsValid = valid
    rw [List.map_map, List.map_filterMap, ← List.filterMap_eq_filter]
    apply List.filterMap_congr
    intro name _
    cases found : published st.files name <;> simp [entryOf, Option.guard, found]
  rw [kept]
  exact (distinct.filter _).filter _

/-- Another order of the directory gives the same entries in another order. -/
theorem storedEntries_perm {other : Sys} {others : List Bytes} (sameMtime : sys.mtime = other.mtime)
    (reordered : names.Perm others) :
    (storedEntries sys st names).Perm (storedEntries other st others) := by
  have sameEntry : entryOf sys st = entryOf other st := by
    funext listed
    rw [entryOf, entryOf, sameMtime]
  rw [storedEntries, storedEntries, sameEntry]
  exact ((reordered.filter _).filterMap _).map _

end Listing

instance : Std.TransCmp storeCmpName := transCmp_on StoreEntry.name

instance : Std.TransCmp stemThenName := by
  have stems : Std.TransCmp fun x y : StoreEntry =>
      strcmp (storeStemOf x.name) (storeStemOf y.name) :=
    @transCmp_on _ strcmp _ _ fun e : StoreEntry => storeStemOf e.name
  have names : Std.TransCmp fun x y : StoreEntry => strcmp x.name y.name :=
    transCmp_on StoreEntry.name
  show Std.TransCmp (compareLex (fun x y : StoreEntry =>
    strcmp (storeStemOf x.name) (storeStemOf y.name)) fun x y => strcmp x.name y.name)
  infer_instance

/-- That order is an order of the stems. -/
theorem stemThenName_stems {x y : StoreEntry} (ordered : (stemThenName x y).isLE = true) :
    (strcmp (storeStemOf x.name) (storeStemOf y.name)).isLE = true := by
  unfold stemThenName at ordered
  cases stems : strcmp (storeStemOf x.name) (storeStemOf y.name) with
  | lt => rfl
  | eq => rfl
  | gt =>
      rw [stems] at ordered
      exact ordered

theorem eq_of_storeCmpName {x y : StoreEntry} (equal : storeCmpName x y = .eq) :
    x.name = y.name := by
  unfold storeCmpName at equal
  exact Std.LawfulEqCmp.eq_of_compare equal

theorem eq_of_stemThenName {x y : StoreEntry} (equal : stemThenName x y = .eq) :
    x.name = y.name := by
  unfold stemThenName at equal
  rw [Ordering.then_eq_eq] at equal
  exact Std.LawfulEqCmp.eq_of_compare equal.2

end CixCache
