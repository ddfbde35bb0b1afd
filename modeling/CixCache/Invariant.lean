import CixCache.Lib.Run
import CixCache.Importer
import CixCache.Server.Upload
import CixCache.Store.Collect
import CixCache.Store.Migrate

/-!
Contract: what holds of the store after any sequence of completed operations.

Owns: `StoreInvariant` (canonical entries, no dangling entry, blobs that hash
to their names), one preservation lemma for each operation that writes the
tree, and the machine `storeStep` whose runs are the sequences of operations.

The operations keep the invariant whatever calls fail; only the collector needs
its listing of packages/ to be complete.

Does not own: operations that are interrupted by another process.
-/

namespace CixCache

open CixCache.Lib

/-- Entries are canonical and lead to a blob; blobs hash to their names. -/
structure StoreInvariant (sha : Sha256sum) (files : Files) : Prop where
  entries : ∀ name target, packagesOf files name = some (.symlink target) →
    canonicalForm name = some name ∧ ∃ digest, target = blobTarget digest ∧
      storeDigestIsValid digest = true ∧ (blobsOf files digest).isSome
  blobs : ∀ name node, blobsOf files name = some node →
    ∃ content, node = .regular content ∧ sha.digest content = name

/-- A root as `store_init` makes it, with the files of a static export. -/
structure Fresh (files : Files) : Prop where
  packages : ∀ name node, packagesOf files name = some node → ∃ content, node = .regular content
  blobs : ∀ name, blobsOf files name = none

namespace StoreInvariant

variable {sha : Sha256sum} {files after : Files}

theorem of_fresh (fresh : Fresh files) : StoreInvariant sha files where
  entries := by
    intro name target present
    obtain ⟨content, same⟩ := fresh.packages name _ present
    contradiction
  blobs := by
    intro name node present
    rw [fresh.blobs name] at present
    contradiction

/-- What an entry answers is a blob that is present. -/
theorem published (holds : StoreInvariant sha files) {name digest : Bytes}
    (found : published files name = some digest) :
    canonicalForm name = some name ∧ packagesOf files name = some (.symlink (blobTarget digest)) ∧
      ∃ content, blobsOf files digest = some (.regular content) := by
  have resolved := published_eq_some.mp found
  cases present : packagesOf files name with
  | none =>
      rw [resolvePath_notFound.mpr present] at resolved
      contradiction
  | some node =>
      cases node with
      | regular content =>
          unfold resolvePath at resolved
          rw [show files (.packages name) = some (.regular content) from present] at resolved
          contradiction
      | symlink target =>
          obtain ⟨canonical, other, rfl, valid, there⟩ := holds.entries name target present
          rw [resolvePath_blobTarget valid present] at resolved
          rw [← Except.ok.inj resolved]
          obtain ⟨node, blob⟩ := Option.isSome_iff_exists.mp there
          obtain ⟨content, rfl, _⟩ := holds.blobs other node blob
          exact ⟨canonical, rfl, content, blob⟩

/-- `stat` finds exactly the blobs that are there. -/
theorem stat_isSome (holds : StoreInvariant sha files) (name : Bytes) :
    (stat files (.blobs name)).isSome = (blobsOf files name).isSome := by
  cases present : blobsOf files name with
  | none => rw [stat_of_absent present]; rfl
  | some node =>
      obtain ⟨content, rfl, _⟩ := holds.blobs name node present
      rw [stat_of_regular present]
      rfl

/-- Entries may go. -/
theorem shrink (holds : StoreInvariant sha files)
    (packages : Shrinks (packagesOf files) (packagesOf after))
    (blobs : blobsOf after = blobsOf files) : StoreInvariant sha after where
  entries := by
    intro name target present
    rcases packages name with same | gone
    · rw [same] at present
      rw [blobs]
      exact holds.entries name target present
    · rw [gone] at present
      contradiction
  blobs := by
    rw [blobs]
    exact holds.blobs

theorem congr (holds : StoreInvariant sha files) (packages : packagesOf after = packagesOf files)
    (blobs : blobsOf after = blobsOf files) : StoreInvariant sha after :=
  holds.shrink (by rw [packages]; exact Shrinks.refl _) blobs

/-- Blobs that no entry leads to may go. -/
theorem sweep (holds : StoreInvariant sha files) (packages : packagesOf after = packagesOf files)
    (blobs : ∀ digest, blobsOf after digest = blobsOf files digest ∨
      blobsOf after digest = none ∧ ∀ name, CixCache.published files name ≠ some digest) :
    StoreInvariant sha after where
  entries := by
    intro name target present
    rw [packages] at present
    obtain ⟨canonical, digest, rfl, valid, there⟩ := holds.entries name target present
    refine ⟨canonical, digest, rfl, valid, ?_⟩
    rcases blobs digest with same | gone
    · rw [same]
      exact there
    · exact absurd (published_eq_some.mpr (resolvePath_blobTarget valid present)) (gone.2 name)
  blobs := by
    intro name node present
    rcases blobs name with same | gone
    · rw [same] at present
      exact holds.blobs name node present
    · rw [gone.1] at present
      contradiction

/-- An entry may be linked under a canonical name to a blob that is there. -/
theorem link (holds : StoreInvariant sha files) {canonical digest : Bytes}
    (fixed : canonicalForm canonical = some canonical) (valid : storeDigestIsValid digest = true)
    (there : (blobsOf files digest).isSome)
    (packages : packagesOf after =
      Function.update (packagesOf files) canonical (some (.symlink (blobTarget digest))))
    (blobs : blobsOf after = blobsOf files) : StoreInvariant sha after where
  entries := by
    intro name target present
    rw [packages] at present
    rw [blobs]
    by_cases same : name = canonical
    · rw [same, Function.update_self] at present
      obtain rfl := Node.symlink.inj (Option.some.inj present)
      exact ⟨same ▸ fixed, digest, rfl, valid, there⟩
    · rw [Function.update_of_ne same] at present
      exact holds.entries name target present
  blobs := by
    rw [blobs]
    exact holds.blobs

/-- A file may become the blob its content hashes to. -/
theorem adopt (holds : StoreInvariant sha files) (content : Bytes)
    (packages : Shrinks (packagesOf files) (packagesOf after))
    (blobs : blobsOf after =
      Function.update (blobsOf files) (sha.digest content) (some (.regular content))) :
    StoreInvariant sha after where
  entries := by
    intro name target present
    rcases packages name with same | gone
    · rw [same] at present
      obtain ⟨canonical, digest, rfl, valid, there⟩ := holds.entries name target present
      refine ⟨canonical, digest, rfl, valid, ?_⟩
      rw [blobs]
      by_cases equal : digest = sha.digest content
      · rw [equal, Function.update_self]
        rfl
      · rw [Function.update_of_ne equal]
        exact there
    · rw [gone] at present
      contradiction
  blobs := by
    intro name node present
    rw [blobs] at present
    by_cases equal : name = sha.digest content
    · rw [equal, Function.update_self] at present
      exact ⟨content, (Option.some.inj present).symm, equal.symm⟩
    · rw [Function.update_of_ne equal] at present
      exact holds.blobs name node present

/-- An entry may be renamed to a canonical name. -/
theorem renameEntry (holds : StoreInvariant sha files) {sys : Sys} {source target : Bytes}
    (fixed : canonicalForm target = some target)
    (renamed : rename sys files (.packages source) (.packages target) = some after) :
    StoreInvariant sha after := by
  obtain ⟨node, present, rfl⟩ := rename_eq_some renamed
  constructor
  · intro name link there
    simp only [packagesOf_update_packages, blobsOf_update_packages] at there ⊢
    by_cases own : name = target
    · rw [own, Function.update_self] at there
      rw [Option.some.inj there] at present
      obtain ⟨_, facts⟩ := holds.entries source link present
      exact ⟨own ▸ fixed, facts⟩
    · rw [Function.update_of_ne own] at there
      by_cases moved : name = source
      · rw [moved, Function.update_self] at there
        contradiction
      · rw [Function.update_of_ne moved] at there
        exact holds.entries name link there
  · simp only [blobsOf_update_packages]
    exact holds.blobs

end StoreInvariant

/-! ## Operations -/

section Operations

variable {sha : Sha256sum} {sys : Sys} {st : Store}

/-- Removing a path outside blobs/ keeps the invariant. -/
theorem unlink_keeps (holds : StoreInvariant sha st.files) {path : Path}
    (outside : ∀ name, path ≠ .blobs name) :
    StoreInvariant sha (unlink sys st.files path).1 := by
  cases path with
  | packages name =>
      exact holds.shrink (shrinks_unlink_packages name) (blobsOf_unlink_packages name)
  | blobs name => exact absurd rfl (outside name)
  | tmp name => exact holds.congr (packagesOf_unlink_tmp name) (blobsOf_unlink_tmp name)

/-- Adopting a file under the digest of its content keeps the invariant. -/
theorem storeBlobAdopt_keeps (sys : Sys) (holds : StoreInvariant sha st.files) {path : Path}
    (outside : ∀ name, path ≠ .blobs name) {content : Bytes}
    (present : st.files path = some (.regular content)) :
    StoreInvariant sha (storeBlobAdopt sys st path (sha.digest content)).1.files := by
  rw [storeBlobAdopt_of_valid (sha.valid content)]
  split
  next => exact unlink_keeps holds outside
  next =>
    split
    next => exact holds
    next after renamed =>
      obtain ⟨node, found, rfl⟩ := rename_eq_some renamed
      rw [present] at found
      obtain rfl := Option.some.inj found
      cases path with
      | packages name =>
          apply holds.adopt content
          · intro other
            simp only [packagesOf_update_blobs, packagesOf_update_packages, Store.withFiles_files]
            by_cases same : other = name
            · rw [same, Function.update_self]
              exact Or.inr rfl
            · rw [Function.update_of_ne same]
              exact Or.inl rfl
          · simp
      | blobs name => exact absurd rfl (outside name)
      | tmp name =>
          apply holds.adopt content
          · simp only [Store.withFiles_files, packagesOf_update_blobs, packagesOf_update_tmp]
            exact Shrinks.refl _
          · simp

theorem storePublish_keeps (holds : StoreInvariant sha st.files) (name digest : Bytes) :
    StoreInvariant sha (storePublish sys st name digest).1.files := by
  have blobs := storePublish_blobs sys st name digest
  cases storePublish_outcome sys st name digest with
  | kept packages _ => exact holds.congr packages blobs
  | linked canonical form valid present _ _ packages =>
      rw [holds.stat_isSome] at present
      exact holds.link (canonicalForm_fixed form) valid present packages blobs

theorem adoptUpload_keeps (holds : StoreInvariant sha st.files) {tmp : TmpName} {content : Bytes}
    (staged : st.files (.tmp tmp) = some (.regular content)) (name : Bytes) :
    StoreInvariant sha (adoptUpload sys st (.tmp tmp) name (sha.digest content)).1.files := by
  have adopted := storeBlobAdopt_keeps sys holds (by simp) staged
  unfold adoptUpload
  split
  next after error split =>
    rw [split] at adopted
    exact adopted
  next after split =>
    rw [split] at adopted
    exact storePublish_keeps adopted name _

theorem commitUpload_keeps (holds : StoreInvariant sha st.files) {tmp : TmpName}
    {content : Bytes} (staged : st.files (.tmp tmp) = some (.regular content)) (name : Bytes) :
    StoreInvariant sha (commitUpload sys st (.tmp tmp) name (sha.digest content)).1.files := by
  unfold commitUpload
  split
  next =>
    split
    next => exact unlink_keeps holds (by simp)
    next => exact adoptUpload_keeps holds staged name
  next => exact adoptUpload_keeps holds staged name
  next => exact unlink_keeps holds (by simp)

theorem storeUnpublish_keeps (holds : StoreInvariant sha st.files) (name : Bytes) :
    StoreInvariant sha (storeUnpublish sys st name).store.files :=
  holds.shrink (storeUnpublish_shrinks sys st name) (storeUnpublish_blobs sys st name)

/-- The collector's live set covers every entry when the listing is complete:
all entries are validly named. -/
theorem storeGc_keeps (holds : StoreInvariant sha st.files)
    (listing : sys.Listing st.files .packages) (dryRun : Bool) :
    StoreInvariant sha (storeGc sys st dryRun).1.files := by
  cases reported : (storeGc sys st dryRun).2 with
  | none =>
      rw [storeGc_none reported]
      exact holds
  | some report =>
      obtain ⟨set, names, digests, _, packages, _, slots, runs⟩ := storeGc_some reported
      obtain ⟨_, complete⟩ := listing names packages
      have live : ∀ name digest, published st.files name = some digest → digest ∈ set.slots := by
        intro name digest found
        obtain ⟨canonical, entry, _⟩ := holds.published found
        rw [slots, List.mem_map]
        refine ⟨(name, digest), mem_listed.mpr ⟨?_, canonicalForm_valid canonical, found⟩, rfl⟩
        apply (complete name).mpr
        apply Or.inl
        show (packagesOf st.files name).isSome
        rw [entry]
        rfl
      rw [runs dryRun]
      have swept := sweepBlobs_files sys st set.slots dryRun digests ⟨0, 0⟩
      apply holds.sweep swept.1
      intro digest
      rcases swept.2 digest with same | gone
      · exact Or.inl same
      · refine Or.inr ⟨gone.1, fun name found => ?_⟩
        exact gone.2 (live name digest found)

/-- Over canonical entries a canonicalisation has nothing to rename. -/
theorem storeCanonicalize_keeps (holds : StoreInvariant sha st.files) (dryRun : Bool) :
    StoreInvariant sha (storeCanonicalize sys st dryRun).1.files := by
  unfold storeCanonicalize
  split
  next => exact holds
  next set walked =>
    obtain ⟨names, _, slots⟩ := storeWalk_collectNoncanonical walked
    have empty : set.slots = [] := by
      rw [slots]
      apply List.filterMap_eq_nil_iff.mpr
      intro entry member
      obtain ⟨_, _, found⟩ := mem_listed.mp member
      rw [storeCanonicalName_fixed (holds.published found).1]
    rw [empty]
    exact holds

/-- Stamping renames a canonical bare name to a canonical stamped one. -/
theorem storeSetArch_keeps (holds : StoreInvariant sha st.files) (arch : Bytes) (dryRun : Bool) :
    StoreInvariant sha (storeSetArch sys st arch dryRun).1.files := by
  unfold storeSetArch
  split
  next => exact holds
  next known =>
    have member : arch ∈ gArches := by simpa using known
    split
    next => exact holds
    next set walked =>
      obtain ⟨names, _, slots⟩ := storeWalk_collectArchless walked
      show StoreInvariant sha (setArchLoop sys arch dryRun set.slots st ⟨false, 0, 0⟩).1.files
      apply setArchLoop_induct (motive := StoreInvariant sha) holds
      intro name collected files after fits _ before renamed
      rw [slots] at collected
      obtain ⟨archless, digest, found⟩ := mem_archless collected
      have canonical := (holds.published found).1
      exact before.renameEntry (canonicalForm_archName canonical archless member fits) renamed

theorem importerRun_keeps (holds : StoreInvariant sha st.files) (manifest : Option JsonValue)
    (dryRun : Bool) : StoreInvariant sha (importerRun sha sys st manifest dryRun).1.files := by
  apply importerRun_induct (motive := StoreInvariant sha) holds
  · intro before name content held present
    exact storeBlobAdopt_keeps sys held (by simp) present
  · intro adopted name digest held
    exact storePublish_keeps held name digest

end Operations

/-! ## Runs -/

/-- The operations that write the tree, each one to its end. `upload` stages the
content, hashes it and commits it under the name. -/
inductive StoreOp where
  | upload (name content : Bytes)
  | unpublish (name : Bytes)
  | gc (dryRun : Bool)
  | canonicalize (dryRun : Bool)
  | setArch (arch : Bytes) (dryRun : Bool)
  | importer (manifest : Option JsonValue) (dryRun : Bool)

/-- A staged upload whose bytes are verified, then the tail of `finish_upload`. -/
def uploadContent (sha : Sha256sum) (sys : Sys) (st : Store) (name content : Bytes) : Store :=
  let (path, counted) := storeTmpPath st
  match create sys counted.files path with
  | none => counted
  | some created =>
      match append sys created path content with
      | none => counted.withFiles created
      | some written =>
          match storeHashFile sha sys (counted.withFiles written) path with
          | none => counted.withFiles written
          | some digest => (commitUpload sys (counted.withFiles written) path name digest).1

def storeStep (sha : Sha256sum) (st : Store) (event : Sys × StoreOp) : Store :=
  match event.2 with
  | .upload name content => uploadContent sha event.1 st name content
  | .unpublish name => (storeUnpublish event.1 st name).store
  | .gc dryRun => (storeGc event.1 st dryRun).1
  | .canonicalize dryRun => (storeCanonicalize event.1 st dryRun).1
  | .setArch arch dryRun => (storeSetArch event.1 st arch dryRun).1
  | .importer manifest dryRun => (importerRun sha event.1 st manifest dryRun).1

/-- A collector's `readdir` of packages/ yields what is there. -/
def CollectorListing (st : Store) (event : Sys × StoreOp) : Prop :=
  match event.2 with
  | .gc _ => event.1.Listing st.files .packages
  | _ => True

section Runs

variable {sha : Sha256sum} {st : Store}

theorem uploadContent_keeps (sys : Sys) (holds : StoreInvariant sha st.files)
    (name content : Bytes) : StoreInvariant sha (uploadContent sha sys st name content).files := by
  unfold uploadContent
  dsimp only [storeTmpPath]
  split
  next => exact holds
  next created made =>
    unfold create at made
    split at made
    next =>
      obtain rfl := Option.some.inj made
      split
      next => exact holds.congr (packagesOf_update_tmp _ _ _) (blobsOf_update_tmp _ _ _)
      next written appended =>
        unfold append at appended
        rw [Function.update_self] at appended
        dsimp only at appended
        split at appended
        next =>
          obtain rfl := Option.some.inj appended
          have staged : StoreInvariant sha _ :=
            holds.congr (packagesOf_update_tmp st.files (some (.regular ([] ++ content)))
              (.up st.pid st.tmpCounter)) (blobsOf_update_tmp _ _ _)
          rw [Function.update_idem]
          split
          next => exact staged
          next digest hashed =>
            unfold storeHashFile at hashed
            split at hashed
            next =>
              rw [Store.withFiles_files, stat_of_regular (Function.update_self ..)] at hashed
              dsimp only at hashed
              split at hashed
              next =>
                obtain rfl := Option.some.inj hashed
                exact commitUpload_keeps staged (Function.update_self ..) name
              next => contradiction
            next => contradiction
        next => contradiction
    next => contradiction

theorem storeStep_keeps (event : Sys × StoreOp) (holds : StoreInvariant sha st.files)
    (listing : CollectorListing st event) :
    StoreInvariant sha (storeStep sha st event).files := by
  obtain ⟨sys, op⟩ := event
  cases op with
  | upload name content => exact uploadContent_keeps sys holds name content
  | unpublish name => exact storeUnpublish_keeps holds name
  | gc dryRun => exact storeGc_keeps holds listing dryRun
  | canonicalize dryRun => exact storeCanonicalize_keeps holds dryRun
  | setArch arch dryRun => exact storeSetArch_keeps holds arch dryRun
  | importer manifest dryRun => exact importerRun_keeps holds manifest dryRun

/-- The invariant holds after every run that starts where it holds. -/
theorem run_keeps {events : List (Sys × StoreOp)} (holds : StoreInvariant sha st.files)
    (listings : Along CollectorListing (storeStep sha) st events) :
    StoreInvariant sha (run (storeStep sha) st events).files :=
  run_invariant (motive := fun reached => StoreInvariant sha reached.files)
    (fun _ event held listing => storeStep_keeps event held listing) holds listings

/-- Any sequence of completed operations on a fresh root leaves every entry
under a valid canonical name, leading to a present blob named by the hash of
its content. -/
theorem run_fresh_store {events : List (Sys × StoreOp)} (fresh : Fresh st.files)
    (listings : Along CollectorListing (storeStep sha) st events) :
    (∀ name target, packagesOf (run (storeStep sha) st events).files name = some (.symlink target) →
      storeNameIsValid name = true ∧ storeCanonicalName name = some (name, false) ∧
        ∃ digest, target = blobTarget digest ∧ storeDigestIsValid digest = true ∧
          (blobsOf (run (storeStep sha) st events).files digest).isSome) ∧
    ∀ digest node, blobsOf (run (storeStep sha) st events).files digest = some node →
      ∃ content, node = .regular content ∧ sha.digest content = digest := by
  have holds := run_keeps (StoreInvariant.of_fresh fresh : StoreInvariant sha st.files) listings
  refine ⟨?_, holds.blobs⟩
  intro name target present
  obtain ⟨canonical, facts⟩ := holds.entries name target present
  exact ⟨canonicalForm_valid canonical, storeCanonicalName_fixed canonical, facts⟩

end Runs

/-! ### A run on an empty root -/

/-- A collection, an upload under a bare alias, a stamping and a canonicalisation. -/
def sampleEvents : List (Sys × StoreOp) :=
  [(Sys.holding [] [], .gc false),
    (Sys.succeeding fun _ => none, .upload (ascii "foo-1.tar.gz") (ascii "a")),
    (Sys.succeeding fun _ => some [ascii "foo-1-1.tar.gz"], .setArch (ascii "aarch64") false),
    (Sys.succeeding fun _ => some [ascii "foo-1-1-aarch64.tar.gz"], .canonicalize false)]

/-- The artifact ends stamped, under its canonical name, with its blob. -/
theorem run_sample_events :
    ∃ target, packagesOf (run (storeStep Sha256sum.sample) (Store.holding [] []) sampleEvents).files
        (ascii "foo-1-1-aarch64.tar.gz") = some (.symlink target) ∧
      storeCanonicalName (ascii "foo-1-1-aarch64.tar.gz") =
        some (ascii "foo-1-1-aarch64.tar.gz", false) ∧
      ∃ digest, target = blobTarget digest ∧
        (blobsOf (run (storeStep Sha256sum.sample) (Store.holding [] []) sampleEvents).files
          digest).isSome := by
  have fresh : Fresh (Store.holding [] []).files := ⟨by intro name node present; contradiction,
    fun _ => rfl⟩
  have listings : Along CollectorListing (storeStep Sha256sum.sample) (Store.holding [] [])
      sampleEvents :=
    ⟨Sys.listing_holding (by decide) (by decide) .packages, trivial, trivial, trivial, trivial⟩
  have law := (run_fresh_store fresh listings).1
  have linked : packagesOf
      (run (storeStep Sha256sum.sample) (Store.holding [] []) sampleEvents).files
      (ascii "foo-1-1-aarch64.tar.gz") =
        some (.symlink (blobTarget (Sha256sum.sample.digest (ascii "a")))) := by
    decide +kernel
  obtain ⟨_, canonical, digest, same, _, present⟩ := law _ _ linked
  exact ⟨_, linked, canonical, digest, same, present⟩

end CixCache
