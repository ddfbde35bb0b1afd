import CixCache.Invariant

/-!
Contract: adopting and publishing a file one system call at a time.

Owns: `resolveStep` and `publishStep`, which take the next call of a job from
where it stands; `StageSound`, what a process may rely on between two calls; and
what one call can do to the tree.

Does not own: who takes the calls, and in which order (`Process.World`).
-/

namespace CixCache

/-! ## Functions of the source, call by call -/

/-- Where `store_resolve` stands: before its first `readlink`, or in the loop
over the architectures with the digest it holds. -/
inductive ResolvePc where
  | start
  | probing (canonical : Bytes) (arches : List Bytes) (hit : Option Bytes)
deriving DecidableEq

/-- The next `readlink` of `store_resolve`, or its result. -/
def resolveStep (st : Store) (name : Bytes) : ResolvePc → ResolvePc ⊕ Except StoreError Bytes
  | .start =>
      if storeNameIsValid name = false then .inr (.error .invalidName)
      else
        match storeCanonicalName name with
        | none => .inr (.error .invalidName)
        | some (canonical, _) =>
            match rawEntryPath st.root canonical with
            | none => .inr (.error .invalidName)
            | some path =>
                let direct := resolvePath st.files path
                if (storeArchOf canonical).isSome then .inr direct
                else
                  match direct with
                  | .ok digest => .inl (.probing canonical gArches (some digest))
                  | .error .notFound => .inl (.probing canonical gArches none)
                  | .error error => .inr (.error error)
  | .probing _ [] hit =>
      match hit with
      | none => .inr (.error .notFound)
      | some digest => .inr (.ok digest)
  | .probing canonical (arch :: rest) hit =>
      match rawEntryPath st.root (archProbe canonical arch) with
      | none => .inl (.probing canonical rest hit)
      | some path =>
          match resolvePath st.files path with
          | .error _ => .inl (.probing canonical rest hit)
          | .ok found =>
              match hit with
              | some digest =>
                  if digest = found then .inl (.probing canonical rest hit)
                  else .inr (.error .ambiguous)
              | none => .inl (.probing canonical rest (some found))

/-- A file on its way into the store: the path that is adopted, the name it is
published under and the digest of its bytes. -/
structure Job where
  source : Path
  name : Bytes
  digest : Bytes
deriving DecidableEq

/-- The call a job makes next: `access`, then `unlink` or `rename`, of
`store_blob_adopt`; the blob check, resolution, `unlink`, `symlink`, `rename`
and, when that failed, `unlink` of `store_publish`. -/
inductive Stage where
  | access
  | discard
  | adopt
  | blobExists
  | resolve (pc : ResolvePc)
  | clear (linkPath : Path)
  | link (linkPath : Path) (tmpLink : TmpName)
  | publish (linkPath : Path) (tmpLink : TmpName)
  | undo (tmpLink : TmpName)
deriving DecidableEq

def publishStep (sys : Sys) (st : Store) (job : Job) :
    Stage → Store × (Stage ⊕ StoreResult)
  | .access =>
      if storeDigestIsValid job.digest = false then (st, .inr (.error .io))
      else
        match blobPath st.root job.digest with
        | none => (st, .inr (.error .io))
        | some path => (st, .inl (if (stat st.files path).isSome then .discard else .adopt))
  | .discard => (st.withFiles (unlink sys st.files job.source).1, .inl .blobExists)
  | .adopt =>
      match blobPath st.root job.digest with
      | none => (st, .inr (.error .io))
      | some path =>
          match rename sys st.files job.source path with
          | none => (st, .inr (.error .io))
          | some files => (st.withFiles files, .inl .blobExists)
  | .blobExists =>
      if storeNameIsValid job.name = false then (st, .inr (.error .invalidName))
      else if storeDigestIsValid job.digest = false then (st, .inr (.error .io))
      else if (storeBlobExists st job.digest).isNone then (st, .inr (.error .notFound))
      else (st, .inl (.resolve .start))
  | .resolve pc =>
      match resolveStep st job.name pc with
      | .inl next => (st, .inl (.resolve next))
      | .inr (.ok existing) =>
          (st, .inr (if existing = job.digest then .ok () else .error .conflict))
      | .inr (.error .notFound) =>
          match entryPath st.root job.name with
          | none => (st, .inr (.error .invalidName))
          | some linkPath =>
              if pathMax ≤ (blobTarget job.digest).length then (st, .inr (.error .io))
              else (st, .inl (.clear linkPath))
      | .inr (.error error) => (st, .inr (.error error))
  | .clear linkPath =>
      let tmpLink := TmpName.pub st.pid st.tmpCounter
      ({ st with
          tmpCounter := st.tmpCounter + 1
          files := (unlink sys st.files (.tmp tmpLink)).1 }, .inl (.link linkPath tmpLink))
  | .link linkPath tmpLink =>
      match symlink sys st.files (blobTarget job.digest) (.tmp tmpLink) with
      | none => (st, .inr (.error .io))
      | some files => (st.withFiles files, .inl (.publish linkPath tmpLink))
  | .publish linkPath tmpLink =>
      match rename sys st.files (.tmp tmpLink) linkPath with
      | none => (st, .inl (.undo tmpLink))
      | some files => (st.withFiles files, .inr (.ok ()))
  | .undo tmpLink => (st.withFiles (unlink sys st.files (.tmp tmpLink)).1, .inr (.error .io))

/-! ## What holds between two calls -/

/-- The path of an entry under its canonical name. -/
def EntryLink (path : Path) : Prop :=
  ∃ canonical, path = .packages canonical ∧ canonicalForm canonical = some canonical

theorem entryPath_eq_some {root : Root} {name : Bytes} {path : Path}
    (located : entryPath root name = some path) : EntryLink path := by
  unfold entryPath at located
  split at located
  next => contradiction
  next canonical changed form =>
    have canonicalName : canonicalForm name = some canonical := by
      simp [canonicalForm, form]
    exact ⟨canonical, rawEntryPath_eq_some located, canonicalForm_fixed canonicalName⟩

/-- The blob check has passed and the link is not yet in packages/. -/
def Stage.checked : Stage → Bool
  | .resolve _ => true
  | .clear _ => true
  | .link _ _ => true
  | .publish _ _ => true
  | _ => false

/-- What a job relies on at a stage. Until it is adopted, the file has the bytes
that were hashed, if it is a file still. From the blob check on the blob is
there, and the link under tmp/ is the process's own. -/
def StageSound (sha : Sha256sum) (files : Files) (pid : Nat) (job : Job) : Stage → Prop
  | .access | .discard | .adopt =>
      ∀ content, files job.source = some (.regular content) → sha.digest content = job.digest
  | .blobExists => True
  | .resolve _ => (blobsOf files job.digest).isSome
  | .clear linkPath => (blobsOf files job.digest).isSome ∧ EntryLink linkPath
  | .link linkPath tmpLink =>
      (blobsOf files job.digest).isSome ∧ EntryLink linkPath ∧ ∃ counter, tmpLink = .pub pid counter
  | .publish linkPath tmpLink =>
      (blobsOf files job.digest).isSome ∧ EntryLink linkPath ∧
        (∃ counter, tmpLink = .pub pid counter) ∧
        tmpOf files tmpLink = some (.symlink (blobTarget job.digest))
  | .undo tmpLink => ∃ counter, tmpLink = .pub pid counter

section Stages

variable {sha : Sha256sum} {sys : Sys} {st : Store} {before after : Files} {pid : Nat} {job : Job}
  {stage : Stage}

/-- What a job relies on survives what leaves its file, its blob and its links alone. -/
theorem StageSound.stable (sound : StageSound sha before pid job stage)
    (source : ∀ content, after job.source = some (.regular content) →
      before job.source = some (.regular content))
    (blob : stage.checked = true → (blobsOf before job.digest).isSome →
      (blobsOf after job.digest).isSome)
    (links : ∀ counter, tmpOf after (.pub pid counter) = tmpOf before (.pub pid counter)) :
    StageSound sha after pid job stage := by
  cases stage with
  | access => exact fun content present => sound content (source content present)
  | discard => exact fun content present => sound content (source content present)
  | adopt => exact fun content present => sound content (source content present)
  | blobExists => trivial
  | resolve pc => exact blob rfl sound
  | clear linkPath => exact ⟨blob rfl sound.1, sound.2⟩
  | link linkPath tmpLink => exact ⟨blob rfl sound.1, sound.2⟩
  | publish linkPath tmpLink =>
      obtain ⟨present, entry, ⟨counter, rfl⟩, own⟩ := sound
      refine ⟨blob rfl present, entry, ⟨counter, rfl⟩, ?_⟩
      rw [links]
      exact own
  | undo tmpLink => exact sound

/-- The path a stage renames its link to. -/
def Stage.linkPath : Stage → Option Path
  | .publish linkPath _ => some linkPath
  | _ => none

/-- What one call does outside tmp/: entries may go, a file becomes the blob it
hashes to, or a link is renamed over an entry. -/
inductive TreeEffect (sha : Sha256sum) (linkPath : Option Path) (before after : Files) : Prop
  | kept (packages : Shrinks (packagesOf before) (packagesOf after))
      (blobs : blobsOf after = blobsOf before)
  | adopted (content : Bytes) (packages : Shrinks (packagesOf before) (packagesOf after))
      (blobs : blobsOf after =
        Function.update (blobsOf before) (sha.digest content) (some (.regular content)))
  | linked (canonical digest : Bytes) (renamed : linkPath = some (.packages canonical))
      (fixed : canonicalForm canonical = some canonical)
      (valid : storeDigestIsValid digest = true) (there : (blobsOf before digest).isSome)
      (packages : packagesOf after =
        Function.update (packagesOf before) canonical (some (.symlink (blobTarget digest))))
      (blobs : blobsOf after = blobsOf before)

namespace TreeEffect

variable {linkPath : Option Path}

theorem refl : TreeEffect sha linkPath before before :=
  .kept (Shrinks.refl _) rfl

theorem keeps (effect : TreeEffect sha linkPath before after)
    (holds : StoreInvariant sha before) : StoreInvariant sha after := by
  cases effect with
  | kept packages blobs => exact holds.shrink packages blobs
  | adopted content packages blobs => exact holds.adopt content packages blobs
  | linked canonical digest renamed fixed valid there packages blobs =>
      exact holds.link fixed valid there packages blobs

/-- No call writes a regular file into packages/. -/
theorem regular (effect : TreeEffect sha linkPath before after) {name content : Bytes}
    (present : packagesOf after name = some (.regular content)) :
    packagesOf before name = some (.regular content) := by
  have shrunk : Shrinks (packagesOf before) (packagesOf after) →
      packagesOf before name = some (.regular content) := by
    intro packages
    rcases packages name with same | gone
    · rw [← same]
      exact present
    · rw [gone] at present
      contradiction
  cases effect with
  | kept packages blobs => exact shrunk packages
  | adopted content packages blobs => exact shrunk packages
  | linked canonical digest renamed fixed valid there packages blobs =>
      rw [packages] at present
      by_cases own : name = canonical
      · rw [own, Function.update_self] at present
        simp at present
      · rw [Function.update_of_ne own] at present
        exact present

/-- No such call removes a blob. -/
theorem blob (effect : TreeEffect sha linkPath before after) {digest : Bytes}
    (present : (blobsOf before digest).isSome) : (blobsOf after digest).isSome := by
  cases effect with
  | kept packages blobs =>
      rw [blobs]
      exact present
  | adopted content packages blobs =>
      rw [blobs]
      by_cases own : digest = sha.digest content
      · rw [own, Function.update_self]
        rfl
      · rw [Function.update_of_ne own]
        exact present
  | linked canonical digest renamed fixed valid there packages blobs =>
      rw [blobs]
      exact present

/-- An entry answers as before, or it is the one that was linked. -/
theorem published (effect : TreeEffect sha linkPath before after) {name digest : Bytes}
    (found : published after name = some digest) :
    CixCache.published before name = some digest ∨ linkPath = some (.packages name) := by
  have shrunk : Shrinks (packagesOf before) (packagesOf after) →
      CixCache.published before name = some digest := by
    intro packages
    rcases packages name with same | gone
    · rw [← published_congr same]
      exact found
    · rw [published_of_absent gone] at found
      contradiction
  cases effect with
  | kept packages blobs => exact Or.inl (shrunk packages)
  | adopted content packages blobs => exact Or.inl (shrunk packages)
  | linked canonical digest renamed fixed valid there packages blobs =>
      by_cases own : name = canonical
      · rw [own]
        exact Or.inr renamed
      · left
        have same := congrFun packages name
        rw [Function.update_of_ne own] at same
        rw [← published_congr same]
        exact found

end TreeEffect

/-- Removing a path outside blobs/ leaves the blobs and at most removes an entry. -/
theorem remove_outside {path : Path} (files : Files) (outside : ∀ name, path ≠ .blobs name) :
    Shrinks (packagesOf files) (packagesOf (Function.update files path none)) ∧
      blobsOf (Function.update files path none) = blobsOf files := by
  cases path with
  | packages name =>
      rw [packagesOf_update_packages, blobsOf_update_packages]
      exact ⟨shrinks_update_none _ _, rfl⟩
  | blobs name => exact absurd rfl (outside name)
  | tmp name =>
      rw [packagesOf_update_tmp, blobsOf_update_tmp]
      exact ⟨Shrinks.refl _, rfl⟩

theorem treeEffect_unlink {path : Path} (outside : ∀ name, path ≠ .blobs name) :
    TreeEffect sha none before (unlink sys before path).1 := by
  rcases unlink_files sys before path with same | gone
  · rw [same]
    exact .refl
  · rw [gone]
    exact .kept (remove_outside before outside).1 (remove_outside before outside).2

/-- The stages whose call only reads. -/
def Stage.reads : Stage → Bool
  | .access | .blobExists | .resolve _ => true
  | _ => false

theorem publishStep_reads (sys : Sys) (st : Store) (job : Job) (reads : stage.reads = true) :
    (publishStep sys st job stage).1 = st := by
  cases stage with
  | access =>
      rw [publishStep]
      repeat' split
      all_goals rfl
  | blobExists =>
      rw [publishStep]
      repeat' split
      all_goals rfl
  | resolve pc =>
      rw [publishStep]
      repeat' split
      all_goals rfl
  | _ => contradiction

theorem publishStep_effect (sys : Sys) (sound : StageSound sha st.files st.pid job stage)
    (valid : storeDigestIsValid job.digest = true) (outside : ∀ name, job.source ≠ .blobs name)
    (file : stage = .adopt → ∀ target, st.files job.source ≠ some (.symlink target)) :
    TreeEffect sha stage.linkPath st.files (publishStep sys st job stage).1.files := by
  cases stage with
  | discard => exact treeEffect_unlink outside
  | adopt =>
      rw [publishStep, blobPath_of_valid st.root valid]
      dsimp only
      split
      next => exact .refl
      next files renamed =>
        obtain ⟨node, present, rfl⟩ := rename_eq_some renamed
        cases node with
        | symlink target => exact absurd present (file rfl target)
        | regular content =>
            obtain ⟨packages, blobs⟩ := remove_outside st.files outside
            apply TreeEffect.adopted content
            · rw [Store.withFiles_files, packagesOf_update_blobs]
              exact packages
            · rw [Store.withFiles_files, blobsOf_update_blobs, blobs, sound content present]
  | clear linkPath => exact treeEffect_unlink (by simp)
  | link linkPath tmpLink =>
      rw [publishStep]
      split
      next => exact .refl
      next files made =>
        obtain ⟨_, rfl⟩ := symlink_eq_some made
        apply TreeEffect.kept
        · rw [Store.withFiles_files, packagesOf_update_tmp]
          exact Shrinks.refl _
        · rw [Store.withFiles_files, blobsOf_update_tmp]
  | publish linkPath tmpLink =>
      obtain ⟨there, ⟨canonical, rfl, fixed⟩, _, own⟩ := sound
      rw [publishStep]
      split
      next => exact .refl
      next files renamed =>
        obtain ⟨node, present, rfl⟩ := rename_eq_some renamed
        obtain rfl := Option.some.inj (own.symm.trans present)
        apply TreeEffect.linked canonical job.digest rfl fixed valid there
        · rw [Store.withFiles_files, packagesOf_update_packages, packagesOf_update_tmp]
        · rw [Store.withFiles_files, blobsOf_update_packages, blobsOf_update_tmp]
  | undo tmpLink => exact treeEffect_unlink (by simp)
  | _ =>
      rw [publishStep_reads sys st job rfl]
      exact .refl

@[simp] theorem publishStep_pid (sys : Sys) (st : Store) (job : Job) (stage : Stage) :
    (publishStep sys st job stage).1.pid = st.pid := by
  cases stage with
  | discard => rfl
  | clear linkPath => rfl
  | undo tmpLink => rfl
  | adopt =>
      rw [publishStep]
      repeat' split
      all_goals rfl
  | link linkPath tmpLink =>
      rw [publishStep]
      split <;> rfl
  | publish linkPath tmpLink =>
      rw [publishStep]
      split <;> rfl
  | _ => rw [publishStep_reads sys st job rfl]

/-- Under tmp/ a job removes its own file and touches its process's links. -/
theorem publishStep_tmp (sys : Sys) (sound : StageSound sha st.files st.pid job stage)
    {name : TmpName} (foreign : ∀ counter, name ≠ .pub st.pid counter) :
    tmpOf (publishStep sys st job stage).1.files name = tmpOf st.files name ∨
      .tmp name = job.source ∧ tmpOf (publishStep sys st job stage).1.files name = none := by
  have linkKept : ∀ counter,
      tmpOf (unlink sys st.files (.tmp (.pub st.pid counter))).1 name = tmpOf st.files name :=
    fun counter => tmpOf_unlink_tmp (foreign counter)
  have removed : tmpOf (Function.update st.files job.source none) name = tmpOf st.files name ∨
      .tmp name = job.source ∧ tmpOf (Function.update st.files job.source none) name = none := by
    by_cases own : .tmp name = job.source
    · refine Or.inr ⟨own, ?_⟩
      show Function.update st.files job.source none (.tmp name) = none
      rw [own, Function.update_self]
    · exact Or.inl (Function.update_of_ne own _ _)
  cases stage with
  | discard =>
      rw [publishStep]
      rcases unlink_files sys st.files job.source with same | gone
      · rw [same]
        exact Or.inl rfl
      · rw [gone]
        exact removed
  | adopt =>
      rw [publishStep]
      split
      next => exact Or.inl rfl
      next path located =>
        split
        next => exact Or.inl rfl
        next files renamed =>
          obtain ⟨node, present, rfl⟩ := rename_eq_some renamed
          obtain rfl := blobPath_eq_some located
          rw [Store.withFiles_files, tmpOf_update_blobs]
          exact removed
  | clear linkPath => exact Or.inl (linkKept _)
  | link linkPath tmpLink =>
      obtain ⟨_, _, counter, rfl⟩ := sound
      rw [publishStep]
      split
      next => exact Or.inl rfl
      next files made =>
        obtain ⟨_, rfl⟩ := symlink_eq_some made
        rw [Store.withFiles_files, tmpOf_update_tmp, Function.update_of_ne (foreign counter)]
        exact Or.inl rfl
  | publish linkPath tmpLink =>
      obtain ⟨_, ⟨canonical, rfl, _⟩, ⟨counter, rfl⟩, _⟩ := sound
      rw [publishStep]
      split
      next => exact Or.inl rfl
      next files renamed =>
        obtain ⟨node, present, rfl⟩ := rename_eq_some renamed
        rw [Store.withFiles_files, tmpOf_update_packages, tmpOf_update_tmp,
          Function.update_of_ne (foreign counter)]
        exact Or.inl rfl
  | undo tmpLink =>
      obtain ⟨counter, rfl⟩ := sound
      exact Or.inl (linkKept counter)
  | _ =>
      rw [publishStep_reads sys st job rfl]
      exact Or.inl rfl

/-- After a call the job relies on what its next stage promises. -/
theorem publishStep_sound (sys : Sys) (holds : StoreInvariant sha st.files)
    (sound : StageSound sha st.files st.pid job stage)
    (valid : storeDigestIsValid job.digest = true)
    {next : Stage} (pending : (publishStep sys st job stage).2 = .inl next) :
    StageSound sha (publishStep sys st job stage).1.files st.pid job next := by
  cases stage with
  | access =>
      rw [publishStep_reads sys st job rfl]
      rw [publishStep, if_neg (by simp [valid]), blobPath_of_valid st.root valid] at pending
      obtain rfl := Sum.inl.inj pending
      split <;> exact sound
  | discard =>
      obtain rfl := Sum.inl.inj pending
      trivial
  | adopt =>
      rw [publishStep] at pending
      split at pending
      next => contradiction
      next =>
        split at pending
        next => contradiction
        next =>
          obtain rfl := Sum.inl.inj pending
          trivial
  | blobExists =>
      rw [publishStep_reads sys st job rfl]
      rw [publishStep, if_neg (by simp [valid] : ¬ storeDigestIsValid job.digest = false)] at pending
      split at pending
      next => contradiction
      next =>
        split at pending
        next => contradiction
        next present =>
          obtain rfl := Sum.inl.inj pending
          rw [storeBlobExists_isNone valid, Option.isNone_iff_eq_none] at present
          have there := Option.isSome_iff_ne_none.mpr present
          rw [holds.stat_isSome] at there
          exact there
  | resolve pc =>
      rw [publishStep_reads sys st job rfl]
      rw [publishStep] at pending
      split at pending
      next later _ =>
        obtain rfl := Sum.inl.inj pending
        exact sound
      next => contradiction
      next =>
        split at pending
        next => contradiction
        next linkPath located =>
          split at pending
          next => contradiction
          next =>
            obtain rfl := Sum.inl.inj pending
            exact ⟨sound, entryPath_eq_some located⟩
      next => contradiction
  | clear linkPath =>
      obtain rfl := Sum.inl.inj pending
      rw [publishStep]
      refine ⟨?_, sound.2, st.tmpCounter, rfl⟩
      rw [blobsOf_unlink_tmp]
      exact sound.1
  | link linkPath tmpLink =>
      rw [publishStep] at pending ⊢
      split at pending
      next => contradiction
      next files made =>
        obtain ⟨_, rfl⟩ := symlink_eq_some made
        obtain rfl := Sum.inl.inj pending
        refine ⟨?_, sound.2.1, sound.2.2, ?_⟩
        · rw [Store.withFiles_files, blobsOf_update_tmp]
          exact sound.1
        · rw [Store.withFiles_files, tmpOf_update_tmp, Function.update_self]
  | publish linkPath tmpLink =>
      rw [publishStep] at pending
      split at pending
      next =>
        obtain rfl := Sum.inl.inj pending
        exact sound.2.2.1
      next => contradiction
  | undo tmpLink => contradiction

end Stages

end CixCache
