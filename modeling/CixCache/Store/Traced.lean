import CixCache.Lib.Traced
import CixCache.Store.Publish

/-!
Contract: the store's operations with the file-system calls they make.

Owns: `FileCall`, the calls an artifact request can lead to and the paths they
take; the operations of `Store.Resolve` and `Store.Publish` written over the calls
as primitives, each with a theorem that it computes what the operation computes;
and that every path they take is `Confined`.

Does not own: what the calls do to the tree (`Store.FileSystem`).
-/

namespace CixCache

open CixCache.Lib

/-! ## Calls -/

inductive FileCall where
  | readlink (path : Path)
  | stat (path : Path)
  | access (path : Path)
  | open (path : Path)
  | create (path : Path)
  | write (path : Path)
  | symlink (target : Bytes) (path : Path)
  | rename (source target : Path)
  | unlink (path : Path)
deriving DecidableEq

/-- The paths a call takes; the text of a link is not one. -/
def FileCall.paths : FileCall → List Path
  | .readlink path | .stat path | .access path | .open path | .create path | .write path
  | .symlink _ path | .unlink path => [path]
  | .rename source target => [source, target]

abbrev Calls := Traced FileCall

/-! ## Functions of the source -/

def resolvePathCalls (files : Files) (path : Path) : Calls (Except StoreError Bytes) :=
  .perform (.readlink path) (resolvePath files path)

def probeArchesCalls (st : Store) (canonical : Bytes) :
    List Bytes → Option (Bytes × Bytes) → Calls (Except StoreError (Option (Bytes × Bytes)))
  | [], hit => pure (.ok hit)
  | arch :: rest, hit =>
      let probe := archProbe canonical arch
      match rawEntryPath st.root probe with
      | none => probeArchesCalls st canonical rest hit
      | some path => do
          match ← resolvePathCalls st.files path with
          | .error _ => probeArchesCalls st canonical rest hit
          | .ok found =>
              match hit with
              | some (hitName, hitDigest) =>
                  if hitDigest = found then
                    probeArchesCalls st canonical rest (some (hitName, hitDigest))
                  else pure (.error .ambiguous)
              | none => probeArchesCalls st canonical rest (some (probe, found))

def storeResolveAsCalls (st : Store) (name : Bytes) : Calls (Except StoreError Resolved) :=
  if storeNameIsValid name = false then pure (.error .invalidName)
  else
    match storeCanonicalName name with
    | none => pure (.error .invalidName)
    | some (canonical, _) =>
        match rawEntryPath st.root canonical with
        | none => pure (.error .invalidName)
        | some path => do
            let direct ← resolvePathCalls st.files path
            if (storeArchOf canonical).isSome then
              match direct with
              | .ok digest => pure (.ok ⟨digest, canonical⟩)
              | .error error => pure (.error error)
            else
              let probed ←
                match direct with
                | .ok digest => probeArchesCalls st canonical gArches (some (canonical, digest))
                | .error .notFound => probeArchesCalls st canonical gArches none
                | .error error => pure (.error error)
              match probed with
              | .error error => pure (.error error)
              | .ok none => pure (.error .notFound)
              | .ok (some (hitName, hitDigest)) => pure (.ok ⟨hitDigest, hitName⟩)

def storeResolveCalls (st : Store) (name : Bytes) : Calls (Except StoreError Bytes) := do
  match ← storeResolveAsCalls st name with
  | .ok resolved => pure (.ok resolved.digest)
  | .error error => pure (.error error)

def storeBlobExistsCalls (st : Store) (digest : Bytes) : Calls (Option Nat) :=
  if storeDigestIsValid digest = false then pure none
  else
    match blobPath st.root digest with
    | none => pure none
    | some path => .perform (.stat path) ((stat st.files path).map List.length)

def unlinkCalls (sys : Sys) (files : Files) (path : Path) : Calls (Files × Unlinked) :=
  .perform (.unlink path) (unlink sys files path)

def renameCalls (sys : Sys) (files : Files) (source target : Path) : Calls (Option Files) :=
  .perform (.rename source target) (rename sys files source target)

def storeBlobAdoptCalls (sys : Sys) (st : Store) (tmpPath : Path) (digest : Bytes) :
    Calls (Store × StoreResult) :=
  if storeDigestIsValid digest = false then pure (st, .error .io)
  else
    match blobPath st.root digest with
    | none => pure (st, .error .io)
    | some path => do
        let present ← Traced.perform (.access path) (stat st.files path).isSome
        if present then
          let removed ← unlinkCalls sys st.files tmpPath
          pure (st.withFiles removed.1, .ok ())
        else
          match ← renameCalls sys st.files tmpPath path with
          | none => pure (st, .error .io)
          | some files => pure (st.withFiles files, .ok ())

def publishLinkCalls (sys : Sys) (st : Store) (linkPath : Path) (digest : Bytes) :
    Calls (Store × StoreResult) :=
  if pathMax ≤ (blobTarget digest).length then pure (st, .error .io)
  else do
    let tmpLink := Path.tmp (.pub st.pid st.tmpCounter)
    let counted := { st with tmpCounter := st.tmpCounter + 1 }
    let cleared ← unlinkCalls sys st.files tmpLink
    match ← Traced.perform (.symlink (blobTarget digest) tmpLink)
        (symlink sys cleared.1 (blobTarget digest) tmpLink) with
    | none => pure (counted.withFiles cleared.1, .error .io)
    | some linked =>
        match ← renameCalls sys linked tmpLink linkPath with
        | none => do
            let dropped ← unlinkCalls sys linked tmpLink
            pure (counted.withFiles dropped.1, .error .io)
        | some files => pure (counted.withFiles files, .ok ())

def storePublishCalls (sys : Sys) (st : Store) (name digest : Bytes) :
    Calls (Store × StoreResult) :=
  if storeNameIsValid name = false then pure (st, .error .invalidName)
  else if storeDigestIsValid digest = false then pure (st, .error .io)
  else do
    let size ← storeBlobExistsCalls st digest
    if size.isNone then pure (st, .error .notFound)
    else
      match ← storeResolveCalls st name with
      | .ok existing =>
          if existing = digest then pure (st, .ok ()) else pure (st, .error .conflict)
      | .error .notFound =>
          match entryPath st.root name with
          | none => pure (st, .error .invalidName)
          | some path => publishLinkCalls sys st path digest
      | .error error => pure (st, .error error)

def unpublishEntryCalls (sys : Sys) (st : Store) (path : Path) (signatureRemoved : Bool) :
    Calls Unpublished := do
  match ← unlinkCalls sys st.files path with
  | (files, .done) => pure ⟨st.withFiles files, .ok (), signatureRemoved⟩
  | (files, .absent) => pure ⟨st.withFiles files, .error .notFound, signatureRemoved⟩
  | (files, .failed) => pure ⟨st.withFiles files, .error .io, signatureRemoved⟩

def storeUnpublishCalls (sys : Sys) (st : Store) (name : Bytes) : Calls Unpublished :=
  if storeNameIsValid name = false then pure ⟨st, .error .invalidName, false⟩
  else
    match entryPath st.root name with
    | none => pure ⟨st, .error .invalidName, false⟩
    | some path =>
        match signaturePath st.root name with
        | none => unpublishEntryCalls sys st path false
        | some sigPath => do
            match ← unlinkCalls sys st.files sigPath with
            | (files, .done) => unpublishEntryCalls sys (st.withFiles files) path true
            | (files, .absent) => unpublishEntryCalls sys (st.withFiles files) path false
            | (files, .failed) => pure ⟨st.withFiles files, .error .io, false⟩

/-! ## What the operations compute -/

section Values

variable {sys : Sys} {st : Store} {name digest : Bytes}

@[simp] theorem resolvePathCalls_value (files : Files) (path : Path) :
    (resolvePathCalls files path).value = resolvePath files path := rfl

@[simp] theorem unlinkCalls_value (files : Files) (path : Path) :
    (unlinkCalls sys files path).value = unlink sys files path := rfl

@[simp] theorem renameCalls_value (files : Files) (source target : Path) :
    (renameCalls sys files source target).value = rename sys files source target := rfl

@[simp] theorem probeArchesCalls_value (st : Store) (canonical : Bytes) (arches : List Bytes)
    (hit : Option (Bytes × Bytes)) :
    (probeArchesCalls st canonical arches hit).value = probeArches st canonical arches hit := by
  induction arches generalizing hit with
  | nil => rfl
  | cons arch rest inductionHypothesis =>
      unfold probeArchesCalls probeArches
      dsimp only
      cases rawEntryPath st.root (archProbe canonical arch) with
      | none => exact inductionHypothesis hit
      | some path =>
          dsimp only
          rw [Traced.value_bind, resolvePathCalls_value]
          cases resolvePath st.files path with
          | error => exact inductionHypothesis hit
          | ok found =>
              cases hit with
              | none => exact inductionHypothesis _
              | some pair =>
                  dsimp only
                  split
                  next => exact inductionHypothesis _
                  next => rfl

@[simp] theorem storeResolveAsCalls_value (st : Store) (name : Bytes) :
    (storeResolveAsCalls st name).value = storeResolveAs st name := by
  unfold storeResolveAsCalls storeResolveAs
  split
  next => rfl
  next =>
    cases storeCanonicalName name with
    | none => rfl
    | some form =>
        dsimp only
        cases rawEntryPath st.root form.1 with
        | none => rfl
        | some path =>
            dsimp only
            rw [Traced.value_bind, resolvePathCalls_value]
            split
            next => cases resolvePath st.files path <;> rfl
            next =>
              cases resolvePath st.files path with
              | ok digest =>
                  dsimp only
                  rw [Traced.value_bind, probeArchesCalls_value]
                  cases probeArches st form.1 gArches (some (form.1, digest)) with
                  | error error => rfl
                  | ok hit => cases hit <;> rfl
              | error error =>
                  cases error with
                  | notFound =>
                      dsimp only
                      rw [Traced.value_bind, probeArchesCalls_value]
                      cases probeArches st form.1 gArches none with
                      | error error => rfl
                      | ok hit => cases hit <;> rfl
                  | _ => rfl

@[simp] theorem storeResolveCalls_value (st : Store) (name : Bytes) :
    (storeResolveCalls st name).value = storeResolve st name := by
  unfold storeResolveCalls storeResolve
  rw [Traced.value_bind, storeResolveAsCalls_value]
  cases storeResolveAs st name <;> rfl

@[simp] theorem storeBlobExistsCalls_value (st : Store) (digest : Bytes) :
    (storeBlobExistsCalls st digest).value = storeBlobExists st digest := by
  unfold storeBlobExistsCalls storeBlobExists
  split
  next => rfl
  next => cases blobPath st.root digest <;> rfl

@[simp] theorem storeBlobAdoptCalls_value (sys : Sys) (st : Store) (tmpPath : Path)
    (digest : Bytes) :
    (storeBlobAdoptCalls sys st tmpPath digest).value = storeBlobAdopt sys st tmpPath digest := by
  unfold storeBlobAdoptCalls storeBlobAdopt
  split
  next => rfl
  next =>
    cases blobPath st.root digest with
    | none => rfl
    | some path =>
        dsimp only
        rw [Traced.value_bind, Traced.value_perform]
        split
        next => rfl
        next =>
          rw [Traced.value_bind, renameCalls_value]
          cases rename sys st.files tmpPath path <;> rfl

@[simp] theorem publishLinkCalls_value (sys : Sys) (st : Store) (linkPath : Path)
    (digest : Bytes) :
    (publishLinkCalls sys st linkPath digest).value = publishLink sys st linkPath digest := by
  unfold publishLinkCalls publishLink
  split
  next => rfl
  next =>
    dsimp only
    rw [Traced.value_bind, unlinkCalls_value, Traced.value_bind, Traced.value_perform]
    cases symlink sys (unlink sys st.files (.tmp (.pub st.pid st.tmpCounter))).1
        (blobTarget digest) (.tmp (.pub st.pid st.tmpCounter)) with
    | none => rfl
    | some linked =>
        dsimp only
        rw [Traced.value_bind, renameCalls_value]
        cases rename sys linked (.tmp (.pub st.pid st.tmpCounter)) linkPath <;> rfl

@[simp] theorem storePublishCalls_value (sys : Sys) (st : Store) (name digest : Bytes) :
    (storePublishCalls sys st name digest).value = storePublish sys st name digest := by
  unfold storePublishCalls storePublish
  split
  next => rfl
  split
  next => rfl
  rw [Traced.value_bind, storeBlobExistsCalls_value]
  split
  next => rfl
  rw [Traced.value_bind, storeResolveCalls_value]
  cases storeResolve st name with
  | ok existing =>
      dsimp only
      split <;> rfl
  | error error =>
      cases error with
      | notFound =>
          dsimp only
          cases entryPath st.root name with
          | none => rfl
          | some path => exact publishLinkCalls_value sys st path digest
      | _ => rfl

@[simp] theorem unpublishEntryCalls_value (sys : Sys) (st : Store) (path : Path)
    (signatureRemoved : Bool) :
    (unpublishEntryCalls sys st path signatureRemoved).value =
      unpublishEntry sys st path signatureRemoved := by
  unfold unpublishEntryCalls unpublishEntry
  rw [Traced.value_bind, unlinkCalls_value]
  rcases unlink sys st.files path with ⟨files, outcome⟩
  cases outcome <;> rfl

@[simp] theorem storeUnpublishCalls_value (sys : Sys) (st : Store) (name : Bytes) :
    (storeUnpublishCalls sys st name).value = storeUnpublish sys st name := by
  unfold storeUnpublishCalls storeUnpublish
  split
  next => rfl
  cases entryPath st.root name with
  | none => rfl
  | some path =>
      dsimp only
      cases signaturePath st.root name with
      | none => exact unpublishEntryCalls_value sys st path false
      | some sigPath =>
          dsimp only
          rw [Traced.value_bind, unlinkCalls_value]
          rcases unlink sys st.files sigPath with ⟨files, outcome⟩
          cases outcome with
          | done => exact unpublishEntryCalls_value sys _ path true
          | absent => exact unpublishEntryCalls_value sys _ path false
          | failed => rfl

end Values

/-! ## Confined paths -/

/-- A single component: no slash or NUL in it, and neither `.` nor `..`. -/
structure Component (text : Bytes) : Prop where
  nonempty : text ≠ []
  slashFree : slash ∉ text
  nulFree : (0 : Byte) ∉ text
  notSelf : text ≠ [dot]
  notParent : text ≠ [dot, dot]

/-- A path of packages/ is one component, a path of blobs/ a digest. -/
def Path.Confined : Path → Prop
  | .packages name => Component name
  | .blobs digest => storeDigestIsValid digest = true
  | .tmp _ => True

/-- Every path a call takes is confined. -/
def FileCall.Confined (call : FileCall) : Prop := ∀ path ∈ call.paths, path.Confined

/-- Whitelisted bytes without a leading dot are a component, also when cut. -/
theorem component_snprintf {text : Bytes} (whitelisted : NameText text) {size : Nat}
    (room : 1 < size) : Component (snprintf size text) := by
  have bytes : ∀ c ∈ snprintf size text, nameByte c = true := fun c member =>
    whitelisted.bytes c (List.mem_of_mem_take member)
  have head : (snprintf size text).head? = text.head? := by
    show (text.take (size - 1)).head? = _
    rw [List.head?_take, if_neg (by omega)]
  have leading := whitelisted.head
  rw [← head] at leading
  constructor
  · intro empty
    rw [empty] at head
    exact whitelisted.nonempty (List.head?_eq_none_iff.mp head.symm)
  · intro member
    have whitelistedSlash := bytes slash member
    revert whitelistedSlash
    decide
  · intro member
    have whitelistedNul := bytes 0 member
    revert whitelistedNul
    decide
  · intro self
    rw [self] at leading
    exact leading rfl
  · intro parent
    rw [parent] at leading
    exact leading rfl

theorem component_of_valid {name : Bytes} (valid : storeNameIsValid name = true) :
    Component name := by
  have cut : Component (snprintf storeNameMax name) :=
    component_snprintf (storeNameIsValid.text valid) (by decide)
  rwa [snprintf_of_lt (storeNameIsValid.length_lt valid)] at cut

theorem component_archProbe {canonical arch : Bytes}
    (form : canonicalForm canonical = some canonical) (unqualified : storeArchOf canonical = none)
    (known : arch ∈ gArches) : Component (archProbe canonical arch) := by
  obtain ⟨parts, rfl, bare, _⟩ := parts_of_canonical_bare form unqualified
  apply component_snprintf
  · exact NameParts.text_archName (storeNameIsValid.text (canonicalForm_valid form)) bare known
  · decide

theorem rawEntryPath_confined {root : Root} {name : Bytes} {path : Path}
    (located : rawEntryPath root name = some path) (component : Component name) :
    path.Confined := by
  rw [rawEntryPath_eq_some located]
  exact component

theorem blobPath_confined {root : Root} {digest : Bytes} {path : Path}
    (located : blobPath root digest = some path) (valid : storeDigestIsValid digest = true) :
    path.Confined := by
  rw [blobPath_eq_some located]
  exact valid

/-- Whatever the name, the path of its canonical form is confined. -/
theorem entryPath_confined {root : Root} {name : Bytes} {path : Path}
    (located : entryPath root name = some path) : path.Confined := by
  cases form : canonicalForm name with
  | none =>
      rw [entryPath_of_none form] at located
      contradiction
  | some canonical =>
      rw [entryPath_of_canonicalForm form] at located
      rw [← Option.some.inj located]
      exact component_of_valid (canonicalForm_out_valid form)

/-! ## What the operations call -/

/-- Every call of an operation is confined. -/
abbrev ConfinedCalls {α : Type} (calls : Calls α) : Prop := calls.Only FileCall.Confined

section Confinement

variable {sys : Sys} {st : Store} {name digest : Bytes} {path : Path}

theorem confined_one {α : Type} {call : FileCall} {value : α} (single : call.paths = [path])
    (confined : path.Confined) : ConfinedCalls (Traced.perform call value) := by
  apply Traced.only_perform
  intro other member
  rw [single] at member
  rw [List.mem_singleton.mp member]
  exact confined

theorem resolvePathCalls_confined (files : Files) (confined : path.Confined) :
    ConfinedCalls (resolvePathCalls files path) :=
  confined_one rfl confined

theorem unlinkCalls_confined (files : Files) (confined : path.Confined) :
    ConfinedCalls (unlinkCalls sys files path) :=
  confined_one rfl confined

theorem renameCalls_confined (files : Files) {source target : Path} (left : source.Confined)
    (right : target.Confined) : ConfinedCalls (renameCalls sys files source target) := by
  apply Traced.only_perform
  intro other member
  rcases List.mem_cons.mp member with rfl | last
  · exact left
  · rw [List.mem_singleton.mp last]
    exact right

theorem probeArchesCalls_confined {canonical : Bytes}
    (form : canonicalForm canonical = some canonical) (unqualified : storeArchOf canonical = none)
    {arches : List Bytes} (known : ∀ arch ∈ arches, arch ∈ gArches)
    (hit : Option (Bytes × Bytes)) :
    ConfinedCalls (probeArchesCalls st canonical arches hit) := by
  induction arches generalizing hit with
  | nil => exact Traced.only_pure _
  | cons arch rest inductionHypothesis =>
      have further := inductionHypothesis fun other member =>
        known other (List.mem_cons_of_mem _ member)
      unfold probeArchesCalls
      dsimp only
      split
      next => exact further hit
      next path located =>
        apply Traced.Only.bind
        · apply resolvePathCalls_confined
          exact rawEntryPath_confined located
            (component_archProbe form unqualified (known arch List.mem_cons_self))
        · split
          next => exact further hit
          next =>
            split
            next =>
              split
              next => exact further _
              next => exact Traced.only_pure _
            next => exact further _

theorem storeResolveAsCalls_confined (st : Store) (name : Bytes) :
    ConfinedCalls (storeResolveAsCalls st name) := by
  unfold storeResolveAsCalls
  split
  next => exact Traced.only_pure _
  split
  next => exact Traced.only_pure _
  next canonical differs canonicalised =>
    have form : canonicalForm name = some canonical := by
      rw [canonicalForm, canonicalised]
      rfl
    have fixed := canonicalForm_fixed form
    split
    next => exact Traced.only_pure _
    next path located =>
      apply Traced.Only.bind
      · apply resolvePathCalls_confined
        exact rawEntryPath_confined located (component_of_valid (canonicalForm_out_valid form))
      split
      next => split <;> exact Traced.only_pure _
      next bare =>
        have unqualified : storeArchOf canonical = none := by
          simpa using bare
        have probes : ∀ hit, ConfinedCalls (probeArchesCalls st canonical gArches hit) :=
          probeArchesCalls_confined fixed unqualified fun _ member => member
        split
        next =>
          apply Traced.Only.bind (probes _)
          dsimp only
          split <;> exact Traced.only_pure _
        next =>
          apply Traced.Only.bind (probes _)
          dsimp only
          split <;> exact Traced.only_pure _
        next => exact (Traced.only_pure _).bind (Traced.only_pure _)

theorem storeResolveCalls_confined (st : Store) (name : Bytes) :
    ConfinedCalls (storeResolveCalls st name) :=
  (storeResolveAsCalls_confined st name).bind (by split <;> exact Traced.only_pure _)

theorem storeBlobExistsCalls_confined (st : Store) (digest : Bytes) :
    ConfinedCalls (storeBlobExistsCalls st digest) := by
  unfold storeBlobExistsCalls
  split
  next => exact Traced.only_pure _
  next valid =>
    split
    next => exact Traced.only_pure _
    next path located =>
      exact confined_one rfl (blobPath_confined located (by simpa using valid))

theorem storeBlobAdoptCalls_confined (staged : path.Confined) :
    ConfinedCalls (storeBlobAdoptCalls sys st path digest) := by
  unfold storeBlobAdoptCalls
  split
  next => exact Traced.only_pure _
  next valid =>
    split
    next => exact Traced.only_pure _
    next blob located =>
      have confined := blobPath_confined located (by simpa using valid)
      apply Traced.Only.bind (confined_one rfl confined)
      split
      next => exact (unlinkCalls_confined _ staged).bind (Traced.only_pure _)
      next =>
        exact (renameCalls_confined _ staged confined).bind (by split <;> exact Traced.only_pure _)

theorem publishLinkCalls_confined (confined : path.Confined) :
    ConfinedCalls (publishLinkCalls sys st path digest) := by
  unfold publishLinkCalls
  split
  next => exact Traced.only_pure _
  next =>
    dsimp only
    have staged : (Path.tmp (.pub st.pid st.tmpCounter)).Confined := trivial
    apply Traced.Only.bind (unlinkCalls_confined _ staged)
    apply Traced.Only.bind (confined_one rfl staged)
    split
    next => exact Traced.only_pure _
    next =>
      apply Traced.Only.bind (renameCalls_confined _ staged confined)
      split
      next => exact (unlinkCalls_confined _ staged).bind (Traced.only_pure _)
      next => exact Traced.only_pure _

theorem storePublishCalls_confined (sys : Sys) (st : Store) (name digest : Bytes) :
    ConfinedCalls (storePublishCalls sys st name digest) := by
  unfold storePublishCalls
  split
  next => exact Traced.only_pure _
  split
  next => exact Traced.only_pure _
  apply Traced.Only.bind (storeBlobExistsCalls_confined st digest)
  split
  next => exact Traced.only_pure _
  apply Traced.Only.bind (storeResolveCalls_confined st name)
  split
  next => split <;> exact Traced.only_pure _
  next =>
    split
    next => exact Traced.only_pure _
    next located => exact publishLinkCalls_confined (entryPath_confined located)
  next => exact Traced.only_pure _

theorem unpublishEntryCalls_confined (confined : path.Confined) (signatureRemoved : Bool) :
    ConfinedCalls (unpublishEntryCalls sys st path signatureRemoved) :=
  (unlinkCalls_confined _ confined).bind (by split <;> exact Traced.only_pure _)

theorem storeUnpublishCalls_confined (sys : Sys) (st : Store) (name : Bytes) :
    ConfinedCalls (storeUnpublishCalls sys st name) := by
  unfold storeUnpublishCalls
  split
  next => exact Traced.only_pure _
  split
  next => exact Traced.only_pure _
  next path located =>
    have confined := entryPath_confined located
    split
    next => exact unpublishEntryCalls_confined confined false
    next sigPath signed =>
      obtain ⟨sig, _, sigLocated⟩ := Option.bind_eq_some_iff.mp signed
      apply Traced.Only.bind (unlinkCalls_confined _ (entryPath_confined sigLocated))
      split
      next => exact unpublishEntryCalls_confined confined true
      next => exact unpublishEntryCalls_confined confined false
      next => exact Traced.only_pure _

end Confinement

end CixCache
