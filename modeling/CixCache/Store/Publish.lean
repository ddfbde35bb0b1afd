import CixCache.Store.Resolve

/-!
Contract: the operations that adopt bytes, publish a name and withdraw it.

Owns: `storeBlobExists`, `storeHashFile`, `storeBlobAdopt`, `storePublish`,
`storeUnpublish`, and for each one what it can do to packages/, blobs/ and tmp/.

Does not own: passes over a whole directory.
-/

namespace CixCache

open CixCache.Lib

/-- STORE_OK or an error. -/
abbrev StoreResult := Except StoreError Unit

/-- The program behind STORE_SHA256SUM_BIN: a fixed function into digests. -/
structure Sha256sum where
  digest : Bytes → Bytes
  valid : ∀ content, storeDigestIsValid (digest content) = true

/-- The digests of the files `a`, `b` and the empty one, which stands for every
other. -/
def Sha256sum.sample : Sha256sum where
  digest content :=
    if content = ascii "a" then
      ascii "ca978112ca1bbdcafac231b39a23dc4da786eff8147c4e72b9807785afee48bb"
    else if content = ascii "b" then
      ascii "3e23e8160039594a33894f6564e1b1348bbd7a0088d42c4acb73eeaed59c009d"
    else ascii "e3b0c44298fc1c149afbf4c8996fb92427ae41e4649b934ca495991b7852b855"
  valid content := by
    split
    next => decide +kernel
    next =>
      split
      next => decide +kernel
      next => decide +kernel

/-! ## Functions of the source -/

/-- The size of a blob that is present. -/
def storeBlobExists (st : Store) (digest : Bytes) : Option Nat :=
  if storeDigestIsValid digest = false then none
  else
    match blobPath st.root digest with
    | none => none
    | some path => (stat st.files path).map List.length

def storeHashFile (sha : Sha256sum) (sys : Sys) (st : Store) (path : Path) : Option Bytes :=
  if sys.allows (.sha256sum path) then
    match stat st.files path with
    | none => none
    | some content =>
        if storeDigestIsValid (sha.digest content) then some (sha.digest content) else none
  else none

def storeBlobAdopt (sys : Sys) (st : Store) (tmpPath : Path) (digest : Bytes) :
    Store × StoreResult :=
  if storeDigestIsValid digest = false then (st, .error .io)
  else
    match blobPath st.root digest with
    | none => (st, .error .io)
    | some path =>
        -- Already present: drop the upload and let both names share the one copy.
        if (stat st.files path).isSome then
          (st.withFiles (unlink sys st.files tmpPath).1, .ok ())
        else
          match rename sys st.files tmpPath path with
          | none => (st, .error .io)
          | some files => (st.withFiles files, .ok ())

/-- The tail of `store_publish`: a link made under tmp/ and renamed over the
final name. -/
def publishLink (sys : Sys) (st : Store) (linkPath : Path) (digest : Bytes) :
    Store × StoreResult :=
  if pathMax ≤ (blobTarget digest).length then (st, .error .io)
  else
    let tmpLink := Path.tmp (.pub st.pid st.tmpCounter)
    let counted := { st with tmpCounter := st.tmpCounter + 1 }
    let cleared := (unlink sys st.files tmpLink).1
    match symlink sys cleared (blobTarget digest) tmpLink with
    | none => (counted.withFiles cleared, .error .io)
    | some linked =>
        match rename sys linked tmpLink linkPath with
        | none => (counted.withFiles (unlink sys linked tmpLink).1, .error .io)
        | some files => (counted.withFiles files, .ok ())

def storePublish (sys : Sys) (st : Store) (name digest : Bytes) : Store × StoreResult :=
  if storeNameIsValid name = false then (st, .error .invalidName)
  else if storeDigestIsValid digest = false then (st, .error .io)
  else if (storeBlobExists st digest).isNone then (st, .error .notFound)
  else
    match storeResolve st name with
    | .ok existing =>
        -- An idempotent republish of identical bytes, or a conflict.
        if existing = digest then (st, .ok ()) else (st, .error .conflict)
    | .error .notFound =>
        match entryPath st.root name with
        | none => (st, .error .invalidName)
        | some path => publishLink sys st path digest
    | .error error => (st, .error error)

/-- The path of the detached signature that `store_unpublish` removes. -/
def signaturePath (root : Root) (name : Bytes) : Option Path :=
  (storeSignatureName name).bind (entryPath root)

/-- The result and the `signature_removed` flag of `store_unpublish`. -/
structure Unpublished where
  store : Store
  result : StoreResult
  signatureRemoved : Bool

/-- The second unlink of `store_unpublish`. -/
def unpublishEntry (sys : Sys) (st : Store) (path : Path) (signatureRemoved : Bool) :
    Unpublished :=
  match unlink sys st.files path with
  | (files, .done) => ⟨st.withFiles files, .ok (), signatureRemoved⟩
  | (files, .absent) => ⟨st.withFiles files, .error .notFound, signatureRemoved⟩
  | (files, .failed) => ⟨st.withFiles files, .error .io, signatureRemoved⟩

def storeUnpublish (sys : Sys) (st : Store) (name : Bytes) : Unpublished :=
  if storeNameIsValid name = false then ⟨st, .error .invalidName, false⟩
  else
    match entryPath st.root name with
    | none => ⟨st, .error .invalidName, false⟩
    | some path =>
        -- The signature goes first, and its absence is not an error.
        match signaturePath st.root name with
        | none => unpublishEntry sys st path false
        | some sigPath =>
            match unlink sys st.files sigPath with
            | (files, .done) => unpublishEntry sys (st.withFiles files) path true
            | (files, .absent) => unpublishEntry sys (st.withFiles files) path false
            | (files, .failed) => ⟨st.withFiles files, .error .io, false⟩

/-! ## Blobs -/

section Blobs

variable {sys : Sys} {st : Store} {digest : Bytes}

theorem blobPath_of_valid (root : Root) (valid : storeDigestIsValid digest = true) :
    blobPath root digest = some (.blobs digest) := by
  apply blobPath_of_lt
  rw [storeDigestIsValid_length valid]
  decide

theorem storeBlobExists_of_valid (valid : storeDigestIsValid digest = true) :
    storeBlobExists st digest = (stat st.files (.blobs digest)).map List.length := by
  unfold storeBlobExists
  rw [if_neg (by simp [valid]), blobPath_of_valid st.root valid]

/-- Adopting a staged file leaves packages/ alone. -/
theorem storeBlobAdopt_tmp_packages (sys : Sys) (st : Store) (tmp : TmpName) (digest : Bytes) :
    packagesOf (storeBlobAdopt sys st (.tmp tmp) digest).1.files = packagesOf st.files := by
  unfold storeBlobAdopt
  split
  next => rfl
  next =>
    split
    next => rfl
    next path located =>
      obtain rfl := blobPath_eq_some located
      split
      next => exact packagesOf_unlink_tmp tmp
      next =>
        split
        next => rfl
        next after renamed =>
          obtain ⟨node, _, rfl⟩ := rename_eq_some renamed
          simp

theorem storeBlobExists_isNone (valid : storeDigestIsValid digest = true) :
    (storeBlobExists st digest).isNone = (stat st.files (.blobs digest)).isNone := by
  rw [storeBlobExists_of_valid valid, Option.isNone_map]

/-- What adopting a file does to the tree. -/
theorem storeBlobAdopt_of_valid (valid : storeDigestIsValid digest = true) (tmpPath : Path) :
    storeBlobAdopt sys st tmpPath digest =
      if (stat st.files (.blobs digest)).isSome then
        (st.withFiles (unlink sys st.files tmpPath).1, .ok ())
      else
        match rename sys st.files tmpPath (.blobs digest) with
        | none => (st, .error .io)
        | some files => (st.withFiles files, .ok ()) := by
  unfold storeBlobAdopt
  rw [if_neg (by simp [valid]), blobPath_of_valid st.root valid]

end Blobs

/-! ## Publishing -/

section Publishing

variable {sys : Sys} {st : Store} {name digest : Bytes}

private theorem blobTarget_short (valid : storeDigestIsValid digest = true) :
    ¬ pathMax ≤ (blobTarget digest).length := by
  have length := storeDigestIsValid_length valid
  have prefixLength : blobsPrefix.length = 9 := by decide
  unfold blobTarget pathMax
  unfold storeSha256HexLen at length
  rw [List.length_append]
  omega

/-- The tail of a publish writes the entry or, when a call fails, nothing that
is visible outside tmp/. -/
theorem publishLink_spec (sys : Sys) (st : Store) (name : Bytes)
    (valid : storeDigestIsValid digest = true) :
    ((publishLink sys st (.packages name) digest).2 = .ok () ∧
        packagesOf (publishLink sys st (.packages name) digest).1.files =
          Function.update (packagesOf st.files) name (some (.symlink (blobTarget digest))) ∨
      (publishLink sys st (.packages name) digest).2 = .error .io ∧
        packagesOf (publishLink sys st (.packages name) digest).1.files =
          packagesOf st.files) ∧
    blobsOf (publishLink sys st (.packages name) digest).1.files = blobsOf st.files ∧
    ∀ other, other ≠ .pub st.pid st.tmpCounter →
      tmpOf (publishLink sys st (.packages name) digest).1.files other = tmpOf st.files other := by
  unfold publishLink
  rw [if_neg (blobTarget_short valid)]
  dsimp only
  split
  next =>
    refine ⟨Or.inr ⟨rfl, packagesOf_unlink_tmp _⟩, blobsOf_unlink_tmp _, ?_⟩
    intro other different
    exact tmpOf_unlink_tmp different
  next linked made =>
    obtain ⟨_, rfl⟩ := symlink_eq_some made
    split
    next =>
      refine ⟨Or.inr ⟨rfl, ?_⟩, ?_, ?_⟩
      · simp [packagesOf_unlink_tmp]
      · simp [blobsOf_unlink_tmp]
      · intro other different
        show tmpOf (unlink sys _ _).1 other = _
        rw [tmpOf_unlink_tmp different, tmpOf_update_tmp, Function.update_of_ne different,
          tmpOf_unlink_tmp different]
    next files renamed =>
      obtain ⟨node, present, rfl⟩ := rename_eq_some renamed
      rw [Function.update_self] at present
      have same := Option.some.inj present
      subst same
      refine ⟨Or.inl ⟨rfl, ?_⟩, ?_, ?_⟩
      · simp [packagesOf_unlink_tmp]
      · simp [blobsOf_unlink_tmp]
      · intro other different
        simp [Function.update_of_ne different, tmpOf_unlink_tmp different]

theorem publishLink_of_succeeds (succeeds : sys.Succeeds) (st : Store) (name : Bytes)
    (valid : storeDigestIsValid digest = true) :
    (publishLink sys st (.packages name) digest).2 = .ok () ∧
      tmpOf (publishLink sys st (.packages name) digest).1.files =
        Function.update (tmpOf st.files) (.pub st.pid st.tmpCounter) none := by
  have cleared := unlink_of_not_failed
    (unlink_not_failed succeeds st.files (.tmp (.pub st.pid st.tmpCounter)))
  unfold publishLink
  rw [if_neg (blobTarget_short valid)]
  dsimp only
  rw [cleared, symlink_of_absent (Function.update_self ..) (succeeds _)]
  dsimp only
  rw [rename_of_present (Function.update_self ..) (succeeds _)]
  simp

/-- What a publish does to packages/: nothing, or one new entry for a name
that resolved to nothing. -/
inductive PublishOutcome (st : Store) (name digest : Bytes) (out : Store × StoreResult) : Prop
  | kept (packages : packagesOf out.1.files = packagesOf st.files)
      (ok : out.2 = .ok () → storeResolve st name = .ok digest)
  | linked (canonical : Bytes) (form : canonicalForm name = some canonical)
      (valid : storeDigestIsValid digest = true)
      (present : (stat st.files (.blobs digest)).isSome)
      (free : storeResolve st name = .error .notFound)
      (ok : out.2 = .ok ())
      (packages : packagesOf out.1.files =
        Function.update (packagesOf st.files) canonical (some (.symlink (blobTarget digest))))

/-- A publish whose preconditions hold, decided by resolution. -/
theorem storePublish_eq (sys : Sys) {canonical : Bytes} (form : canonicalForm name = some canonical)
    (valid : storeDigestIsValid digest = true)
    (present : (stat st.files (.blobs digest)).isSome) :
    storePublish sys st name digest =
      match storeResolve st name with
      | .ok existing => if existing = digest then (st, .ok ()) else (st, .error .conflict)
      | .error .notFound => publishLink sys st (.packages canonical) digest
      | .error error => (st, .error error) := by
  have there : ¬ (storeBlobExists st digest).isNone = true := by
    rw [storeBlobExists_isNone valid, Option.isNone_iff_eq_none]
    exact Option.isSome_iff_ne_none.mp present
  unfold storePublish
  rw [if_neg (by simp [canonicalForm_valid form]), if_neg (by simp [valid]), if_neg there,
    entryPath_of_canonicalForm form]

/-- Without canonical form, valid digest or blob a publish only answers. -/
theorem storePublish_refused (sys : Sys)
    (refused : canonicalForm name = none ∨ storeDigestIsValid digest = false ∨
      stat st.files (.blobs digest) = none) :
    ∃ error, error ≠ .conflict ∧ storePublish sys st name digest = (st, .error error) := by
  unfold storePublish
  by_cases nameValid : storeNameIsValid name = false
  · exact ⟨_, by simp, if_pos nameValid⟩
  rw [if_neg nameValid]
  by_cases invalid : storeDigestIsValid digest = false
  · exact ⟨_, by simp, if_pos invalid⟩
  rw [if_neg invalid]
  have valid : storeDigestIsValid digest = true := by simpa using invalid
  rw [storeBlobExists_isNone valid]
  by_cases missing : (stat st.files (.blobs digest)).isNone = true
  · exact ⟨_, by simp, if_pos missing⟩
  rw [if_neg missing]
  have noForm : canonicalForm name = none := by
    rcases refused with noForm | bad | absent
    · exact noForm
    · exact absurd bad invalid
    · exact absurd (by simp [absent]) missing
  rw [storeResolve_of_none noForm]
  exact ⟨_, by simp, rfl⟩

theorem storePublish_blobs (sys : Sys) (st : Store) (name digest : Bytes) :
    blobsOf (storePublish sys st name digest).1.files = blobsOf st.files := by
  by_cases refused : canonicalForm name = none ∨ storeDigestIsValid digest = false ∨
      stat st.files (.blobs digest) = none
  · obtain ⟨error, _, same⟩ := storePublish_refused sys refused
    rw [same]
  · simp only [not_or, Bool.not_eq_false, ← Option.isSome_iff_ne_none] at refused
    obtain ⟨named, valid, present⟩ := refused
    obtain ⟨canonical, form⟩ := Option.isSome_iff_exists.mp named
    rw [storePublish_eq sys form valid present]
    split
    next => split <;> rfl
    next => exact (publishLink_spec sys st canonical valid).2.1
    next => rfl

theorem storePublish_outcome (sys : Sys) (st : Store) (name digest : Bytes) :
    PublishOutcome st name digest (storePublish sys st name digest) := by
  by_cases refused : canonicalForm name = none ∨ storeDigestIsValid digest = false ∨
      stat st.files (.blobs digest) = none
  · obtain ⟨error, _, same⟩ := storePublish_refused sys refused
    rw [same]
    exact .kept rfl (by simp)
  · simp only [not_or, Bool.not_eq_false, ← Option.isSome_iff_ne_none] at refused
    obtain ⟨named, valid, present⟩ := refused
    obtain ⟨canonical, form⟩ := Option.isSome_iff_exists.mp named
    rw [storePublish_eq sys form valid present]
    split
    next existing resolved =>
      split
      next same => exact .kept rfl fun _ => same ▸ resolved
      next => exact .kept rfl (by simp)
    next free =>
      rcases (publishLink_spec sys st canonical valid).1 with
        done | failed
      · exact .linked canonical form valid present free done.1 done.2
      · exact .kept failed.2 (by simp [failed.1])
    next => exact .kept rfl (by simp)

/-- The staging files of other processes and operations stay. -/
theorem storePublish_tmp {other : TmpName} (different : other ≠ .pub st.pid st.tmpCounter) :
    tmpOf (storePublish sys st name digest).1.files other = tmpOf st.files other := by
  by_cases refused : canonicalForm name = none ∨ storeDigestIsValid digest = false ∨
      stat st.files (.blobs digest) = none
  · obtain ⟨error, _, same⟩ := storePublish_refused sys refused
    rw [same]
  · simp only [not_or, Bool.not_eq_false, ← Option.isSome_iff_ne_none] at refused
    obtain ⟨named, valid, present⟩ := refused
    obtain ⟨canonical, form⟩ := Option.isSome_iff_exists.mp named
    rw [storePublish_eq sys form valid present]
    split
    next => split <;> rfl
    next => exact (publishLink_spec sys st canonical valid).2.2 other different
    next => rfl

end Publishing

/-! ## Withdrawing -/

/-- The canonical name of the signature that goes with a name. -/
def signatureOf (name : Bytes) : Option Bytes := (storeSignatureName name).bind canonicalForm

theorem signaturePath_eq (root : Root) (name : Bytes) :
    signaturePath root name = (signatureOf name).map Path.packages := by
  unfold signaturePath signatureOf
  cases storeSignatureName name with
  | none => rfl
  | some sig =>
      show entryPath root sig = (canonicalForm sig).map Path.packages
      cases form : canonicalForm sig with
      | none => exact entryPath_of_none form root
      | some out => exact entryPath_of_canonicalForm form root

theorem signatureOf_eq {name canonical : Bytes} (form : canonicalForm name = some canonical) :
    signatureOf name =
      if storeIsSignature name = true ∨ storeNameMax ≤ name.length + storeSigExt.length ∨
          storeNameMax ≤ canonical.length + storeSigExt.length then none
      else some (canonical ++ storeSigExt) := by
  have valid := canonicalForm_valid form
  unfold signatureOf
  cases artifact : storeIsSignature name with
  | true => simp [storeSignatureName, artifact]
  | false =>
      rw [storeSignatureName_eq valid artifact]
      by_cases long : storeNameMax ≤ name.length + storeSigExt.length
      · simp [long]
      · have found : storeSignatureName name = some (name ++ storeSigExt) := by
          rw [storeSignatureName_eq valid artifact, if_neg long]
        rw [if_neg long, Option.bind_some, canonicalForm_signature found form]
        simp [long]

theorem signatureOf_some {name canonical sig : Bytes}
    (form : canonicalForm name = some canonical) (found : signatureOf name = some sig) :
    sig = canonical ++ storeSigExt := by
  rw [signatureOf_eq form] at found
  split at found
  next => contradiction
  next => exact (Option.some.inj found).symm

/-- packages/ without an entry and, when there is one, its signature. -/
def withdraw (packages : Bytes → Option Node) (sig : Option Bytes) (canonical : Bytes) :
    Bytes → Option Node :=
  match sig with
  | none => Function.update packages canonical none
  | some sigName => Function.update (Function.update packages sigName none) canonical none

theorem withdraw_self (packages : Bytes → Option Node) (sig : Option Bytes) (canonical : Bytes) :
    withdraw packages sig canonical canonical = none := by
  cases sig with
  | none => exact Function.update_self ..
  | some sigName => exact Function.update_self ..

theorem withdraw_of_ne {packages : Bytes → Option Node} {sig : Option Bytes}
    {canonical other : Bytes} (notOwn : other ≠ canonical)
    (notSig : ∀ sigName, sig = some sigName → other ≠ sigName) :
    withdraw packages sig canonical other = packages other := by
  cases sig with
  | none => exact Function.update_of_ne notOwn _ _
  | some sigName =>
      unfold withdraw
      dsimp only
      rw [Function.update_of_ne notOwn, Function.update_of_ne (notSig sigName rfl)]

theorem signature_ne (canonical : Bytes) : canonical ++ storeSigExt ≠ canonical := by
  intro same
  have length := congrArg List.length same
  have positive : storeSigExt.length = 8 := by decide
  rw [List.length_append] at length
  omega

section Withdrawing

variable {sys : Sys} {st : Store} {name canonical : Bytes}

theorem storeUnpublish_of_none (noForm : canonicalForm name = none) :
    storeUnpublish sys st name = ⟨st, .error .invalidName, false⟩ := by
  unfold storeUnpublish
  rw [entryPath_of_none noForm]
  split <;> rfl

theorem storeUnpublish_eq (form : canonicalForm name = some canonical) :
    storeUnpublish sys st name =
      match signatureOf name with
      | none => unpublishEntry sys st (.packages canonical) false
      | some sig =>
          match unlink sys st.files (.packages sig) with
          | (files, .done) => unpublishEntry sys (st.withFiles files) (.packages canonical) true
          | (files, .absent) => unpublishEntry sys (st.withFiles files) (.packages canonical) false
          | (files, .failed) => ⟨st.withFiles files, .error .io, false⟩ := by
  unfold storeUnpublish
  rw [if_neg (by simp [canonicalForm_valid form]), entryPath_of_canonicalForm form,
    signaturePath_eq]
  cases signatureOf name <;> rfl

theorem unpublishEntry_files (path : Path) (flag : Bool) :
    (unpublishEntry sys st path flag).store.files = (unlink sys st.files path).1 := by
  unfold unpublishEntry
  split
  next split => rw [split]; rfl
  next split => rw [split]; rfl
  next split => rw [split]; rfl

private theorem unpublishEntry_answered {path : Path} {flag : Bool}
    (answered : (unpublishEntry sys st path flag).result ≠ .error .io) :
    (unlink sys st.files path).2 ≠ .failed := by
  intro failed
  unfold unpublishEntry at answered
  split at answered
  next split => rw [split] at failed; contradiction
  next split => rw [split] at failed; contradiction
  next => exact answered rfl

/-- An unpublish that answers OK or NOT_FOUND leaves neither the entry nor its
signature. -/
theorem storeUnpublish_answered (form : canonicalForm name = some canonical)
    (answered : (storeUnpublish sys st name).result ≠ .error .io) :
    packagesOf (storeUnpublish sys st name).store.files =
      withdraw (packagesOf st.files) (signatureOf name) canonical := by
  rw [storeUnpublish_eq form] at answered ⊢
  cases sig : signatureOf name with
  | none =>
      rw [sig] at answered
      dsimp only at answered ⊢
      rw [unpublishEntry_files, unlink_of_not_failed (unpublishEntry_answered answered),
        packagesOf_update_packages]
      rfl
  | some sigName =>
      rw [sig] at answered
      dsimp only at answered ⊢
      split at answered
      next files removed =>
        have gone := unlink_of_not_failed (by rw [removed]; simp :
          (unlink sys st.files (.packages sigName)).2 ≠ .failed)
        rw [removed] at gone
        dsimp only at gone
        rw [unpublishEntry_files, unlink_of_not_failed (unpublishEntry_answered answered),
          Store.withFiles_files, gone]
        simp [withdraw]
      next files absent =>
        have gone := unlink_of_not_failed (by rw [absent]; simp :
          (unlink sys st.files (.packages sigName)).2 ≠ .failed)
        rw [absent] at gone
        dsimp only at gone
        rw [unpublishEntry_files, unlink_of_not_failed (unpublishEntry_answered answered),
          Store.withFiles_files, gone]
        simp [withdraw]
      next => exact absurd rfl answered

/-- The tree an unpublish leaves comes from unlinks of the entry and its signature. -/
theorem storeUnpublish_induct {motive : Files → Prop} (start : motive st.files)
    (step : ∀ files entry, canonicalForm name = some entry ∨ signatureOf name = some entry →
      motive files → motive (unlink sys files (.packages entry)).1) :
    motive (storeUnpublish sys st name).store.files := by
  cases form : canonicalForm name with
  | none =>
      rw [storeUnpublish_of_none form]
      exact start
  | some canonical =>
      rw [storeUnpublish_eq form]
      split
      next =>
        rw [unpublishEntry_files]
        exact step _ _ (Or.inl form) start
      next sig found =>
        have first := step _ sig (Or.inr found) start
        split
        next removed =>
          rw [removed] at first
          rw [unpublishEntry_files]
          exact step _ _ (Or.inl form) first
        next absent =>
          rw [absent] at first
          rw [unpublishEntry_files]
          exact step _ _ (Or.inl form) first
        next failed =>
          rw [failed] at first
          exact first

theorem storeUnpublish_blobs (sys : Sys) (st : Store) (name : Bytes) :
    blobsOf (storeUnpublish sys st name).store.files = blobsOf st.files := by
  apply storeUnpublish_induct (motive := fun files => blobsOf files = blobsOf st.files) rfl
  intro files entry _ same
  rw [blobsOf_unlink_packages, same]

theorem storeUnpublish_shrinks (sys : Sys) (st : Store) (name : Bytes) :
    Shrinks (packagesOf st.files) (packagesOf (storeUnpublish sys st name).store.files) := by
  apply storeUnpublish_induct
    (motive := fun files => Shrinks (packagesOf st.files) (packagesOf files)) (Shrinks.refl _)
  intro files entry _ shrinks
  exact shrinks.trans (shrinks_unlink_packages entry)

/-- Every other entry stays, whatever fails. -/
theorem storeUnpublish_of_ne (sys : Sys) (st : Store) {other : Bytes}
    (notOwn : canonicalForm name ≠ some other) (notSig : signatureOf name ≠ some other) :
    packagesOf (storeUnpublish sys st name).store.files other = packagesOf st.files other := by
  apply storeUnpublish_induct
    (motive := fun files => packagesOf files other = packagesOf st.files other) rfl
  intro files entry touched same
  rcases unlink_files sys files (.packages entry) with untouched | removed
  · rw [untouched, same]
  · have different : other ≠ entry := by
      rintro rfl
      rcases touched with own | sig
      · exact notOwn own
      · exact notSig sig
    rw [removed, packagesOf_update_packages, Function.update_of_ne different, same]

private theorem unpublishEntry_not_io (succeeds : sys.Succeeds) (path : Path) (flag : Bool) :
    (unpublishEntry sys st path flag).result ≠ .error .io := by
  unfold unpublishEntry
  split
  next => simp
  next => simp
  next failed =>
    have answered := unlink_not_failed succeeds st.files path
    rw [failed] at answered
    exact absurd rfl answered

private theorem unpublishEntry_result (succeeds : sys.Succeeds) (path : Path) (flag : Bool) :
    (unpublishEntry sys st path flag).result =
      if (st.files path).isSome then .ok () else .error .notFound := by
  have outcome := unlink_done_iff succeeds st.files path
  unfold unpublishEntry
  split
  next removed =>
    rw [removed] at outcome
    split at outcome
    next present => rw [if_pos present]
    next => contradiction
  next absent =>
    rw [absent] at outcome
    split at outcome
    next => contradiction
    next missing => rw [if_neg missing]
  next failed =>
    rw [failed] at outcome
    split at outcome
    next => contradiction
    next => contradiction

/-- When calls succeed, a withdrawal answers by the entry alone. -/
theorem storeUnpublish_result (succeeds : sys.Succeeds)
    (form : canonicalForm name = some canonical) :
    (storeUnpublish sys st name).result =
      if (packagesOf st.files canonical).isSome then .ok () else .error .notFound := by
  rw [storeUnpublish_eq form]
  cases found : signatureOf name with
  | none => exact unpublishEntry_result succeeds _ _
  | some sig =>
      have different : Path.packages canonical ≠ .packages sig := by
        rw [signatureOf_some form found]
        intro same
        exact signature_ne canonical (Path.packages.inj same).symm
      have gone := unlink_of_not_failed
        (unlink_not_failed succeeds st.files (.packages sig))
      dsimp only
      split
      next removed =>
        rw [removed] at gone
        dsimp only at gone
        rw [unpublishEntry_result succeeds, Store.withFiles_files, gone,
          Function.update_of_ne different]
        rfl
      next absent =>
        rw [absent] at gone
        dsimp only at gone
        rw [unpublishEntry_result succeeds, Store.withFiles_files, gone,
          Function.update_of_ne different]
        rfl
      next failed =>
        have answered := unlink_not_failed succeeds st.files (.packages sig)
        rw [failed] at answered
        exact absurd rfl answered

theorem storeUnpublish_not_io (succeeds : sys.Succeeds) (name : Bytes) :
    (storeUnpublish sys st name).result ≠ .error .io := by
  cases form : canonicalForm name with
  | none =>
      rw [storeUnpublish_of_none form]
      simp
  | some canonical =>
      rw [storeUnpublish_eq form]
      split
      next => exact unpublishEntry_not_io succeeds _ _
      next sig _ =>
        split
        next => exact unpublishEntry_not_io succeeds _ _
        next => exact unpublishEntry_not_io succeeds _ _
        next failed =>
          have answered := unlink_not_failed succeeds st.files (.packages sig)
          rw [failed] at answered
          exact absurd rfl answered

end Withdrawing

end CixCache
