import CixCache.Store.Publish

/-!
Contract: two spellings of one name, as the store sees them.

Owns: that resolution and publication factor through the canonical form;
`Indistinguishable`, what equal canonical forms promise about all three
operations; and the exact stores and spellings for which the promise holds.
The withdrawal derives the signature's name from the spelling it is given, in a
STORE_NAME_MAX buffer, so a spelling too long for that buffer leaves the
signature behind.

Does not own: the operations (`Store.Publish`).
-/

namespace CixCache

section Canonical

variable {sys : Sys} {st : Store} {name canonical : Bytes}

theorem storeResolveAs_canonical (form : canonicalForm name = some canonical) :
    storeResolveAs st name = storeResolveAs st canonical := by
  have fixed := canonicalForm_fixed form
  cases arch : storeArchOf canonical with
  | some word =>
      have carries : (storeArchOf canonical).isSome := by simp [arch]
      rw [storeResolveAs_qualified form carries, storeResolveAs_qualified fixed carries]
  | none =>
      by_cases unreadable : resolvePath st.files (.packages canonical) = .error .io
      · rw [storeResolveAs_io form unreadable, storeResolveAs_io fixed unreadable]
      · rw [storeResolveAs_bare form arch unreadable, storeResolveAs_bare fixed arch unreadable]

theorem storeResolve_canonical (form : canonicalForm name = some canonical) :
    storeResolve st name = storeResolve st canonical := by
  unfold storeResolve
  rw [storeResolveAs_canonical form]

theorem storePublish_canonical (form : canonicalForm name = some canonical) (digest : Bytes) :
    storePublish sys st name digest = storePublish sys st canonical digest := by
  have fixed := canonicalForm_fixed form
  unfold storePublish
  rw [canonicalForm_valid form, canonicalForm_valid fixed, storeResolve_canonical form, entryPath_of_canonicalForm form,
    entryPath_of_canonicalForm fixed]

end Canonical

/-! ## Spellings -/

/-- What the store promises two spellings of the canonical name. -/
structure Indistinguishable (sys : Sys) (st : Store) (x y canonical : Bytes) : Prop where
  resolve : storeResolveAs st x = storeResolveAs st y
  publish : ∀ digest, storePublish sys st x digest = storePublish sys st y digest
  unpublish : storeUnpublish sys st x = storeUnpublish sys st y
  signature : ∀ spelling, spelling = x ∨ spelling = y →
    canonicalForm (canonical ++ storeSigExt) = some (canonical ++ storeSigExt) →
    (storeUnpublish sys st spelling).result ≠ .error .io →
    packagesOf (storeUnpublish sys st spelling).store.files (canonical ++ storeSigExt) = none

/-- The spelling followed by `.minisig` fits a STORE_NAME_MAX buffer. -/
def SignatureFits (name : Bytes) : Prop := name.length + storeSigExt.length < storeNameMax

instance (name : Bytes) : Decidable (SignatureFits name) :=
  inferInstanceAs (Decidable (name.length + storeSigExt.length < storeNameMax))

/-- There is an entry under the name of the canonical name's signature. -/
def SignatureEntry (st : Store) (canonical : Bytes) : Prop :=
  canonicalForm (canonical ++ storeSigExt) = some (canonical ++ storeSigExt) ∧
    (packagesOf st.files (canonical ++ storeSigExt)).isSome

section Spellings

variable {sys : Sys} {st : Store} {name x y canonical : Bytes}

/-- An underivable signature name is not a name. -/
theorem signatureOf_of_noForm (form : canonicalForm name = some canonical)
    (noForm : canonicalForm (canonical ++ storeSigExt) ≠ some (canonical ++ storeSigExt)) :
    signatureOf name = none := by
  cases found : signatureOf name with
  | none => rfl
  | some sig =>
      obtain ⟨text, _, sigForm⟩ := Option.bind_eq_some_iff.mp found
      have fixed := canonicalForm_fixed sigForm
      rw [signatureOf_some form found] at fixed
      exact absurd fixed noForm

/-- The name of a signature that is a name belongs to an artifact. -/
theorem not_signature_of_signed (form : canonicalForm name = some canonical)
    (signed : canonicalForm (canonical ++ storeSigExt) = some (canonical ++ storeSigExt)) :
    storeIsSignature name = false := by
  rw [← storeIsSignature_congr (canonicalForm_suffix form)]
  cases signature : storeIsSignature canonical with
  | false => rfl
  | true =>
      have suffixed := (storeNameIsValid_iff.mp (canonicalForm_valid signed)).2.2
      rw [storeSuffixOf_doubly_signed signature] at suffixed
      contradiction

/-- A spelling derives the canonical signature's name exactly when its own
fits the buffer. -/
theorem signatureOf_of_signed (form : canonicalForm name = some canonical)
    (signed : canonicalForm (canonical ++ storeSigExt) = some (canonical ++ storeSigExt)) :
    signatureOf name =
      if SignatureFits name then some (canonical ++ storeSigExt) else none := by
  have artifact := not_signature_of_signed form signed
  have fits := storeNameIsValid.length_lt (canonicalForm_valid signed)
  rw [List.length_append] at fits
  rw [signatureOf_eq form]
  by_cases short : SignatureFits name
  · rw [if_pos short, if_neg]
    simp only [artifact, Bool.false_eq_true, false_or, not_or, not_le]
    exact ⟨short, fits⟩
  · rw [if_neg short, if_pos (Or.inr (Or.inl (Nat.le_of_not_lt short)))]

/-- A spelling that does not fit leaves the signature where it is. -/
theorem storeUnpublish_keeps_signature (form : canonicalForm name = some canonical)
    (signed : canonicalForm (canonical ++ storeSigExt) = some (canonical ++ storeSigExt))
    (overlong : ¬ SignatureFits name) :
    packagesOf (storeUnpublish sys st name).store.files (canonical ++ storeSigExt) =
      packagesOf st.files (canonical ++ storeSigExt) := by
  have underived : signatureOf name = none := by
    rw [signatureOf_of_signed form signed, if_neg overlong]
  rw [storeUnpublish_eq form, underived]
  dsimp only
  rw [unpublishEntry_files]
  rcases unlink_files sys st.files (.packages canonical) with same | removed
  · rw [same]
  · rw [removed, packagesOf_update_packages, Function.update_of_ne (signature_ne canonical)]

/-- Where two spellings derive the same signature, or there is none to remove,
a withdrawal does not tell them apart. -/
theorem storeUnpublish_congr (formX : canonicalForm x = some canonical)
    (formY : canonicalForm y = some canonical)
    (fits : SignatureEntry st canonical → SignatureFits x ∧ SignatureFits y) :
    storeUnpublish sys st x = storeUnpublish sys st y := by
  by_cases signed : canonicalForm (canonical ++ storeSigExt) = some (canonical ++ storeSigExt)
  · cases present : packagesOf st.files (canonical ++ storeSigExt) with
    | some node =>
        have both := fits ⟨signed, by simp [present]⟩
        rw [storeUnpublish_eq formX, storeUnpublish_eq formY, signatureOf_of_signed formX signed,
          signatureOf_of_signed formY signed, if_pos both.1, if_pos both.2]
    | none =>
        -- The unlink of an absent signature changes nothing.
        have absent : ∀ {spelling}, canonicalForm spelling = some canonical →
            storeUnpublish sys st spelling =
              unpublishEntry sys st (.packages canonical) false := by
          intro spelling form
          rw [storeUnpublish_eq form, signatureOf_of_signed form signed]
          by_cases short : SignatureFits spelling
          · rw [if_pos short]
            dsimp only
            rw [unlink_of_absent present]
            rfl
          · rw [if_neg short]
        rw [absent formX, absent formY]
  · rw [storeUnpublish_eq formX, storeUnpublish_eq formY, signatureOf_of_noForm formX signed,
      signatureOf_of_noForm formY signed]

/-- A withdrawal that answers removes a signature that is there and derived. -/
theorem storeUnpublish_removes_signature (form : canonicalForm name = some canonical)
    (signed : canonicalForm (canonical ++ storeSigExt) = some (canonical ++ storeSigExt))
    (fits : SignatureEntry st canonical → SignatureFits name)
    (answered : (storeUnpublish sys st name).result ≠ .error .io) :
    packagesOf (storeUnpublish sys st name).store.files (canonical ++ storeSigExt) = none := by
  by_cases present : (packagesOf st.files (canonical ++ storeSigExt)).isSome
  · rw [storeUnpublish_answered form answered, signatureOf_of_signed form signed,
      if_pos (fits ⟨signed, present⟩)]
    unfold withdraw
    dsimp only
    rw [Function.update_of_ne (signature_ne canonical), Function.update_self]
  · have absent : packagesOf st.files (canonical ++ storeSigExt) = none := by
      simpa using present
    rcases storeUnpublish_shrinks sys st name (canonical ++ storeSigExt) with same | removed
    · rw [same, absent]
    · exact removed

/-- Two spellings of one name are indistinguishable exactly when neither is
too long to derive a signature that is there. -/
theorem indistinguishable_iff (formX : canonicalForm x = some canonical)
    (formY : canonicalForm y = some canonical) :
    (∀ sys, Indistinguishable sys st x y canonical) ↔
      (SignatureEntry st canonical → SignatureFits x ∧ SignatureFits y) := by
  constructor
  · intro promised entry
    have succeeds := Sys.succeeds_succeeding fun _ => none
    have fits : ∀ spelling, spelling = x ∨ spelling = y →
        canonicalForm spelling = some canonical → SignatureFits spelling := by
      intro spelling either form
      by_contra overlong
      have gone := (promised _).signature spelling either entry.1
        (storeUnpublish_not_io succeeds spelling)
      rw [storeUnpublish_keeps_signature form entry.1 overlong] at gone
      have there := entry.2
      rw [gone] at there
      contradiction
    exact ⟨fits x (Or.inl rfl) formX, fits y (Or.inr rfl) formY⟩
  · intro fits sys
    refine ⟨?_, ?_, storeUnpublish_congr formX formY fits, ?_⟩
    · rw [storeResolveAs_canonical formX, storeResolveAs_canonical formY]
    · intro digest
      rw [storePublish_canonical formX, storePublish_canonical formY]
    · intro spelling either signed answered
      rcases either with rfl | rfl
      · exact storeUnpublish_removes_signature formX signed (fun entry => (fits entry).1) answered
      · exact storeUnpublish_removes_signature formY signed (fun entry => (fits entry).2) answered

end Spellings

/-! ### A spelling too long for its signature -/

/-- `foo-1-1.tar.gz` with its release written in 236 digits. -/
def paddedSpelling : Bytes := ascii "foo-1-" ++ List.replicate 235 zero ++ ascii "1.tar.gz"

def signedStore : Store :=
  Store.holding
    [(ascii "foo-1-1.tar.gz", List.replicate 64 97),
      (ascii "foo-1-1.tar.gz.minisig", List.replicate 64 98)] []

/-- The padded spelling removes the artifact and leaves its signature. -/
theorem padded_spelling_leaves_signature :
    canonicalForm paddedSpelling = some (ascii "foo-1-1.tar.gz") ∧
      canonicalForm (ascii "foo-1-1.tar.gz") = some (ascii "foo-1-1.tar.gz") ∧
      (storeUnpublish (Sys.succeeding fun _ => none) signedStore
        paddedSpelling).signatureRemoved = false ∧
      (storeUnpublish (Sys.succeeding fun _ => none) signedStore
        (ascii "foo-1-1.tar.gz")).signatureRemoved = true ∧
      ¬ Indistinguishable (Sys.succeeding fun _ => none) signedStore paddedSpelling
        (ascii "foo-1-1.tar.gz") (ascii "foo-1-1.tar.gz") := by
  obtain ⟨paddedForm, ownForm, left, removed⟩ :
      canonicalForm paddedSpelling = some (ascii "foo-1-1.tar.gz") ∧
        canonicalForm (ascii "foo-1-1.tar.gz") = some (ascii "foo-1-1.tar.gz") ∧
        (storeUnpublish (Sys.succeeding fun _ => none) signedStore
          paddedSpelling).signatureRemoved = false ∧
        (storeUnpublish (Sys.succeeding fun _ => none) signedStore
          (ascii "foo-1-1.tar.gz")).signatureRemoved = true := by
    decide +kernel
  refine ⟨paddedForm, ownForm, left, removed, ?_⟩
  intro promised
  rw [promised.unpublish, removed] at left
  exact absurd left (by simp)

/-- Spellings of ordinary length are indistinguishable. -/
theorem indistinguishable_short_spellings :
    Indistinguishable (.succeeding fun _ => none) signedStore (ascii "foo-1.tar.gz")
      (ascii "foo-1-01.tar.gz") (ascii "foo-1-1.tar.gz") :=
  (indistinguishable_iff (by decide) (by decide)).mpr (fun _ => by decide) _

end CixCache
