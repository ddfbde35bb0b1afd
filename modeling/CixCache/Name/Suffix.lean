import Mathlib.Data.List.Chain
import CixCache.Name.Bytes

/-!
Contract: the suffix table of the store and the whitelist of published names.

Owns: `gSuffixes` and every question the store answers from it (the suffix of
a name, its tier, whether it is a signature, whether policy requires one), the
name of a detached signature, and `storeNameIsValid` with its structural
reading `NameText`.

No suffix of the table ends another one, so the longest-first order of the
table never decides an answer: `suffixRecord_append` finds the row from the
text alone.

Does not own: releases, architectures, canonical form.
-/

namespace CixCache

/-- STORE_NAME_MAX -/
def storeNameMax : Nat := 256

/-- STORE_SHA256_HEX_LEN -/
def storeSha256HexLen : Nat := 64

/-- STORE_SIG_EXT -/
def storeSigExt : Bytes := ascii ".minisig"

/-! ## The table -/

/-- `struct suffix` without its `require_sig` column, which is configuration. -/
structure Suffix where
  ext : Bytes
  installer : Bool
deriving DecidableEq, Repr

/-- The `require_sig` column: which suffixes may not be published unsigned. -/
abbrev SignaturePolicy := Bytes → Bool

def gSuffixes : List Suffix :=
  [⟨ascii ".tar.gz.minisig", false⟩, ⟨ascii ".cixpkg.minisig", false⟩,
    ⟨ascii ".iso.minisig", true⟩, ⟨ascii ".tar.gz", false⟩,
    ⟨ascii ".cixpkg", false⟩, ⟨ascii ".iso", true⟩]

/-- The policy the table is initialised with. -/
def initialPolicy : SignaturePolicy := fun ext => ext == ascii ".iso"

def suffixRecord (name : Bytes) : Option Suffix :=
  gSuffixes.find? fun row => endsWith name row.ext

def storeSuffixOf (name : Bytes) : Option Bytes :=
  (suffixRecord name).map Suffix.ext

/-- A suffix is a signature's when it properly ends in `.minisig`. -/
def extIsSignature (ext : Bytes) : Bool := endsWith ext storeSigExt

def storeIsSignature (name : Bytes) : Bool :=
  match storeSuffixOf name with
  | some ext => extIsSignature ext
  | none => false

def storeIsInstaller (name : Bytes) : Bool :=
  match suffixRecord name with
  | some row => row.installer
  | none => false

def storeNeedsSignature (policy : SignaturePolicy) (name : Bytes) : Bool :=
  match suffixRecord name with
  | some row => policy row.ext
  | none => false

/-- Length of the name without its suffix. -/
def stemLen (name : Bytes) : Nat :=
  match storeSuffixOf name with
  | some ext => name.length - ext.length
  | none => name.length

/-! ## The whitelist -/

def nameByte (c : Byte) : Bool :=
  isUpper c || isLower c || isDigit c || c == dot || c == underscore || c == dash

/-- The character loop: whitelisted bytes only, and no `..`. -/
def nameBytesOk : Bytes → Bool
  | [] => true
  | c :: rest =>
      nameByte c && !(c == dot && rest.head? == some dot) && nameBytesOk rest

def storeNameIsValid (name : Bytes) : Bool :=
  match name with
  | [] => false
  | first :: _ =>
      if first = dot then false
      else if storeNameMax ≤ name.length then false
      else nameBytesOk name && (storeSuffixOf name).isSome

/-- `<name>.minisig`; every caller's buffer holds STORE_NAME_MAX bytes. -/
def storeSignatureName (name : Bytes) : Option Bytes :=
  if !storeNameIsValid name || storeIsSignature name then none
  else if storeNameMax ≤ (name ++ storeSigExt).length then none
  else some (name ++ storeSigExt)

/-! ## Reading a suffix off a name -/

private theorem suffix_table_free :
    ∀ row ∈ gSuffixes, ∀ other ∈ gSuffixes, row.ext <:+ other.ext → row = other := by
  decide

theorem suffixRecord_some {name : Bytes} {row : Suffix}
    (found : suffixRecord name = some row) :
    row ∈ gSuffixes ∧ ∃ stem, stem ≠ [] ∧ name = stem ++ row.ext :=
  ⟨List.mem_of_find?_eq_some found,
    endsWith_iff.mp (by simpa using List.find?_some found)⟩

/-- A stem followed by a recognised suffix has exactly that suffix. -/
theorem suffixRecord_append {stem : Bytes} {row : Suffix} (known : row ∈ gSuffixes)
    (nonempty : stem ≠ []) : suffixRecord (stem ++ row.ext) = some row := by
  have matching : endsWith (stem ++ row.ext) row.ext = true :=
    endsWith_iff.mpr ⟨stem, nonempty, rfl⟩
  cases found : suffixRecord (stem ++ row.ext) with
  | none =>
      have missing := List.find?_eq_none.mp found row known
      exact absurd matching (by simpa using missing)
  | some other =>
      obtain ⟨otherKnown, front, _, same⟩ := suffixRecord_some found
      have ends : row.ext <:+ stem ++ row.ext := List.suffix_append _ _
      have otherEnds : other.ext <:+ stem ++ row.ext := ⟨front, same.symm⟩
      rcases List.suffix_or_suffix_of_suffix ends otherEnds with shorter | longer
      · rw [suffix_table_free row known other otherKnown shorter]
      · rw [suffix_table_free other otherKnown row known longer]

theorem storeSuffixOf_some {name ext : Bytes} (found : storeSuffixOf name = some ext) :
    ∃ row ∈ gSuffixes, row.ext = ext ∧ ∃ stem, stem ≠ [] ∧ name = stem ++ ext := by
  obtain ⟨row, record, rfl⟩ := Option.map_eq_some_iff.mp found
  obtain ⟨known, shape⟩ := suffixRecord_some record
  exact ⟨row, known, rfl, shape⟩

theorem storeSuffixOf_append {stem : Bytes} {row : Suffix} (known : row ∈ gSuffixes)
    (nonempty : stem ≠ []) : storeSuffixOf (stem ++ row.ext) = some row.ext := by
  simp [storeSuffixOf, suffixRecord_append known nonempty]

theorem stemLen_append {stem : Bytes} {row : Suffix} (known : row ∈ gSuffixes)
    (nonempty : stem ≠ []) : stemLen (stem ++ row.ext) = stem.length := by
  simp [stemLen, storeSuffixOf_append known nonempty]

/-- A suffix that is not a signature's has its signature's row in the table. -/
theorem signature_row :
    ∀ row ∈ gSuffixes, extIsSignature row.ext = false →
      ∃ signed ∈ gSuffixes, signed.ext = row.ext ++ storeSigExt := by
  decide

private theorem doubly_signed_free :
    ∀ row ∈ gSuffixes, extIsSignature row.ext = true → ∀ other ∈ gSuffixes,
      ¬ other.ext <:+ row.ext ++ storeSigExt ∧ ¬ row.ext ++ storeSigExt <:+ other.ext := by
  decide

/-- A signature has no signature: the table ends no name in `.minisig.minisig`. -/
theorem storeSuffixOf_doubly_signed {name : Bytes} (signature : storeIsSignature name = true) :
    storeSuffixOf (name ++ storeSigExt) = none := by
  cases found : storeSuffixOf (name ++ storeSigExt) with
  | none => rfl
  | some ext =>
      unfold storeIsSignature at signature
      split at signature
      next own suffixed =>
        obtain ⟨row, known, rfl, stem, _, rfl⟩ := storeSuffixOf_some suffixed
        obtain ⟨other, otherKnown, rfl, front, _, shape⟩ := storeSuffixOf_some found
        have free := doubly_signed_free row known signature other otherKnown
        have ends : row.ext ++ storeSigExt <:+ stem ++ row.ext ++ storeSigExt := by
          rw [List.append_assoc]
          exact List.suffix_append _ _
        have otherEnds : other.ext <:+ stem ++ row.ext ++ storeSigExt := ⟨front, shape.symm⟩
        rcases List.suffix_or_suffix_of_suffix ends otherEnds with shorter | longer
        · exact absurd shorter free.2
        · exact absurd longer free.1
      next => contradiction

/-! ## Structural reading of the whitelist -/

/-- No two dots side by side. -/
def NoDoubleDot (first second : Byte) : Prop := ¬ (first = dot ∧ second = dot)

instance : DecidableRel NoDoubleDot := fun first second =>
  inferInstanceAs (Decidable (¬ (first = dot ∧ second = dot)))

/-- The part of the whitelist that concerns the text alone. -/
structure NameText (name : Bytes) : Prop where
  nonempty : name ≠ []
  head : name.head? ≠ some dot
  bytes : ∀ c ∈ name, nameByte c = true
  dots : name.IsChain NoDoubleDot

theorem nameBytesOk_iff {name : Bytes} :
    nameBytesOk name = true ↔
      (∀ c ∈ name, nameByte c = true) ∧ name.IsChain NoDoubleDot := by
  induction name with
  | nil => simp [nameBytesOk]
  | cons first rest inductionHypothesis =>
      simp only [nameBytesOk, Bool.and_eq_true, inductionHypothesis,
        List.isChain_cons, List.forall_mem_cons]
      constructor
      · rintro ⟨⟨whitelisted, single⟩, bytes, dots⟩
        refine ⟨⟨whitelisted, bytes⟩, fun second next => ?_, dots⟩
        rintro ⟨rfl, rfl⟩
        rw [Option.mem_def] at next
        simp [next] at single
      · rintro ⟨⟨whitelisted, bytes⟩, single, dots⟩
        refine ⟨⟨whitelisted, ?_⟩, bytes, dots⟩
        simp only [Bool.not_eq_true', Bool.and_eq_false_iff, beq_eq_false_iff_ne]
        by_cases firstDot : first = dot
        · refine Or.inr fun next => ?_
          exact single dot (Option.mem_def.mpr next) ⟨firstDot, rfl⟩
        · exact Or.inl firstDot

theorem storeNameIsValid_iff {name : Bytes} :
    storeNameIsValid name = true ↔
      NameText name ∧ name.length < storeNameMax ∧ (storeSuffixOf name).isSome := by
  cases name with
  | nil =>
      simp only [storeNameIsValid, Bool.false_eq_true, false_iff]
      exact fun valid => valid.1.nonempty rfl
  | cons first rest =>
      by_cases firstDot : first = dot
      · simp only [storeNameIsValid, firstDot, if_true, Bool.false_eq_true, false_iff]
        exact fun valid => valid.1.head rfl
      · simp only [storeNameIsValid, if_neg firstDot]
        split
        next long => simp only [Bool.false_eq_true, false_iff]; omega
        next short =>
          simp only [Bool.and_eq_true, nameBytesOk_iff]
          constructor
          · rintro ⟨⟨bytes, dots⟩, suffixed⟩
            exact ⟨⟨by simp, by simpa using firstDot, bytes, dots⟩, by omega, suffixed⟩
          · rintro ⟨text, _, suffixed⟩
            exact ⟨⟨text.bytes, text.dots⟩, suffixed⟩

theorem storeNameIsValid.text {name : Bytes} (valid : storeNameIsValid name = true) :
    NameText name :=
  (storeNameIsValid_iff.mp valid).1

theorem storeNameIsValid.length_lt {name : Bytes} (valid : storeNameIsValid name = true) :
    name.length < storeNameMax :=
  (storeNameIsValid_iff.mp valid).2.1

/-- Replacing an inner stretch by dot-free whitelisted bytes keeps the text
whitelisted. Release numbers and architectures are such stretches. -/
theorem NameText.splice {front old back middle : Bytes}
    (text : NameText (front ++ old ++ back)) (frontNonempty : front ≠ [])
    (middleNonempty : middle ≠ [])
    (plain : ∀ c ∈ middle, nameByte c = true ∧ c ≠ dot) :
    NameText (front ++ middle ++ back) where
  nonempty := by simp [frontNonempty]
  head := by
    have head := text.head
    simpa [List.head?_append_of_ne_nil _ frontNonempty, List.append_assoc] using head
  bytes := by
    intro c member
    simp only [List.mem_append] at member
    rcases member with (inFront | inMiddle) | inBack
    · exact text.bytes c (by simp [inFront])
    · exact (plain c inMiddle).1
    · exact text.bytes c (by simp [inBack])
  dots := by
    have frontChain : front.IsChain NoDoubleDot := by
      have whole := text.dots
      rw [List.append_assoc] at whole
      exact whole.left_of_append
    have backChain : back.IsChain NoDoubleDot := text.dots.right_of_append
    have middleChain : middle.IsChain NoDoubleDot := by
      rw [List.isChain_iff_getElem]
      intro index bound
      exact fun both => (plain _ (List.getElem_mem _)).2 both.1
    rw [List.isChain_append, List.isChain_append]
    refine ⟨⟨frontChain, middleChain, fun left _ right next both => ?_⟩, backChain,
      fun left last right _ both => ?_⟩
    · exact (plain right (List.mem_of_mem_head? next)).2 both.2
    · rw [List.getLast?_append_of_ne_nil _ middleNonempty] at last
      exact (plain left (List.mem_of_mem_getLast? last)).2 both.1

end CixCache
