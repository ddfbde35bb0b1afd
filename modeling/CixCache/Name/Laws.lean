import CixCache.Name.Parts

/-!
Contract: the laws of canonical names the store relies on.

Owns: closure (a canonical form is a valid name), the fixed point, the
preservation of suffix and architecture, the canonical form of a detached
signature's name, and the architecture-qualified spellings of a canonical bare
name, with what a STORE_NAME_MAX buffer makes of one that is too long.

Does not own: the file tree.
-/

namespace CixCache

open CixCache.Lib

private theorem digit_plain {c : Byte} (digit : isDigit c = true) :
    nameByte c = true ∧ c ≠ dot := by
  refine ⟨by simp [nameByte, digit], ?_⟩
  intro same
  rw [same] at digit
  revert digit
  decide

private theorem arch_plain :
    ∀ arch ∈ gArches, ∀ c ∈ dash :: arch, nameByte c = true ∧ c ≠ dot := by
  decide +kernel

private theorem suffix_last : ∀ row ∈ gSuffixes, row.ext.getLast? ≠ some dot := by decide

namespace NameParts

variable (parts : NameParts)

theorem render_eq_base : parts.render = parts.base ++ (parts.archTail ++ parts.suffix.ext) := by
  simp [render, stem]

/-- Canonicalisation keeps the text whitelisted. -/
theorem text_canonical (text : NameText parts.render) : NameText parts.canonical.render := by
  rw [render_eq_base] at text ⊢
  simp only [canonical_base, canonical_archTail, canonical_suffix]
  unfold canonicalBase
  split
  next core digits release =>
    obtain ⟨_, run, version, shape⟩ := releaseSplit_some release
    rw [shape] at text
    apply NameText.splice text (versioned_ne_nil version) (by simp)
    intro c member
    rcases List.mem_cons.mp member with hyphen | digit
    · rw [hyphen]
      decide
    · exact digit_plain (List.all_eq_true.mp (stripZeros_digits run) c digit)
  next =>
    split
    · have whole : NameText (parts.base ++ [] ++ (parts.archTail ++ parts.suffix.ext)) := by
        simpa using text
      exact NameText.splice whole parts.base_nonempty (by simp) (by decide +kernel)
    · exact text

theorem valid_of_text (text : NameText parts.render) (fits : parts.render.length < storeNameMax) :
    storeNameIsValid parts.render = true := by
  rw [storeNameIsValid_iff]
  exact ⟨text, fits, by simp⟩

/-- A name whose base is already canonical is its own canonical form. -/
theorem canonicalForm_of_fixed (valid : storeNameIsValid parts.render = true)
    (fixed : canonicalBase parts.base = parts.base) :
    canonicalForm parts.render = some parts.render := by
  have same : parts.canonical = parts := eq_of_fields fixed rfl rfl
  have fits := storeNameIsValid.length_lt valid
  rw [parts.canonicalForm_render valid, same, if_neg (by omega)]

end NameParts

/-! ## Canonical form -/

/-- Parts of a name that has a canonical form, and of that form. -/
theorem canonicalForm_some {name out : Bytes} (canonical : canonicalForm name = some out) :
    ∃ parts : NameParts, parts.render = name ∧ parts.canonical.render = out ∧
      storeNameIsValid out = true := by
  have valid := canonicalForm_valid canonical
  obtain ⟨parts, rfl⟩ := NameParts.exists_render_of_valid valid
  rw [parts.canonicalForm_render valid] at canonical
  split at canonical
  next => contradiction
  next fits =>
    have same := Option.some.inj canonical
    refine ⟨parts, rfl, same, ?_⟩
    rw [← same]
    exact parts.canonical.valid_of_text
      (parts.text_canonical (storeNameIsValid.text valid)) (by omega)

/-- What canonicalisation emits, the whitelist accepts. -/
theorem canonicalForm_out_valid {name out : Bytes} (canonical : canonicalForm name = some out) :
    storeNameIsValid out = true :=
  (canonicalForm_some canonical).elim fun _ facts => facts.2.2

/-- Canonical form is a fixed point. -/
theorem canonicalForm_fixed {name out : Bytes} (canonical : canonicalForm name = some out) :
    canonicalForm out = some out := by
  obtain ⟨parts, _, same, valid⟩ := canonicalForm_some canonical
  rw [← same] at valid ⊢
  exact parts.canonical.canonicalForm_of_fixed valid (canonicalBase_idem parts.base)

theorem storeCanonicalName_fixed {name : Bytes} (canonical : canonicalForm name = some name) :
    storeCanonicalName name = some (name, false) := by
  simpa using storeCanonicalName_of_canonicalForm canonical

theorem canonicalForm_suffix {name out : Bytes} (canonical : canonicalForm name = some out) :
    storeSuffixOf out = storeSuffixOf name := by
  obtain ⟨parts, rfl, rfl, _⟩ := canonicalForm_some canonical
  simp

theorem canonicalForm_arch {name out : Bytes} (canonical : canonicalForm name = some out) :
    storeArchOf out = storeArchOf name := by
  obtain ⟨parts, rfl, rfl, _⟩ := canonicalForm_some canonical
  simp [NameParts.storeArchOf_render]

theorem storeIsSignature_congr {left right : Bytes}
    (same : storeSuffixOf left = storeSuffixOf right) :
    storeIsSignature left = storeIsSignature right := by
  simp [storeIsSignature, same]

/-- Canonical form adds two bytes at most. -/
theorem canonicalBase_length (base : Bytes) : (canonicalBase base).length ≤ base.length + 2 := by
  unfold canonicalBase
  split
  next core digits release =>
    obtain ⟨_, _, _, shape⟩ := releaseSplit_some release
    have shorter := (stripZeros_suffix digits).length_le
    rw [shape]
    simp only [List.length_append, List.length_cons]
    omega
  next =>
    split
    next => simp
    next => omega

/-- Only a name near the limit has no canonical form. -/
theorem canonicalForm_none {name : Bytes} (valid : storeNameIsValid name = true)
    (refused : canonicalForm name = none) : storeNameMax - 2 ≤ name.length := by
  obtain ⟨parts, rfl⟩ := NameParts.exists_render_of_valid valid
  have longer := canonicalBase_length parts.base
  rw [parts.canonicalForm_render valid] at refused
  split at refused
  next long =>
    rw [NameParts.render_eq_base] at long ⊢
    simp only [NameParts.canonical_base, NameParts.canonical_archTail, NameParts.canonical_suffix,
      List.length_append] at long ⊢
    omega
  next => contradiction

/-- What a result of `store_canonical_name` promises. -/
structure CanonicalResult (name out : Bytes) (differs : Bool) : Prop where
  nameValid : storeNameIsValid name = true
  outValid : storeNameIsValid out = true
  suffix : storeSuffixOf out = storeSuffixOf name
  arch : storeArchOf out = storeArchOf name
  changed : out ≠ name ↔ differs = true
  fixed : storeCanonicalName out = some (out, false)

/-- Canonicalisation is closed, idempotent and fails only near the limit. -/
theorem storeCanonicalName_laws (name : Bytes) :
    (∀ out differs, storeCanonicalName name = some (out, differs) →
      CanonicalResult name out differs) ∧
      (storeNameIsValid name = true → storeCanonicalName name = none →
        storeNameMax - 2 ≤ name.length) := by
  constructor
  · intro out differs result
    have canonical : canonicalForm name = some out := by rw [canonicalForm, result]; rfl
    have flag := storeCanonicalName_of_canonicalForm canonical
    rw [result] at flag
    refine ⟨canonicalForm_valid canonical, canonicalForm_out_valid canonical,
      canonicalForm_suffix canonical, canonicalForm_arch canonical, ?_,
      storeCanonicalName_fixed (canonicalForm_fixed canonical)⟩
    rw [(Prod.mk.inj (Option.some.inj flag)).2, bne_iff_ne]
  · intro valid refused
    exact canonicalForm_none valid (by rw [canonicalForm, refused]; rfl)

/-- A name gains its release and keeps suffix and architecture. -/
theorem mtools_result :
    CanonicalResult (ascii "mtools-4.0.49-x86_64.tar.gz") (ascii "mtools-4.0.49-1-x86_64.tar.gz")
      true :=
  (storeCanonicalName_laws _).1 _ _ (by decide)

/-- Parts of a canonical name: its base is canonical. -/
theorem parts_of_canonical {name : Bytes} (canonical : canonicalForm name = some name) :
    ∃ parts : NameParts, parts.render = name ∧ canonicalBase parts.base = parts.base := by
  obtain ⟨parts, same, canonicalSame, _⟩ := canonicalForm_some canonical
  refine ⟨parts, same, ?_⟩
  have fixed : parts.canonical = parts :=
    NameParts.render_injective (canonicalSame.trans same.symm)
  exact congrArg NameParts.base fixed

/-! ## Detached signatures -/

theorem storeSignatureName_some {name sig : Bytes}
    (found : storeSignatureName name = some sig) :
    storeNameIsValid name = true ∧ storeIsSignature name = false ∧
      sig = name ++ storeSigExt ∧ sig.length < storeNameMax := by
  unfold storeSignatureName at found
  split at found
  next => contradiction
  next accepted =>
    split at found
    next => contradiction
    next fits =>
      simp only [Bool.or_eq_true, Bool.not_eq_true', not_or, Bool.not_eq_false,
        Bool.not_eq_true] at accepted
      have same := Option.some.inj found
      exact ⟨accepted.1, accepted.2, same.symm, by rw [← same]; omega⟩

theorem storeSignatureName_eq {name : Bytes} (valid : storeNameIsValid name = true)
    (artifact : storeIsSignature name = false) :
    storeSignatureName name =
      if storeNameMax ≤ name.length + storeSigExt.length then none
      else some (name ++ storeSigExt) := by
  simp [storeSignatureName, valid, artifact]

namespace NameParts

variable {parts : NameParts}

theorem storeIsSignature_render :
    storeIsSignature parts.render = extIsSignature parts.suffix.ext := by
  simp [storeIsSignature]

/-- An artifact's name followed by `.minisig` has the same stem and the
signature suffix of the table. -/
theorem exists_signature (artifact : storeIsSignature parts.render = false) :
    ∃ row, ∃ known : row ∈ gSuffixes, row.ext = parts.suffix.ext ++ storeSigExt ∧
      (parts.withSuffix row known).render = parts.render ++ storeSigExt ∧
      (parts.withSuffix row known).canonical.render =
        parts.canonical.render ++ storeSigExt := by
  rw [storeIsSignature_render] at artifact
  obtain ⟨row, known, same⟩ := signature_row parts.suffix parts.suffix_known artifact
  refine ⟨row, known, same, ?_, ?_⟩
  · simp only [render, stem, archTail, withSuffix, same, List.append_assoc]
  · simp only [render, stem, archTail, withSuffix, canonical, same, List.append_assoc]

theorem text_signature (text : NameText parts.render) :
    NameText (parts.render ++ storeSigExt) where
  nonempty := by simp [text.nonempty]
  head := by
    rw [List.head?_append_of_ne_nil _ text.nonempty]
    exact text.head
  bytes := by
    intro c member
    rcases List.mem_append.mp member with inName | inTail
    · exact text.bytes c inName
    · exact (by decide +kernel : ∀ byte ∈ storeSigExt, nameByte byte = true) c inTail
  dots := by
    rw [List.isChain_append]
    refine ⟨text.dots, by decide, ?_⟩
    · intro left last right _ both
      have extLast : parts.suffix.ext.getLast? = some left := by
        have extNonempty : parts.suffix.ext ≠ [] :=
          (by decide : ∀ row ∈ gSuffixes, row.ext ≠ []) _ parts.suffix_known
        rwa [Option.mem_def, render, List.getLast?_append_of_ne_nil _ extNonempty] at last
      exact suffix_last parts.suffix parts.suffix_known (both.1 ▸ extLast)

end NameParts

/-- A derived signature name is itself a valid name. -/
theorem storeSignatureName_valid {name sig : Bytes}
    (found : storeSignatureName name = some sig) : storeNameIsValid sig = true := by
  obtain ⟨valid, artifact, rfl, fits⟩ := storeSignatureName_some found
  obtain ⟨parts, rfl⟩ := NameParts.exists_render_of_valid valid
  obtain ⟨row, known, _, same, _⟩ := NameParts.exists_signature artifact
  rw [← same] at fits ⊢
  apply NameParts.valid_of_text _ _ fits
  rw [same]
  exact NameParts.text_signature (storeNameIsValid.text valid)

/-- Deriving the signature's name and canonicalising commute. -/
theorem canonicalForm_signature {name sig out : Bytes}
    (found : storeSignatureName name = some sig) (canonical : canonicalForm name = some out) :
    canonicalForm sig =
      if storeNameMax ≤ out.length + storeSigExt.length then none
      else some (out ++ storeSigExt) := by
  have sigValid := storeSignatureName_valid found
  obtain ⟨_, artifact, rfl, _⟩ := storeSignatureName_some found
  obtain ⟨parts, rfl, rfl, _⟩ := canonicalForm_some canonical
  obtain ⟨row, known, _, same, canonicalSame⟩ := NameParts.exists_signature artifact
  rw [← same] at sigValid ⊢
  rw [NameParts.canonicalForm_render _ sigValid, canonicalSame, List.length_append]

/-! ## Architecture-qualified spellings -/

namespace NameParts

variable {parts : NameParts}

theorem stem_of_bare (unqualified : parts.arch = none) : parts.stem = parts.base := by
  simp [stem, archTail, unqualified]

theorem archName_render (unqualified : parts.arch = none) {arch : Bytes}
    (known : arch ∈ gArches) :
    archName parts.render arch = (parts.withArch arch known).render := by
  unfold archName
  rw [stemLen_render, take_stem, stem_of_bare unqualified, storeSuffixOf_render]
  simp [render, stem, archTail, withArch]

theorem length_archName (unqualified : parts.arch = none) {arch : Bytes}
    (known : arch ∈ gArches) :
    (archName parts.render arch).length = parts.render.length + 1 + arch.length := by
  rw [archName_render unqualified known]
  simp only [render, stem, archTail, withArch, unqualified, List.length_append,
    List.length_cons, List.length_nil]
  omega

theorem text_archName (text : NameText parts.render) (unqualified : parts.arch = none)
    {arch : Bytes} (known : arch ∈ gArches) : NameText (archName parts.render arch) := by
  have whole : NameText (parts.base ++ [] ++ parts.suffix.ext) := by
    simpa [render, stem_of_bare unqualified] using text
  have spliced := NameText.splice whole parts.base_nonempty (by simp) (arch_plain arch known)
  rw [archName_render unqualified known]
  simpa [render, stem, archTail, withArch] using spliced

end NameParts

/-- The parts of a canonical name that carries no architecture. -/
theorem parts_of_canonical_bare {name : Bytes} (canonical : canonicalForm name = some name)
    (unqualified : storeArchOf name = none) :
    ∃ parts : NameParts, parts.render = name ∧ parts.arch = none ∧
      canonicalBase parts.base = parts.base := by
  obtain ⟨parts, rfl, fixed⟩ := parts_of_canonical canonical
  rw [parts.storeArchOf_render] at unqualified
  exact ⟨parts, rfl, unqualified, fixed⟩

/-- Stamping an architecture onto a canonical bare name gives a canonical name,
when it fits. -/
theorem canonicalForm_archName {name arch : Bytes} (canonical : canonicalForm name = some name)
    (unqualified : storeArchOf name = none) (known : arch ∈ gArches)
    (fits : (archName name arch).length < storeNameMax) :
    canonicalForm (archName name arch) = some (archName name arch) := by
  have valid := canonicalForm_valid canonical
  obtain ⟨parts, rfl, bare, fixed⟩ := parts_of_canonical_bare canonical unqualified
  have text := NameParts.text_archName (storeNameIsValid.text valid) bare known
  rw [NameParts.archName_render bare known] at fits text ⊢
  exact NameParts.canonicalForm_of_fixed _ (NameParts.valid_of_text _ text fits) fixed

/-! ### Spellings that do not fit -/

private theorem cut_suffix_check :
    ∀ arch ∈ gArches, ∀ row ∈ gSuffixes, ∀ kept < (arch ++ row.ext).length,
      ∀ other ∈ gSuffixes, other.ext <:+ (arch ++ row.ext).take kept →
        kept + 8 = (arch ++ row.ext).length := by
  decide +kernel

private theorem dash_notMem_archExt :
    ∀ arch ∈ gArches, ∀ row ∈ gSuffixes, dash ∉ arch ++ row.ext := by
  decide

private theorem suffix_no_dash : ∀ row ∈ gSuffixes, dash ∉ row.ext := by decide

private theorem arch_length : ∀ arch ∈ gArches, 6 ≤ arch.length ∧ arch.length ≤ 7 := by decide

/-- A spelling too long for a STORE_NAME_MAX buffer is still a valid name after
truncation only when the cut takes exactly `.minisig` off a 255-byte
signature name; then no spelling of that name with an architecture fits. -/
theorem valid_cut_archName {name arch : Bytes} (canonical : canonicalForm name = some name)
    (unqualified : storeArchOf name = none) (known : arch ∈ gArches)
    (overlong : storeNameMax ≤ (archName name arch).length)
    (valid : storeNameIsValid (snprintf storeNameMax (archName name arch)) = true) :
    name.length + 1 = storeNameMax := by
  have nameFits := storeNameIsValid.length_lt (canonicalForm_valid canonical)
  obtain ⟨parts, rfl, bare, _⟩ := parts_of_canonical_bare canonical unqualified
  have length := NameParts.length_archName bare known
  have renderLength : parts.render.length = parts.base.length + parts.suffix.ext.length := by
    rw [NameParts.render, NameParts.stem_of_bare bare, List.length_append]
  have extLength : parts.suffix.ext.length ≤ 15 :=
    (by decide : ∀ row ∈ gSuffixes, row.ext.length ≤ 15) _ parts.suffix_known
  have extPositive : 4 ≤ parts.suffix.ext.length :=
    (by decide : ∀ row ∈ gSuffixes, 4 ≤ row.ext.length) _ parts.suffix_known
  have archBounds := arch_length arch known
  unfold storeNameMax at *
  -- The cut falls behind the hyphen, inside architecture and suffix.
  let kept := 254 - parts.base.length
  have cutShape : snprintf 256 (archName parts.render arch) =
      parts.base ++ dash :: (arch ++ parts.suffix.ext).take kept := by
    have regroup : archName parts.render arch =
        (parts.base ++ [dash]) ++ (arch ++ parts.suffix.ext) := by
      rw [NameParts.archName_render bare known]
      simp [NameParts.render, NameParts.stem, NameParts.archTail, NameParts.withArch]
    have headLength : (parts.base ++ [dash]).length = parts.base.length + 1 := by simp
    have index : 256 - 1 - (parts.base ++ [dash]).length = kept := by
      rw [headLength]
      omega
    rw [regroup, snprintf, List.take_append, List.take_of_length_le (by omega), index]
    simp
  have free : dash ∉ (arch ++ parts.suffix.ext).take kept := by
    intro member
    exact dash_notMem_archExt arch known parts.suffix parts.suffix_known
      (List.mem_of_mem_take member)
  obtain ⟨other, otherKnown, _, front, _, same⟩ :
      ∃ row ∈ gSuffixes, True ∧ ∃ front : Bytes, front ≠ [] ∧
        snprintf 256 (archName parts.render arch) = front ++ row.ext := by
    obtain ⟨ext, found⟩ := Option.isSome_iff_exists.mp (storeNameIsValid_iff.mp valid).2.2
    obtain ⟨row, rowKnown, rfl, front, nonempty, same⟩ := storeSuffixOf_some found
    exact ⟨row, rowKnown, trivial, front, nonempty, same⟩
  rw [cutShape] at same
  -- The suffix of the cut name has no hyphen, so it ends the kept text.
  have inside : other.ext <:+ (arch ++ parts.suffix.ext).take kept := by
    have ends : other.ext <:+ parts.base ++ dash :: (arch ++ parts.suffix.ext).take kept :=
      ⟨front, same.symm⟩
    have tailEnds : dash :: (arch ++ parts.suffix.ext).take kept <:+
        parts.base ++ dash :: (arch ++ parts.suffix.ext).take kept := List.suffix_append _ _
    rcases List.suffix_or_suffix_of_suffix ends tailEnds with shorter | longer
    · rcases List.suffix_cons_iff.mp shorter with whole | inner
      · exact absurd (whole ▸ List.mem_cons_self) (suffix_no_dash other otherKnown)
      · exact inner
    · exact absurd (longer.subset List.mem_cons_self) (suffix_no_dash other otherKnown)
  have keptLt : kept < (arch ++ parts.suffix.ext).length := by
    rw [List.length_append]
    omega
  have exactCut := cut_suffix_check arch known parts.suffix parts.suffix_known kept keptLt
    other otherKnown inside
  rw [List.length_append] at exactCut
  omega

end CixCache
