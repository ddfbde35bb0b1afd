import CixCache.Name.Offsets

/-!
Contract: a published name as base, architecture and suffix, and canonical form
as an operation on the base alone.

Owns: `NameParts`, whose fields make the reading of a rendered name unique;
`NameParts.canonical`; and the theorem that `storeCanonicalName` renders it.
From these follow the laws of canonical form: it is valid, a fixed point, and
keeps suffix and architecture.

Does not own: the store's use of canonical names.
-/

namespace CixCache

open CixCache.Lib

/-! ## Canonical form of a base -/

def canonicalBase (base : Bytes) : Bytes :=
  match releaseSplit base with
  | some (core, digits) => core ++ dash :: stripZeros digits
  | none => if versioned base = true then base ++ [dash, one] else base

private theorem arch_not_digits : ∀ arch ∈ gArches, arch.all isDigit = false := by decide

theorem canonicalBase_ne_nil {base : Bytes} (nonempty : base ≠ []) :
    canonicalBase base ≠ [] := by
  unfold canonicalBase
  split
  · simp
  · split <;> simp [nonempty]

theorem canonicalBase_idem (base : Bytes) :
    canonicalBase (canonicalBase base) = canonicalBase base := by
  cases release : releaseSplit base with
  | some pair =>
      obtain ⟨nonempty, run, version, _⟩ := releaseSplit_some release
      have again : releaseSplit (pair.1 ++ dash :: stripZeros pair.2) =
          some (pair.1, stripZeros pair.2) :=
        releaseSplit_append (stripZeros_ne_nil nonempty) (stripZeros_digits run) version
      simp [canonicalBase, release, again, stripZeros_idem]
  | none =>
      by_cases version : versioned base = true
      · have again : releaseSplit (base ++ [dash, one]) = some (base, [one]) :=
          releaseSplit_append (by simp) (by decide) version
        simp [canonicalBase, release, version, again, stripZeros]
      · simp [canonicalBase, release, version]

private theorem archSplit_digits (core : Bytes) {digits : Bytes} (run : digits.all isDigit = true) :
    archSplit (core ++ dash :: digits) = none := by
  have unknown : digits ∉ gArches := by
    intro known
    rw [arch_not_digits digits known] at run
    contradiction
  simp [archSplit, rsplit_append (dash_notMem_of_digits run), unknown]

theorem archSplit_canonicalBase {base : Bytes} (bare : archSplit base = none) :
    archSplit (canonicalBase base) = none := by
  unfold canonicalBase
  split
  next core digits release =>
    exact archSplit_digits _ (stripZeros_digits (releaseSplit_some release).2.1)
  next =>
    split
    · exact archSplit_digits base (by decide : [one].all isDigit = true)
    · exact bare

/-! ## Names in parts -/

/-- A name cut into base, optional architecture and suffix. The fields make the
cut unique: a bare name's base does not end in an architecture. -/
structure NameParts where
  base : Bytes
  arch : Option Bytes
  suffix : Suffix
  base_nonempty : base ≠ []
  arch_known : ∀ a, arch = some a → a ∈ gArches
  bare : arch = none → archSplit base = none
  suffix_known : suffix ∈ gSuffixes

namespace NameParts

variable (parts : NameParts)

/-- The text between base and suffix. -/
def archTail : Bytes :=
  match parts.arch with
  | some arch => dash :: arch
  | none => []

def stem : Bytes := parts.base ++ parts.archTail

def render : Bytes := parts.stem ++ parts.suffix.ext

/-- Canonical form touches the base only. -/
def canonical : NameParts where
  base := canonicalBase parts.base
  arch := parts.arch
  suffix := parts.suffix
  base_nonempty := canonicalBase_ne_nil parts.base_nonempty
  arch_known := parts.arch_known
  bare := fun unqualified => archSplit_canonicalBase (parts.bare unqualified)
  suffix_known := parts.suffix_known

/-- The same artifact qualified with another architecture. -/
def withArch (arch : Bytes) (known : arch ∈ gArches) : NameParts where
  base := parts.base
  arch := some arch
  suffix := parts.suffix
  base_nonempty := parts.base_nonempty
  arch_known := fun a same => Option.some.inj same ▸ known
  bare := by simp
  suffix_known := parts.suffix_known

/-- The same stem with another suffix. -/
def withSuffix (suffix : Suffix) (known : suffix ∈ gSuffixes) : NameParts where
  base := parts.base
  arch := parts.arch
  suffix := suffix
  base_nonempty := parts.base_nonempty
  arch_known := parts.arch_known
  bare := parts.bare
  suffix_known := known

@[ext] theorem eq_of_fields {left right : NameParts} (base : left.base = right.base)
    (arch : left.arch = right.arch) (suffix : left.suffix = right.suffix) : left = right := by
  cases left
  cases right
  cases base
  cases arch
  cases suffix
  rfl

@[simp] theorem canonical_base : parts.canonical.base = canonicalBase parts.base := rfl
@[simp] theorem canonical_arch : parts.canonical.arch = parts.arch := rfl
@[simp] theorem canonical_suffix : parts.canonical.suffix = parts.suffix := rfl
@[simp] theorem canonical_archTail : parts.canonical.archTail = parts.archTail := rfl

@[simp] theorem canonical_canonical : parts.canonical.canonical = parts.canonical :=
  eq_of_fields (canonicalBase_idem parts.base) rfl rfl

theorem stem_nonempty : parts.stem ≠ [] := by
  simp [stem, parts.base_nonempty]

@[simp] theorem storeSuffixOf_render : storeSuffixOf parts.render = some parts.suffix.ext :=
  storeSuffixOf_append parts.suffix_known parts.stem_nonempty

theorem suffixRecord_render : suffixRecord parts.render = some parts.suffix :=
  suffixRecord_append parts.suffix_known parts.stem_nonempty

@[simp] theorem stemLen_render : stemLen parts.render = parts.stem.length :=
  stemLen_append parts.suffix_known parts.stem_nonempty

theorem take_stem : parts.render.take parts.stem.length = parts.stem :=
  List.take_left

theorem archSplit_stem : archSplit parts.stem = parts.arch.map fun arch => (parts.base, arch) := by
  cases qualified : parts.arch with
  | none => simp [stem, archTail, qualified, parts.bare qualified]
  | some arch =>
      simp [stem, archTail, qualified,
        archSplit_append parts.base_nonempty (parts.arch_known arch qualified)]

theorem archOffset_render :
    archOffset parts.render parts.stem.length =
      if parts.arch = none then 0 else parts.base.length + 1 := by
  unfold render
  rw [archOffset_append, archSplit_stem]
  cases parts.arch <;> rfl

/-- Every name with a recognised suffix is in parts. -/
theorem exists_render {name : Bytes} (suffixed : (storeSuffixOf name).isSome) :
    ∃ parts : NameParts, parts.render = name := by
  obtain ⟨ext, found⟩ := Option.isSome_iff_exists.mp suffixed
  obtain ⟨row, known, rfl, stem, nonempty, rfl⟩ := storeSuffixOf_some found
  cases split : archSplit stem with
  | none =>
      exact ⟨⟨stem, none, row, nonempty, by simp, fun _ => split, known⟩,
        by simp [render, NameParts.stem, archTail]⟩
  | some pair =>
      obtain ⟨baseNonempty, archKnown, shape⟩ := archSplit_some split
      exact ⟨⟨pair.1, some pair.2, row, baseNonempty,
        fun a same => Option.some.inj same ▸ archKnown, by simp, known⟩,
        by simp [render, NameParts.stem, archTail, shape]⟩

theorem exists_render_of_valid {name : Bytes} (valid : storeNameIsValid name = true) :
    ∃ parts : NameParts, parts.render = name :=
  exists_render (storeNameIsValid_iff.mp valid).2.2

/-- The cut of a name is unique. -/
theorem render_injective {left right : NameParts} (same : left.render = right.render) :
    left = right := by
  have suffixSame : left.suffix = right.suffix := by
    have records := left.suffixRecord_render
    rw [same, right.suffixRecord_render] at records
    exact (Option.some.inj records).symm
  have stemSame : left.stem = right.stem := by
    have rendered := same
    unfold render at rendered
    rw [suffixSame] at rendered
    exact List.append_cancel_right rendered
  have splits := left.archSplit_stem
  rw [stemSame, right.archSplit_stem] at splits
  have archSame : left.arch = right.arch := by
    cases leftArch : left.arch <;> cases rightArch : right.arch <;>
      simp_all
  refine eq_of_fields ?_ archSame suffixSame
  have tails : left.archTail = right.archTail := by simp [archTail, archSame]
  unfold stem at stemSame
  rw [tails] at stemSame
  exact List.append_cancel_right stemSame

theorem storeArchOf_render : storeArchOf parts.render = parts.arch := by
  unfold storeArchOf
  simp only [stemLen_render, archOffset_render]
  cases qualified : parts.arch with
  | none => simp
  | some arch =>
      have known := parts.arch_known arch qualified
      have shape : parts.stem = parts.base ++ dash :: arch := by
        simp [stem, archTail, qualified]
      have rest : parts.stem.length - (parts.base.length + 1) = arch.length := by
        rw [shape]
        simp only [List.length_append, List.length_cons]
        omega
      have text : (parts.render.drop (parts.base.length + 1)).take arch.length = arch := by
        have regroup : parts.render =
            (parts.base ++ [dash]) ++ (arch ++ parts.suffix.ext) := by
          simp [render, shape]
        have start : parts.base.length + 1 = (parts.base ++ [dash]).length := by simp
        rw [regroup, start, List.drop_left, List.take_left]
      simp only [reduceCtorEq, if_false, Nat.add_one_ne_zero, rest, text]
      cases found : gArches.find? (fun other =>
          arch == other.take arch.length && other.length == arch.length) with
      | none =>
          have missing := List.find?_eq_none.mp found arch known
          simp at missing
      | some other =>
          have matching := List.find?_some found
          simp only [Bool.and_eq_true, beq_iff_eq] at matching
          rw [matching.1, ← matching.2, List.take_length]

/-! ## Canonical form of a rendered name -/

private theorem suffix_fits : ∀ row ∈ gSuffixes, row.ext.length < 80 := by decide

private theorem archTail_fits :
    ∀ row ∈ gSuffixes, ∀ arch ∈ gArches, (dash :: arch ++ row.ext).length < 80 := by decide

theorem canonicalText_append (base suffix : Bytes) :
    canonicalText (base ++ suffix) base.length suffix = canonicalBase base ++ suffix := by
  unfold canonicalText canonicalBase
  simp only [releaseOffset_append, hasVersion_append]
  cases release : releaseSplit base with
  | none =>
      cases versioned base with
      | false => simp
      | true =>
          simp only [List.take_left, if_true, Bool.true_eq_false, if_false]
          rfl
  | some pair =>
      obtain ⟨core, digits⟩ := pair
      obtain ⟨nonempty, run, version, rfl⟩ := releaseSplit_some release
      have regroup : core ++ dash :: digits ++ suffix = (core ++ [dash]) ++ digits ++ suffix := by
        simp
      have start : core.length + 1 = (core ++ [dash]).length := by simp
      have stop : (core ++ dash :: digits).length = (core ++ [dash]).length + digits.length := by
        simp only [List.length_append, List.length_cons, List.length_nil]
        omega
      have run := slice_skipZeros (core ++ [dash]) digits suffix
        ((core ++ [dash]).length + digits.length) (by omega)
      simp only [Nat.add_one_ne_zero, if_false, Nat.add_sub_cancel]
      rw [start, stop, regroup, run]
      simp [List.append_assoc]

theorem storeCanonicalName_render (valid : storeNameIsValid parts.render = true) :
    storeCanonicalName parts.render =
      if storeNameMax ≤ parts.canonical.render.length then none
      else some (parts.canonical.render, parts.canonical.render != parts.render) := by
  have stemLength : parts.render.length - parts.suffix.ext.length = parts.stem.length := by
    simp [render]
  unfold storeCanonicalName
  simp only [valid, Bool.true_eq_false, if_false, storeSuffixOf_render, Option.getD_some,
    stemLength, archOffset_render]
  have text : (if (if parts.arch = none then 0 else parts.base.length + 1) ≠ 0 then
      canonicalText parts.render ((if parts.arch = none then 0 else parts.base.length + 1) - 1)
        (snprintf 80 (dash :: slice parts.render
          (if parts.arch = none then 0 else parts.base.length + 1) parts.stem.length ++
            parts.suffix.ext))
      else canonicalText parts.render parts.stem.length (snprintf 80 parts.suffix.ext)) =
      parts.canonical.render := by
    cases qualified : parts.arch with
    | none =>
        have stemBase : parts.stem = parts.base := by simp [stem, archTail, qualified]
        have canonicalRender : parts.canonical.render =
            canonicalBase parts.base ++ parts.suffix.ext := by
          simp [render, stem, archTail, qualified]
        simp only [if_true, ne_eq, not_true, if_false]
        rw [snprintf_of_lt (suffix_fits _ parts.suffix_known), canonicalRender, stemBase,
          render, stemBase, canonicalText_append]
    | some arch =>
        have stemShape : parts.stem = parts.base ++ [dash] ++ arch := by
          simp [stem, archTail, qualified]
        have canonicalRender : parts.canonical.render =
            canonicalBase parts.base ++ (dash :: arch ++ parts.suffix.ext) := by
          simp [render, stem, archTail, qualified]
        have start : parts.base.length + 1 = (parts.base ++ [dash]).length := by simp
        have stop : parts.stem.length = (parts.base ++ [dash]).length + arch.length := by
          rw [stemShape, List.length_append]
        have archText : slice parts.render (parts.base.length + 1) parts.stem.length = arch := by
          rw [start, stop, render, stemShape]
          exact slice_append
        have regroup : parts.render = parts.base ++ (dash :: arch ++ parts.suffix.ext) := by
          simp [render, stemShape]
        simp only [reduceCtorEq, if_false, ne_eq, Nat.add_one_ne_zero, not_false_eq_true, if_true,
          Nat.add_sub_cancel, archText]
        rw [snprintf_of_lt (archTail_fits _ parts.suffix_known arch
          (parts.arch_known arch qualified)), canonicalRender, regroup, canonicalText_append]
  rw [text]

theorem canonicalForm_render (valid : storeNameIsValid parts.render = true) :
    canonicalForm parts.render =
      if storeNameMax ≤ parts.canonical.render.length then none
      else some parts.canonical.render := by
  rw [canonicalForm, parts.storeCanonicalName_render valid]
  split <;> rfl

end NameParts

end CixCache
