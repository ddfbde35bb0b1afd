import CixCache.Name.Decimal
import CixCache.Store.Version

/-!
Contract: the identity a listing displays beside the identity resolution uses.

Owns: `displayOf`, what `store_split_display` reads of a stem; that names with one
suffix and one display are names with one canonical form; and when a stem is read
as the name it came from.

Does not own: how displayed versions compare.
-/

namespace CixCache

open CixCache.Lib

/-! ## The display as a reading of the stem -/

/-- Name and version of a stem, cut at the first hyphen before a version. -/
def nameVersion (stem : Bytes) : Bytes × Bytes :=
  match (List.range (stem.length - 1)).find? fun i =>
      stem[i]? == some dash && startsVersion stem stem.length (i + 1) with
  | some i => (stem.take i, stem.drop (i + 1))
  | none => (stem, [])

/-- A base without its release, and the release; without one it is the first. -/
def baseRelease (base : Bytes) : Bytes × Nat :=
  match releaseSplit base with
  | some (core, digits) => (core, clampedRelease 0 digits)
  | none => (base, 1)

/-- What is displayed of a base and an architecture. -/
def displayBase (base arch : Bytes) : SplitDisplay :=
  ⟨(nameVersion (baseRelease base).1).1, (nameVersion (baseRelease base).1).2,
    (baseRelease base).2, arch⟩

/-- What is displayed of a stem. -/
def displayOf (stem : Bytes) : SplitDisplay :=
  match archSplit stem with
  | some (base, arch) => displayBase base arch
  | none => displayBase stem []

section Reading

variable {stem rest : Bytes}

/-- Text behind the stem does not start a version in it. -/
theorem startsVersion_append (stem rest : Bytes) {i : Nat} (inside : i + 1 < stem.length) :
    ((stem ++ rest)[i]? == some dash && startsVersion (stem ++ rest) stem.length (i + 1)) =
      (stem[i]? == some dash && startsVersion stem stem.length (i + 1)) := by
  unfold startsVersion
  rw [List.getElem?_append_left (by omega), List.getElem?_append_left inside]
  by_cases more : i + 1 + 1 < stem.length
  · rw [List.getElem?_append_left more]
  · simp [more]

theorem find_boundary_append (stem rest : Bytes) :
    ((List.range (stem.length - 1)).find? fun i =>
        (stem ++ rest)[i]? == some dash && startsVersion (stem ++ rest) stem.length (i + 1)) =
      (List.range (stem.length - 1)).find? fun i =>
        stem[i]? == some dash && startsVersion stem stem.length (i + 1) := by
  rw [← List.head?_filter, ← List.head?_filter]
  congr 1
  apply List.filter_congr
  intro i member
  have inside := List.mem_range.mp member
  exact startsVersion_append stem rest (by omega)

/-- The boundary stands in front of a version. -/
theorem nameVersion_shape (stem : Bytes) :
    (stem = (nameVersion stem).1 ++ dash :: (nameVersion stem).2 ∧ (nameVersion stem).2 ≠ []) ∨
      nameVersion stem = (stem, []) := by
  unfold nameVersion
  split
  next i found =>
    have inRange := List.mem_range.mp (List.mem_of_find?_eq_some found)
    have boundary := List.find?_some found
    rw [Bool.and_eq_true, beq_iff_eq] at boundary
    obtain ⟨bound, isDash⟩ := List.getElem?_eq_some_iff.mp boundary.1
    left
    constructor
    · dsimp only
      rw [← isDash, List.cons_getElem_drop_succ, List.take_append_drop]
    · intro empty
      have lengths := List.drop_eq_nil_iff.mp empty
      omega
  next => exact Or.inr rfl

/-- Name and version give the stem back. -/
theorem nameVersion_injective {left right : Bytes} (same : nameVersion left = nameVersion right) :
    left = right := by
  rcases nameVersion_shape left with ⟨leftShape, leftVersion⟩ | leftWhole
  · rcases nameVersion_shape right with ⟨rightShape, _⟩ | rightWhole
    · rw [leftShape, rightShape, same]
    · rw [same, rightWhole] at leftVersion
      contradiction
  · rcases nameVersion_shape right with ⟨_, rightVersion⟩ | rightWhole
    · rw [← same, leftWhole] at rightVersion
      contradiction
    · rw [leftWhole, rightWhole] at same
      exact congrArg Prod.fst same

/-- The part of `store_split_display` behind the architecture. -/
def splitBase (name : Bytes) (bare : Nat) (arch : Bytes) : SplitDisplay :=
  let rel := releaseOffset name bare
  let release := if rel ≠ 0 then clampedRelease 0 (slice name rel bare) else 1
  let stem := if rel ≠ 0 then rel - 1 else bare
  match (List.range (stem - 1)).find? fun i =>
      name[i]? == some dash && startsVersion name stem (i + 1) with
  | some i =>
      ⟨snprintf storeNameMax (name.take i), snprintf storeNameMax (slice name (i + 1) stem),
        release, arch⟩
  | none => ⟨snprintf storeNameMax (name.take stem), [], release, arch⟩

theorem boundary_read (core rest arch : Bytes) (release : Nat) (fits : core.length < storeNameMax) :
    (match (List.range (core.length - 1)).find? fun i =>
        (core ++ rest)[i]? == some dash &&
          startsVersion (core ++ rest) core.length (i + 1) with
      | some i =>
          (⟨snprintf storeNameMax ((core ++ rest).take i),
            snprintf storeNameMax (slice (core ++ rest) (i + 1) core.length), release, arch⟩ :
              SplitDisplay)
      | none => ⟨snprintf storeNameMax ((core ++ rest).take core.length), [], release, arch⟩) =
      ⟨(nameVersion core).1, (nameVersion core).2, release, arch⟩ := by
  rw [find_boundary_append]
  unfold nameVersion slice
  split
  next i found =>
    have inRange := List.mem_range.mp (List.mem_of_find?_eq_some found)
    have shorter : (core.take i).length < storeNameMax := by
      rw [List.length_take]
      omega
    have version : (core.drop (i + 1)).length < storeNameMax := by
      rw [List.length_drop]
      omega
    rw [List.take_append_of_le_length (by omega), List.take_left, snprintf_of_lt shorter,
      snprintf_of_lt version]
  next => rw [List.take_left, snprintf_of_lt fits]

theorem splitBase_append (base rest arch : Bytes) (fits : base.length < storeNameMax) :
    splitBase (base ++ rest) base.length arch = displayBase base arch := by
  unfold splitBase displayBase baseRelease
  dsimp only
  rw [releaseOffset_append]
  cases release : releaseSplit base with
  | none =>
      dsimp only
      rw [if_neg (by simp), if_neg (by simp)]
      exact boundary_read base rest arch 1 fits
  | some pair =>
      obtain ⟨core, digits⟩ := pair
      obtain ⟨_, _, _, shape⟩ := releaseSplit_some release
      have digitsAt : slice (base ++ rest) (core.length + 1) base.length = digits := by
        have start : core.length + 1 = (core ++ [dash]).length := by simp
        have stop : base.length = (core ++ [dash]).length + digits.length := by
          rw [shape]
          simp only [List.length_append, List.length_cons, List.length_nil]
          omega
        have regroup : base ++ rest = (core ++ [dash]) ++ digits ++ rest := by
          rw [shape]
          simp
        rw [start, stop, regroup]
        exact slice_append
      have shorter : core.length < storeNameMax := by
        rw [shape, List.length_append] at fits
        omega
      dsimp only
      rw [if_pos (Nat.succ_ne_zero _), if_pos (Nat.succ_ne_zero _), digitsAt, Nat.add_sub_cancel, shape,
        List.append_assoc]
      exact boundary_read core _ arch _ shorter

/-- What is displayed depends on the stem alone. -/
theorem storeSplitDisplay_append (length : stemLen (stem ++ rest) = stem.length)
    (fits : stem.length < storeNameMax) : storeSplitDisplay (stem ++ rest) = displayOf stem := by
  have split : storeSplitDisplay (stem ++ rest) =
      splitBase (stem ++ rest)
        (if archOffset (stem ++ rest) stem.length ≠ 0 then
          archOffset (stem ++ rest) stem.length - 1 else stem.length)
        (if archOffset (stem ++ rest) stem.length ≠ 0 then
          snprintf storeNameMax
            (slice (stem ++ rest) (archOffset (stem ++ rest) stem.length) stem.length)
          else []) := by
    unfold storeSplitDisplay
    rw [length]
    rfl
  rw [split, archOffset_append]
  unfold displayOf
  cases qualified : archSplit stem with
  | none =>
      dsimp only
      rw [if_neg (by simp), if_neg (by simp)]
      exact splitBase_append stem rest [] fits
  | some pair =>
      obtain ⟨base, arch⟩ := pair
      obtain ⟨_, _, shape⟩ := archSplit_some qualified
      have archAt' : slice (stem ++ rest) (base.length + 1) stem.length = arch := by
        have start : base.length + 1 = (base ++ [dash]).length := by simp
        have stop : stem.length = (base ++ [dash]).length + arch.length := by
          rw [shape]
          simp only [List.length_append, List.length_cons, List.length_nil]
          omega
        have regroup : stem ++ rest = (base ++ [dash]) ++ arch ++ rest := by
          rw [shape]
          simp
        rw [start, stop, regroup]
        exact slice_append
      have parts : base.length < storeNameMax ∧ arch.length < storeNameMax := by
        rw [shape, List.length_append, List.length_cons] at fits
        omega
      dsimp only
      rw [if_pos (Nat.succ_ne_zero _), if_pos (Nat.succ_ne_zero _), archAt', snprintf_of_lt parts.2,
        Nat.add_sub_cancel, shape, List.append_assoc]
      exact splitBase_append base _ arch parts.1

end Reading

/-! ## Releases -/

theorem clampedRelease_stripZeros (digits : Bytes) :
    clampedRelease 0 (stripZeros digits) = clampedRelease 0 digits := by
  induction digits using stripZeros.induct with
  | case1 => rfl
  | case2 digit => rfl
  | case3 second rest inductionHypothesis =>
      have start : clampedRelease 0 (zero :: second :: rest) = clampedRelease 0 (second :: rest) := by
        rw [clampedRelease]
        rfl
      rw [stripZeros, if_pos rfl, inductionHypothesis, start]
  | case4 first second rest different => rw [stripZeros, if_neg different]

/-- A release below the clamp is the number that its digits stand for. -/
theorem clampedRelease_exact (v : Nat) (digits : Bytes) (below : clampedRelease v digits < intMax) :
    clampedRelease v digits = (digitValues digits).foldl (fun v d => v * 10 + d) v := by
  induction digits generalizing v with
  | nil => rfl
  | cons c rest inductionHypothesis =>
      rw [clampedRelease] at below ⊢
      split at below
      next => omega
      next fits =>
        rw [if_neg fits]
        exact inductionHypothesis _ below

theorem clampedRelease_value {digits : Bytes} (below : clampedRelease 0 digits < intMax) :
    clampedRelease 0 digits = runValue digits :=
  clampedRelease_exact 0 digits below

/-- Canonical form keeps the base and the number of its release. -/
theorem baseRelease_canonicalBase (base : Bytes) :
    baseRelease (canonicalBase base) = baseRelease base := by
  cases release : releaseSplit base with
  | some pair =>
      obtain ⟨core, digits⟩ := pair
      obtain ⟨nonempty, run, version, _⟩ := releaseSplit_some release
      have again : releaseSplit (core ++ dash :: stripZeros digits) =
          some (core, stripZeros digits) :=
        releaseSplit_append (stripZeros_ne_nil nonempty) (stripZeros_digits run) version
      simp only [canonicalBase, baseRelease, release, again, clampedRelease_stripZeros]
  | none =>
      by_cases version : versioned base = true
      · have again : releaseSplit (base ++ [dash, one]) = some (base, [one]) :=
          releaseSplit_append (by simp) (by decide) version
        simp only [canonicalBase, baseRelease, release, version, ↓reduceIte, again]
        rfl
      · simp only [canonicalBase, release, version, Bool.false_eq_true, ↓reduceIte]

/-- A base without a release is the base of its first one. -/
theorem canonicalBase_first {core digits : Bytes} (release : releaseSplit core = none)
    (version : versioned core = true) (nonempty : digits ≠ []) (run : digits.all isDigit = true)
    (first : runValue digits = 1) : canonicalBase core = core ++ dash :: stripZeros digits := by
  have isOne : stripZeros digits = stripZeros [one] :=
    runValue_injective run (by decide) nonempty (by decide) first
  rw [isOne]
  simp only [canonicalBase, release, version, ↓reduceIte]
  rfl

/-- The base and the number of a countable release decide the canonical base. -/
theorem canonicalBase_of_release {left right : Bytes} (below : (baseRelease left).2 < intMax)
    (same : baseRelease left = baseRelease right) : canonicalBase left = canonicalBase right := by
  have rightBelow : (baseRelease right).2 < intMax := same ▸ below
  cases leftRelease : releaseSplit left with
  | none =>
      cases rightRelease : releaseSplit right with
      | none =>
          simp only [baseRelease, leftRelease, rightRelease, Prod.mk.injEq, and_true] at same
          rw [same]
      | some pair =>
          obtain ⟨nonempty, run, version, shape⟩ := releaseSplit_some rightRelease
          simp only [baseRelease, leftRelease, rightRelease, Prod.mk.injEq] at same rightBelow
          rw [clampedRelease_value rightBelow] at same
          rw [← same.1] at version
          rw [canonicalBase_first leftRelease version nonempty run same.2.symm, same.1]
          simp only [canonicalBase, rightRelease]
  | some pair =>
      obtain ⟨nonempty, run, version, shape⟩ := releaseSplit_some leftRelease
      cases rightRelease : releaseSplit right with
      | none =>
          simp only [baseRelease, leftRelease, rightRelease, Prod.mk.injEq] at same below
          rw [clampedRelease_value below] at same
          rw [same.1] at version
          rw [canonicalBase_first rightRelease version nonempty run same.2, ← same.1]
          simp only [canonicalBase, leftRelease]
      | some other =>
          obtain ⟨otherNonempty, otherRun, _, _⟩ := releaseSplit_some rightRelease
          simp only [baseRelease, leftRelease, rightRelease, Prod.mk.injEq] at same below rightBelow
          rw [clampedRelease_value below, clampedRelease_value rightBelow] at same
          have stripped := runValue_injective run otherRun nonempty otherNonempty same.2
          simp only [canonicalBase, leftRelease, rightRelease, same.1, stripped]

/-! ## Displayed and canonical identity -/

section Identity

variable (parts : NameParts)

theorem displayOf_stem : displayOf parts.stem = displayBase parts.base (parts.arch.getD []) := by
  unfold displayOf
  rw [parts.archSplit_stem]
  cases qualified : parts.arch with
  | none =>
      have whole : parts.stem = parts.base := by simp [NameParts.stem, NameParts.archTail, qualified]
      rw [whole]
      rfl
  | some arch => rfl

theorem stem_length_lt (valid : storeNameIsValid parts.render = true) :
    parts.stem.length < storeNameMax := by
  have fits := storeNameIsValid.length_lt valid
  rw [NameParts.render, List.length_append] at fits
  omega

theorem storeSplitDisplay_render (valid : storeNameIsValid parts.render = true) :
    storeSplitDisplay parts.render = displayBase parts.base (parts.arch.getD []) := by
  rw [← displayOf_stem]
  exact storeSplitDisplay_append parts.stemLen_render (stem_length_lt parts valid)

theorem archTail_of_getD {left right : NameParts} (same : left.arch.getD [] = right.arch.getD []) :
    left.archTail = right.archTail := by
  unfold NameParts.archTail
  cases leftArch : left.arch with
  | none =>
      cases rightArch : right.arch with
      | none => rfl
      | some arch =>
          rw [leftArch, rightArch] at same
          exact absurd same.symm (arch_ne_nil arch (right.arch_known arch rightArch))
  | some arch =>
      cases rightArch : right.arch with
      | none =>
          rw [leftArch, rightArch] at same
          exact absurd same (arch_ne_nil arch (left.arch_known arch leftArch))
      | some other =>
          rw [leftArch, rightArch] at same
          exact congrArg (dash :: ·) same

/-- Two names have one canonical form exactly when they have one suffix and one
display; canonical form is displayed as the name is. -/
theorem canonicalForm_iff_display {x y xForm yForm : Bytes}
    (xCanonical : canonicalForm x = some xForm) (yCanonical : canonicalForm y = some yForm)
    (xRelease : (storeSplitDisplay x).release < intMax)
    (yRelease : (storeSplitDisplay y).release < intMax) :
    (xForm = yForm ↔
      storeSuffixOf x = storeSuffixOf y ∧ storeSplitDisplay x = storeSplitDisplay y) ∧
      storeSplitDisplay xForm = storeSplitDisplay x ∧
      storeSplitDisplay yForm = storeSplitDisplay y := by
  have displayed : ∀ {name form : Bytes}, canonicalForm name = some form →
      storeSplitDisplay form = storeSplitDisplay name := by
    intro name form canonical
    have valid := canonicalForm_valid canonical
    obtain ⟨parts, rfl, rfl, formValid⟩ := canonicalForm_some canonical
    rw [storeSplitDisplay_render parts valid, storeSplitDisplay_render parts.canonical formValid]
    unfold displayBase
    rw [NameParts.canonical_base, NameParts.canonical_arch, baseRelease_canonicalBase]
  refine ⟨⟨?_, ?_⟩, displayed xCanonical, displayed yCanonical⟩
  · intro same
    rw [← canonicalForm_suffix xCanonical, ← canonicalForm_suffix yCanonical,
      ← displayed xCanonical, ← displayed yCanonical, same]
    exact ⟨rfl, rfl⟩
  · intro facts
    have xValid := canonicalForm_valid xCanonical
    have yValid := canonicalForm_valid yCanonical
    obtain ⟨xParts, rfl, rfl, _⟩ := canonicalForm_some xCanonical
    obtain ⟨yParts, rfl, rfl, _⟩ := canonicalForm_some yCanonical
    obtain ⟨suffixes, displays⟩ := facts
    rw [storeSplitDisplay_render xParts xValid] at displays xRelease
    rw [storeSplitDisplay_render yParts yValid] at displays
    rw [xParts.storeSuffixOf_render, yParts.storeSuffixOf_render] at suffixes
    simp only [displayBase, SplitDisplay.mk.injEq] at displays xRelease
    obtain ⟨names, versions, releases, arches⟩ := displays
    have cores := nameVersion_injective (Prod.ext names versions)
    have bases := canonicalBase_of_release xRelease (Prod.ext cores releases)
    rw [NameParts.render_eq_base, NameParts.render_eq_base]
    simp only [NameParts.canonical_base, NameParts.canonical_archTail, NameParts.canonical_suffix,
      bases, archTail_of_getD arches, Option.some.inj suffixes]

/-- A name without its release, with it and with zeros in front of it. -/
theorem first_release_displayed :
    storeSuffixOf (ascii "foo-1.2.tar.gz") = storeSuffixOf (ascii "foo-1.2-001.tar.gz") ∧
      storeSplitDisplay (ascii "foo-1.2.tar.gz") =
        storeSplitDisplay (ascii "foo-1.2-001.tar.gz") := by
  have bare : canonicalForm (ascii "foo-1.2.tar.gz") = some (ascii "foo-1.2-1.tar.gz") := by
    decide +kernel
  have padded : canonicalForm (ascii "foo-1.2-001.tar.gz") = some (ascii "foo-1.2-1.tar.gz") := by
    decide +kernel
  have bareRelease : (storeSplitDisplay (ascii "foo-1.2.tar.gz")).release < intMax := by
    decide +kernel
  have paddedRelease : (storeSplitDisplay (ascii "foo-1.2-001.tar.gz")).release < intMax := by
    decide +kernel
  exact (canonicalForm_iff_display bare padded bareRelease paddedRelease).1.mp rfl

/-! ## Stems -/

/-- The text that name and version were cut from. -/
def SplitDisplay.core (display : SplitDisplay) : Bytes :=
  if display.version = [] then display.name else display.name ++ dash :: display.version

theorem core_displayBase (base arch : Bytes) :
    (displayBase base arch).core = (baseRelease base).1 := by
  unfold SplitDisplay.core displayBase
  dsimp only
  rcases nameVersion_shape (baseRelease base).1 with ⟨shape, version⟩ | whole
  · rw [if_neg version, ← shape]
  · rw [whole, if_pos rfl]

theorem baseRelease_length (base : Bytes) : (baseRelease base).1.length ≤ base.length := by
  unfold baseRelease
  split
  next core digits release =>
    rw [(releaseSplit_some release).2.2.2, List.length_append]
    exact Nat.le_add_right _ _
  next => exact Nat.le_refl _

theorem core_displayOf_length (stem : Bytes) : (displayOf stem).core.length ≤ stem.length := by
  unfold displayOf
  split
  next base arch qualified =>
    have shorter := baseRelease_length base
    rw [core_displayBase, (archSplit_some qualified).2.2, List.length_append]
    omega
  next =>
    rw [core_displayBase]
    exact baseRelease_length stem

private theorem suffix_ends : ∀ row ∈ gSuffixes,
    row.ext.getLast?.any isDigit = false ∧ ∀ arch ∈ gArches, arch.getLast? ≠ row.ext.getLast? := by
  decide

private theorem suffix_nonempty : ∀ row ∈ gSuffixes, row.ext ≠ [] := by decide

/-- A stem that ends in a suffix is displayed whole. -/
theorem core_of_suffixed {front : Bytes} {row : Suffix} (known : row ∈ gSuffixes) :
    (displayOf (front ++ row.ext)).core = front ++ row.ext := by
  have nonempty := suffix_nonempty row known
  have ends := suffix_ends row known
  have last : (front ++ row.ext).getLast? = row.ext.getLast? :=
    List.getLast?_append_of_ne_nil front nonempty
  have unqualified : archSplit (front ++ row.ext) = none := by
    by_contra qualified
    obtain ⟨⟨base, arch⟩, found⟩ := Option.ne_none_iff_exists'.mp qualified
    obtain ⟨_, archKnown, shape⟩ := archSplit_some found
    rw [shape, List.getLast?_append_of_ne_nil base (by simp),
      List.getLast?_cons_of_ne_nil (arch_ne_nil arch archKnown)] at last
    exact ends.2 arch archKnown last
  have unreleased : releaseSplit (front ++ row.ext) = none := by
    by_contra released
    obtain ⟨⟨core, digits⟩, found⟩ := Option.ne_none_iff_exists'.mp released
    obtain ⟨digitsNonempty, run, _, shape⟩ := releaseSplit_some found
    rw [shape, List.getLast?_append_of_ne_nil core (by simp),
      List.getLast?_cons_of_ne_nil digitsNonempty] at last
    have lastDigit : isDigit (digits.getLast digitsNonempty) = true :=
      List.all_eq_true.mp run _ (List.getLast_mem digitsNonempty)
    rw [← last, List.getLast?_eq_some_getLast digitsNonempty, Option.any_some, lastDigit] at ends
    exact absurd ends.1 (by simp)
  unfold displayOf
  rw [unqualified]
  dsimp only
  rw [core_displayBase, baseRelease, unreleased]

/-- A stem reads as the name it came from exactly when it does not end in a suffix
itself. -/
theorem stem_display_iff {name : Bytes} (valid : storeNameIsValid name = true) :
    storeSplitDisplay (storeStemOf name) = storeSplitDisplay name ↔
      storeSuffixOf (storeStemOf name) = none := by
  obtain ⟨parts, rfl⟩ := NameParts.exists_render_of_valid valid
  have fits := stem_length_lt parts valid
  have stem : storeStemOf parts.render = parts.stem := by
    rw [storeStemOf, parts.stemLen_render, if_neg (by omega), parts.take_stem]
  have whole : storeSplitDisplay parts.render = displayOf parts.stem :=
    storeSplitDisplay_append parts.stemLen_render fits
  rw [stem, whole]
  constructor
  · intro same
    by_contra suffixed
    obtain ⟨ext, found⟩ := Option.ne_none_iff_exists'.mp suffixed
    obtain ⟨row, known, rfl, front, nonempty, shape⟩ := storeSuffixOf_some found
    have length : stemLen (front ++ row.ext) = front.length := stemLen_append known nonempty
    have shorter : front.length < storeNameMax := by
      rw [shape, List.length_append] at fits
      omega
    rw [shape, storeSplitDisplay_append length shorter] at same
    have cores := congrArg (fun display => display.core.length) same
    rw [core_of_suffixed known, List.length_append] at cores
    have cut := core_displayOf_length front
    have extLength := List.length_pos_of_ne_nil (suffix_nonempty row known)
    omega
  · intro plain
    have length : stemLen (parts.stem ++ []) = parts.stem.length := by
      rw [List.append_nil, stemLen, plain]
    have read := storeSplitDisplay_append length fits
    rwa [List.append_nil] at read

theorem plain_stem_display :
    storeSplitDisplay (storeStemOf (ascii "foo-1.2-1.tar.gz")) =
      storeSplitDisplay (ascii "foo-1.2-1.tar.gz") :=
  (stem_display_iff (by decide)).mpr (by decide)

/-- The stem of a name with two suffixes loses the second one too. -/
theorem doubled_suffix_display :
    canonicalForm (ascii "foo.tar.gz.tar.gz") = some (ascii "foo.tar.gz.tar.gz") ∧
      (storeSplitDisplay (ascii "foo.tar.gz.tar.gz")).name = ascii "foo.tar.gz" ∧
      (storeSplitDisplay (storeStemOf (ascii "foo.tar.gz.tar.gz"))).name = ascii "foo" ∧
      storeSplitDisplay (storeStemOf (ascii "foo.tar.gz.tar.gz")) ≠
        storeSplitDisplay (ascii "foo.tar.gz.tar.gz") := by
  decide +kernel

end Identity

end CixCache
