import CixCache.Lib.Component
import CixCache.Name.Canonical

/-!
Contract: the index loops of the name functions, read as operations on the
stem itself.

Owns: `archSplit`, `releaseSplit`, `versioned` and `stripZeros`, stated on the
bytes of a stem, and the theorems that `archOffset`, `releaseOffset`,
`hasVersion` and `skipZeros` compute them whatever follows the stem in the
name.

Does not own: the assembly of a canonical name.
-/

namespace CixCache

open CixCache.Lib

/-! ## Readings of a stem -/

/-- Base and architecture of a stem whose last component is a known
architecture with something in front of it. -/
def archSplit (stem : Bytes) : Option (Bytes × Bytes) :=
  match rsplit dash stem with
  | some (base, arch) => if base ≠ [] ∧ arch ∈ gArches then some (base, arch) else none
  | none => none

/-- The last component contains a digit. -/
def versioned (base : Bytes) : Bool := (lastComponent dash base).any isDigit

/-- Versioned part and release digits of a base that carries a release. -/
def releaseSplit (base : Bytes) : Option (Bytes × Bytes) :=
  match rsplit dash base with
  | some (core, digits) =>
      if digits ≠ [] ∧ digits.all isDigit = true ∧ versioned core = true then
        some (core, digits)
      else none
  | none => none

/-- A digit run without leading zeros; the last digit always stays. -/
def stripZeros : Bytes → Bytes
  | [] => []
  | [digit] => [digit]
  | first :: second :: rest =>
      if first = zero then stripZeros (second :: rest) else first :: second :: rest

theorem dash_notMem_of_digits {digits : Bytes} (run : digits.all isDigit = true) :
    dash ∉ digits := by
  intro member
  exact isDigit_ne_dash (List.all_eq_true.mp run dash member) rfl

theorem dash_notMem_arch : ∀ arch ∈ gArches, dash ∉ arch := by decide

theorem arch_ne_nil : ∀ arch ∈ gArches, arch ≠ [] := by decide

theorem archSplit_some {stem base arch : Bytes}
    (found : archSplit stem = some (base, arch)) :
    base ≠ [] ∧ arch ∈ gArches ∧ stem = base ++ dash :: arch := by
  unfold archSplit at found
  split at found
  next front last cut =>
    split at found
    next known =>
      obtain ⟨rfl, rfl⟩ := Prod.mk.inj (Option.some.inj found)
      exact ⟨known.1, known.2, (rsplit_eq_some.mp cut).1⟩
    next => contradiction
  next => contradiction

theorem archSplit_append {base arch : Bytes} (nonempty : base ≠ []) (known : arch ∈ gArches) :
    archSplit (base ++ dash :: arch) = some (base, arch) := by
  simp [archSplit, rsplit_append (dash_notMem_arch arch known), nonempty, known]

theorem releaseSplit_some {base core digits : Bytes}
    (found : releaseSplit base = some (core, digits)) :
    digits ≠ [] ∧ digits.all isDigit = true ∧ versioned core = true ∧
      base = core ++ dash :: digits := by
  unfold releaseSplit at found
  split at found
  next front last cut =>
    split at found
    next release =>
      obtain ⟨rfl, rfl⟩ := Prod.mk.inj (Option.some.inj found)
      exact ⟨release.1, release.2.1, release.2.2, (rsplit_eq_some.mp cut).1⟩
    next => contradiction
  next => contradiction

theorem releaseSplit_append {core digits : Bytes} (nonempty : digits ≠ [])
    (run : digits.all isDigit = true) (version : versioned core = true) :
    releaseSplit (core ++ dash :: digits) = some (core, digits) := by
  simp only [releaseSplit, rsplit_append (dash_notMem_of_digits run)]
  rw [if_pos ⟨nonempty, run, version⟩]

theorem versioned_ne_nil {core : Bytes} (version : versioned core = true) : core ≠ [] := by
  rintro rfl
  simp [versioned] at version

theorem stripZeros_ne_nil {digits : Bytes} (nonempty : digits ≠ []) :
    stripZeros digits ≠ [] := by
  induction digits using stripZeros.induct with
  | case1 => exact nonempty
  | case2 digit => simp [stripZeros]
  | case3 second rest inductionHypothesis =>
      simpa [stripZeros] using inductionHypothesis (by simp)
  | case4 first second rest different => simp [stripZeros, different]

theorem stripZeros_digits {digits : Bytes} (run : digits.all isDigit = true) :
    (stripZeros digits).all isDigit = true := by
  induction digits using stripZeros.induct with
  | case1 => exact run
  | case2 digit => exact run
  | case3 second rest inductionHypothesis =>
      have tailRun : (second :: rest).all isDigit = true := by
        simp only [List.all_cons, Bool.and_eq_true] at run ⊢
        exact run.2
      simpa [stripZeros] using inductionHypothesis tailRun
  | case4 first second rest different => simpa [stripZeros, different] using run

theorem stripZeros_idem (digits : Bytes) :
    stripZeros (stripZeros digits) = stripZeros digits := by
  induction digits using stripZeros.induct with
  | case1 => rfl
  | case2 digit => rfl
  | case3 second rest inductionHypothesis => simpa [stripZeros] using inductionHypothesis
  | case4 first second rest different => simp [stripZeros, different]

theorem stripZeros_suffix (digits : Bytes) : stripZeros digits <:+ digits := by
  induction digits using stripZeros.induct with
  | case1 => exact List.suffix_rfl
  | case2 digit => exact List.suffix_rfl
  | case3 second rest inductionHypothesis =>
      simp only [stripZeros, if_true]
      exact inductionHypothesis.trans (List.suffix_cons _ _)
  | case4 first second rest different =>
      simp [stripZeros, different]

/-! ## The loops compute these readings -/

private theorem getElem?_at_length (front rest : Bytes) (c : Byte) :
    (front ++ c :: rest)[front.length]? = some c := by
  simp

theorem lastDash_append (base rest : Bytes) :
    lastDash (base ++ rest) base.length =
      match rsplit dash base with
      | some (core, _) => core.length
      | none => 0 := by
  induction base using List.reverseRecOn generalizing rest with
  | nil => rfl
  | append_singleton front c inductionHypothesis =>
      have shape : front ++ [c] ++ rest = front ++ c :: rest := by simp
      rw [shape, List.length_append, List.length_singleton, lastDash, getElem?_at_length]
      by_cases same : c = dash
      · rw [if_pos (by rw [same]), same, rsplit_concat_sep]
      · rw [if_neg (by simpa using same), inductionHypothesis, rsplit_concat_ne same]
        cases rsplit dash front <;> rfl

theorem hasVersion_append (base rest : Bytes) :
    hasVersion (base ++ rest) base.length = versioned base := by
  induction base using List.reverseRecOn generalizing rest with
  | nil => rfl
  | append_singleton front c inductionHypothesis =>
      have shape : front ++ [c] ++ rest = front ++ c :: rest := by simp
      rw [shape, List.length_append, List.length_singleton, hasVersion, getElem?_at_length]
      by_cases same : c = dash
      · rw [if_pos (by rw [same]), same, versioned, lastComponent_concat_sep]
        rfl
      · rw [if_neg (by simpa using same), inductionHypothesis, versioned, versioned,
          lastComponent_concat_ne same]
        cases digit : isDigit c <;> simp [digit]

theorem versionBefore_eq (name : Bytes) (found : Bool) (index : Nat) :
    versionBefore name found index = (found || hasVersion name index) := by
  induction index generalizing found with
  | zero => simp [versionBefore, hasVersion]
  | succ index inductionHypothesis =>
      simp only [versionBefore, hasVersion]
      split
      · simp
      · rw [inductionHypothesis]
        cases (name[index]?).any isDigit <;> simp

theorem releaseOffset_append (base rest : Bytes) :
    releaseOffset (base ++ rest) base.length =
      match releaseSplit base with
      | some (core, _) => core.length + 1
      | none => 0 := by
  unfold releaseOffset releaseSplit
  rw [lastDash_append]
  cases cut : rsplit dash base with
  | none => simp
  | some pair =>
      obtain ⟨core, digits⟩ := pair
      obtain ⟨rfl, _⟩ := rsplit_eq_some.mp cut
      have run : slice (core ++ dash :: digits ++ rest) (core.length + 1)
          (core ++ dash :: digits).length = digits := by
        have shape : core ++ dash :: digits ++ rest = core ++ [dash] ++ digits ++ rest := by simp
        have stop : (core ++ dash :: digits).length =
            (core ++ [dash]).length + digits.length := by
          simp only [List.length_append, List.length_cons, List.length_nil]
          omega
        have start : core.length + 1 = (core ++ [dash]).length := by simp
        rw [shape, stop, start]
        exact slice_append
      have before : versionBefore (core ++ dash :: digits ++ rest) false core.length =
          versioned core := by
        rw [versionBefore_eq, List.append_assoc, hasVersion_append]
        simp
      simp only [run, before]
      by_cases version : versioned core = true
      · have coreLength : core.length ≠ 0 := by
          simpa using versioned_ne_nil version
        by_cases empty : digits = []
        · simp [empty]
        · have digitsLength : 0 < digits.length := List.length_pos_iff.mpr empty
          rw [if_neg (by
            simp only [List.length_append, List.length_cons]
            omega)]
          cases digits.all isDigit <;> simp [version, empty]
      · have notVersioned : versioned core = false := by simpa using version
        simp [notVersioned]

theorem archAt_append {stem rest arch : Bytes} :
    archAt (stem ++ rest) stem.length arch = true ↔
      ∃ base, base ≠ [] ∧ stem = base ++ dash :: arch := by
  simp only [archAt, Bool.and_eq_true, decide_eq_true_eq, beq_iff_eq]
  constructor
  · intro ⟨⟨longer, hyphen⟩, text⟩
    have cutLt : stem.length - arch.length - 1 < stem.length := by omega
    refine ⟨stem.take (stem.length - arch.length - 1), ?_, ?_⟩
    · intro empty
      have := congrArg List.length empty
      simp only [List.length_take, List.length_nil] at this
      omega
    · rw [List.getElem?_append_left cutLt, List.getElem?_eq_getElem cutLt,
        Option.some.injEq] at hyphen
      have behind : stem.drop (stem.length - arch.length) = arch := by
        rw [List.drop_append_of_le_length (by omega), List.take_append_of_le_length (by
          simp only [List.length_drop]
          omega)] at text
        rwa [List.take_of_length_le (by
          simp only [List.length_drop]
          omega)] at text
      have next : stem.length - arch.length - 1 + 1 = stem.length - arch.length := by omega
      conv_lhs => rw [← List.take_append_drop (stem.length - arch.length - 1) stem]
      rw [List.drop_eq_getElem_cons cutLt, hyphen, next, behind]
  · intro ⟨base, nonempty, shape⟩
    subst shape
    have positive := List.length_pos_iff.mpr nonempty
    have length : (base ++ dash :: arch).length = base.length + 1 + arch.length := by
      simp only [List.length_append, List.length_cons]
      omega
    have hyphenIndex : base.length + 1 + arch.length - arch.length - 1 = base.length := by omega
    have archIndex : base.length + 1 + arch.length - arch.length = base.length + 1 := by omega
    rw [length, hyphenIndex, archIndex]
    refine ⟨⟨by omega, by simp⟩, ?_⟩
    have regroup : base ++ dash :: arch ++ rest = (base ++ [dash]) ++ (arch ++ rest) := by simp
    have start : base.length + 1 = (base ++ [dash]).length := by simp
    rw [regroup, start, List.drop_left, List.take_left]

theorem archOffset_append (stem rest : Bytes) :
    archOffset (stem ++ rest) stem.length =
      match archSplit stem with
      | some (base, _) => base.length + 1
      | none => 0 := by
  unfold archOffset
  cases found : gArches.find? (archAt (stem ++ rest) stem.length) with
  | none =>
      cases split : archSplit stem with
      | none => rfl
      | some pair =>
          obtain ⟨nonempty, known, shape⟩ := archSplit_some split
          exact absurd (archAt_append.mpr ⟨pair.1, nonempty, shape⟩)
            (by simpa using List.find?_eq_none.mp found pair.2 known)
  | some arch =>
      have known : arch ∈ gArches := List.mem_of_find?_eq_some found
      obtain ⟨base, nonempty, shape⟩ := archAt_append.mp (by simpa using List.find?_some found)
      rw [shape, archSplit_append nonempty known]
      simp only [List.length_append, List.length_cons]
      omega

/-- Skipping zeros by index leaves the digit run without its leading zeros. -/
theorem slice_skipZeros (front digits rest : Bytes) (fuel : Nat)
    (enough : digits.length ≤ fuel) :
    slice (front ++ digits ++ rest)
        (skipZeros (front ++ digits ++ rest) (front.length + digits.length) fuel front.length)
        (front.length + digits.length) =
      stripZeros digits := by
  induction digits using stripZeros.induct generalizing front fuel with
  | case1 =>
      have stop : skipZeros (front ++ [] ++ rest) (front.length + 0) fuel front.length =
          front.length := by
        cases fuel <;> simp [skipZeros]
      rw [List.length_nil, stop]
      exact slice_append
  | case2 digit =>
      have stop : skipZeros (front ++ [digit] ++ rest) (front.length + 1) fuel front.length =
          front.length := by
        cases fuel <;> simp [skipZeros]
      rw [List.length_singleton, stop]
      exact slice_append
  | case3 second rest' inductionHypothesis =>
      obtain ⟨fuel, rfl⟩ : ∃ less, fuel = less + 1 := by
        exact ⟨fuel - 1, by simp only [List.length_cons] at enough; omega⟩
      have shape : front ++ zero :: second :: rest' ++ rest =
          (front ++ [zero]) ++ (second :: rest') ++ rest := by simp
      have stop : front.length + (zero :: second :: rest').length =
          (front ++ [zero]).length + (second :: rest').length := by
        simp only [List.length_append, List.length_cons, List.length_nil]
        omega
      have step : skipZeros (front ++ zero :: second :: rest' ++ rest)
          (front.length + (zero :: second :: rest').length) (fuel + 1) front.length =
          skipZeros (front ++ zero :: second :: rest' ++ rest)
            (front.length + (zero :: second :: rest').length) fuel (front.length + 1) := by
        rw [skipZeros, if_pos ⟨by simp only [List.length_cons]; omega, by simp⟩]
      rw [step, stop, shape]
      have advanced := inductionHypothesis (front ++ [zero]) fuel
        (by simp only [List.length_cons] at enough ⊢; omega)
      simpa [stripZeros] using advanced
  | case4 first second rest' different =>
      have stop : skipZeros (front ++ first :: second :: rest' ++ rest)
          (front.length + (first :: second :: rest').length) fuel front.length =
          front.length := by
        cases fuel with
        | zero => rfl
        | succ fuel => simp [skipZeros, different]
      rw [stop, slice_append]
      simp [stripZeros, different]

end CixCache
