import CixCache.Store.Identity

/-!
Contract: the release a listing displays, as the `int` the loop accumulates.

Owns: `accumulateRelease`, the loop of `store_split_display` with the range of every
`int` it computes checked; that no name takes it out of that range; and that the
release is the number its digits stand for, or INT_MAX.

Does not own: where a name has its release.
-/

namespace CixCache

open CixCache.Lib

/-! ## The loop on `int` -/

/-- INT_MIN -/
def intMin : Int := -2 ^ 31

/-- The result of an `int` operation; out of range it has none. -/
def cInt (value : Int) : Option Int :=
  if intMin ≤ value ∧ value ≤ intMax then some value else none

/-- The accumulation of the digits, every intermediate result in its range. -/
def accumulateRelease : Int → Bytes → Option Int
  | v, [] => some v
  | v, c :: rest => do
      let d ← cInt ((c.toNat : Int) - 48)
      let room ← cInt (intMax - d)
      -- Both sides are positive: C's division and this one agree.
      let quotient ← cInt (room / 10)
      if quotient < v then
        some intMax
      else
        let shifted ← cInt (v * 10)
        let next ← cInt (shifted + d)
        accumulateRelease next rest

/-- Where the stem ends once the architecture is off. -/
def bareLen (name : Bytes) : Nat :=
  let whole := stemLen name
  let at' := archOffset name whole
  if at' ≠ 0 then at' - 1 else whole

/-- The digits between the release's offset and the end of that stem. -/
def releaseDigits (name : Bytes) : Bytes :=
  slice name (releaseOffset name (bareLen name)) (bareLen name)

/-! ## No overflow -/

theorem cInt_of_le {value : Int} (positive : 0 ≤ value) (small : value ≤ intMax) :
    cInt value = some value := by
  have low : intMin ≤ value := Int.le_trans (by decide) positive
  rw [cInt, if_pos ⟨low, small⟩]

/-- One turn of the loop, from a value in range and a digit. -/
theorem accumulateRelease_cons {v : Nat} {c : Byte} (rest : Bytes) (within : v ≤ intMax)
    (digit : isDigit c = true) :
    accumulateRelease v (c :: rest) =
      if (intMax - (c.toNat - 48)) / 10 < v then some (intMax : Int)
      else accumulateRelease (v * 10 + (c.toNat - 48) : Nat) rest := by
  have bounds := isDigit_iff.mp digit
  have top : intMax = 2147483647 := rfl
  have digitValue : (c.toNat : Int) - 48 = (c.toNat - 48 : Nat) := by omega
  have digitSmall : c.toNat - 48 ≤ 9 := by omega
  generalize c.toNat - 48 = d at digitValue digitSmall ⊢
  have room : (intMax : Int) - d = (intMax - d : Nat) := by omega
  have quotient : ((intMax - d : Nat) : Int) / 10 = ((intMax - d) / 10 : Nat) := by omega
  rw [accumulateRelease, digitValue]
  rw [cInt_of_le (by omega) (by omega), Option.bind_eq_bind, Option.bind_some, room,
    cInt_of_le (by omega) (by omega), Option.bind_some, quotient,
    cInt_of_le (by omega) (by omega), Option.bind_some]
  by_cases full : (intMax - d) / 10 < v
  · rw [if_pos full, if_pos (by omega)]
  · have fits := Nat.le_of_not_lt (full ∘ (room_lt_iff (by decide : 0 < 10) (by omega)).mpr)
    rw [if_neg full, if_neg (by omega), cInt_of_le (by omega) (by omega), Option.bind_some,
      cInt_of_le (by omega) (by omega), Option.bind_some]
    rfl

/-- On digits the loop stays in range throughout. -/
theorem accumulateRelease_digits {v : Nat} {digits : Bytes} (within : v ≤ intMax)
    (run : digits.all isDigit = true) :
    accumulateRelease v digits = some (clampedRelease v digits : Int) := by
  induction digits generalizing v with
  | nil => rfl
  | cons c rest inductionHypothesis =>
      rw [List.all_cons, Bool.and_eq_true] at run
      have bounds := isDigit_iff.mp run.1
      have top : intMax = 2147483647 := rfl
      rw [accumulateRelease_cons rest within run.1, clampedRelease]
      by_cases full : (intMax - (c.toNat - 48)) / 10 < v
      · rw [if_pos full, if_pos full]
      · rw [if_neg full, if_neg full]
        exact inductionHypothesis (by omega) run.2

/-! ## The number displayed -/

theorem clampedRelease_eq_clampedNumeral (v : Nat) (digits : Bytes) :
    clampedRelease v digits = clampedNumeral 10 intMax v (digitValues digits) := by
  induction digits generalizing v with
  | nil => rfl
  | cons c rest inductionHypothesis =>
      rw [clampedRelease, inductionHypothesis]
      rfl

theorem clampedRelease_eq_min {digits : Bytes} (run : digits.all isDigit = true) :
    clampedRelease 0 digits = min (runValue digits) intMax := by
  rw [clampedRelease_eq_clampedNumeral]
  refine clampedNumeral_eq_min (by decide) fun digit member => ?_
  have small := digitValues_lt run digit member
  have top : intMax = 2147483647 := rfl
  omega

/-- A release is a run of digits, and not an empty one. -/
theorem releaseOffset_run {name : Bytes} {stem : Nat} (found : releaseOffset name stem ≠ 0) :
    releaseOffset name stem < stem ∧
      (slice name (releaseOffset name stem) stem).all isDigit = true := by
  unfold releaseOffset at found ⊢
  dsimp only at found ⊢
  split at found
  next => exact absurd rfl found
  next inside =>
    split at found
    next => exact absurd rfl found
    next digits =>
      split at found
      next => exact absurd rfl found
      next version =>
        rw [if_neg inside, if_neg digits, if_neg version]
        exact ⟨by omega, by simpa using digits⟩

theorem storeSplitDisplay_release (name : Bytes) :
    (storeSplitDisplay name).release =
      if releaseOffset name (bareLen name) ≠ 0 then clampedRelease 0 (releaseDigits name)
      else 1 := by
  unfold storeSplitDisplay
  dsimp only
  split <;> rfl

/-- Where a name has a release, the one displayed is the number its digits stand for,
INT_MAX at most, and the loop that computes it leaves the range of `int` at no point. -/
theorem release_exact {name : Bytes} (found : releaseOffset name (bareLen name) ≠ 0) :
    (storeSplitDisplay name).release = min (runValue (releaseDigits name)) intMax ∧
      accumulateRelease 0 (releaseDigits name) = some ((storeSplitDisplay name).release : Int) := by
  have run := (releaseOffset_run found).2
  rw [storeSplitDisplay_release, if_pos found]
  exact ⟨clampedRelease_eq_min run, accumulateRelease_digits (Nat.zero_le _) run⟩

/-- The release next to the bound, and the one past it. -/
theorem release_at_bound :
    (storeSplitDisplay (ascii "foo-1.0-2147483646.tar.gz")).release = intMax - 1 ∧
      (storeSplitDisplay (ascii "foo-1.0-02147483648.tar.gz")).release = intMax := by
  have below := (@release_exact (ascii "foo-1.0-2147483646.tar.gz") (by decide +kernel)).1
  have above := (@release_exact (ascii "foo-1.0-02147483648.tar.gz") (by decide +kernel)).1
  rw [below, above]
  decide +kernel

end CixCache
