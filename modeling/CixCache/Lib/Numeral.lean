import Mathlib.Data.List.Basic
import Mathlib.Order.Compare
import Mathlib.Tactic.Ring

/-!
Contract: numbers written in digits, the most significant digit first.

Owns: `numeral`, the number digits stand for in a base; its bounds; that digits
without a leading zero are compared as numbers by their count first and digit by
digit then; and that accumulation which stops at a bound gives the smaller of the
number and the bound.

Does not own: how digits are spelled.
-/

namespace CixCache.Lib

variable {base : Nat}

/-- The number that digits stand for. -/
def numeral (base : Nat) (digits : List Nat) : Nat := digits.foldl (fun v d => v * base + d) 0

theorem foldl_numeral (start : Nat) (digits : List Nat) :
    digits.foldl (fun v d => v * base + d) start =
      start * base ^ digits.length + numeral base digits := by
  unfold numeral
  induction digits generalizing start with
  | nil => simp
  | cons digit rest inductionHypothesis =>
      rw [List.foldl_cons, List.foldl_cons, inductionHypothesis, inductionHypothesis (0 * base + digit),
        List.length_cons, Nat.pow_succ]
      ring

theorem numeral_cons (digit : Nat) (rest : List Nat) :
    numeral base (digit :: rest) = digit * base ^ rest.length + numeral base rest := by
  unfold numeral
  rw [List.foldl_cons, foldl_numeral]
  simp [numeral]

theorem numeral_lt {digits : List Nat} (small : ∀ digit ∈ digits, digit < base) :
    numeral base digits < base ^ digits.length := by
  induction digits with
  | nil => simp [numeral]
  | cons digit rest inductionHypothesis =>
      have rest_lt := inductionHypothesis fun other member => small other (List.mem_cons_of_mem _ member)
      have digit_lt : digit + 1 ≤ base := small digit List.mem_cons_self
      have bound := Nat.mul_le_mul_right (base ^ rest.length) digit_lt
      rw [numeral_cons, List.length_cons, Nat.pow_succ, Nat.mul_comm _ base]
      rw [Nat.add_mul] at bound
      omega

/-- Numbers with as many digits compare digit by digit. -/
theorem compare_numeral_of_length {left right : List Nat}
    (leftSmall : ∀ digit ∈ left, digit < base) (rightSmall : ∀ digit ∈ right, digit < base)
    (lengths : left.length = right.length) :
    compare (numeral base left) (numeral base right) = List.compareLex compare left right := by
  induction left generalizing right with
  | nil =>
      rw [List.length_eq_zero_iff.mp lengths.symm]
      exact Nat.compare_eq_eq.mpr rfl
  | cons first rest inductionHypothesis =>
      cases right with
      | nil => contradiction
      | cons other later =>
          have leftRest : ∀ digit ∈ rest, digit < base := fun digit member =>
            leftSmall digit (List.mem_cons_of_mem _ member)
          have rightRest : ∀ digit ∈ later, digit < base := fun digit member =>
            rightSmall digit (List.mem_cons_of_mem _ member)
          have same : rest.length = later.length := Nat.succ.inj lengths
          have leftLt := numeral_lt leftRest
          have rightLt := numeral_lt rightRest
          rw [List.compareLex_cons_cons, numeral_cons, numeral_cons]
          rw [same] at leftLt ⊢
          cases order : compare first other with
          | lt =>
              have gap := Nat.mul_le_mul_right (base ^ later.length)
                (Nat.succ_le_of_lt (Nat.compare_eq_lt.mp order))
              rw [Nat.succ_mul] at gap
              exact Nat.compare_eq_lt.mpr (by omega)
          | eq =>
              rw [Nat.compare_eq_eq.mp order, Ordering.eq_then, ← inductionHypothesis leftRest
                rightRest same]
              simp only [Nat.compare_eq_ite_lt, Nat.add_lt_add_iff_left]
          | gt =>
              have gap := Nat.mul_le_mul_right (base ^ later.length)
                (Nat.succ_le_of_lt (Nat.compare_eq_gt.mp order))
              rw [Nat.succ_mul] at gap
              exact Nat.compare_eq_gt.mpr (by omega)

/-- Digits without a zero in front, other than zero itself. -/
def Leading (digits : List Nat) : Prop := digits.length ≤ 1 ∨ digits.head? ≠ some 0

/-- More digits are a larger number. -/
theorem numeral_lt_of_length {left right : List Nat} (positive : 0 < base)
    (leftSmall : ∀ digit ∈ left, digit < base) (nonempty : left ≠ [])
    (rightLeading : Leading right) (shorter : left.length < right.length) :
    numeral base left < numeral base right := by
  obtain ⟨first, rest, rfl⟩ := List.exists_cons_of_ne_nil (List.ne_nil_of_length_pos
    (Nat.lt_of_le_of_lt (Nat.zero_le _) shorter))
  have many := List.length_pos_of_ne_nil nonempty
  have notZero : first ≠ 0 := by
    intro zero
    rcases rightLeading with single | head
    · rw [List.length_cons] at single shorter
      omega
    · exact head (by rw [zero]; rfl)
  have leftLt := numeral_lt leftSmall
  have growth : base ^ left.length ≤ base ^ rest.length :=
    Nat.pow_le_pow_right positive (by rw [List.length_cons] at shorter; omega)
  have scaled := Nat.mul_le_mul_right (base ^ rest.length) (Nat.one_le_iff_ne_zero.mpr notZero)
  rw [numeral_cons]
  omega

/-- Digits without leading zeros compare by their count, then digit by digit. -/
theorem compare_numeral {left right : List Nat} (leftSmall : ∀ digit ∈ left, digit < base)
    (rightSmall : ∀ digit ∈ right, digit < base) (leftNonempty : left ≠ [])
    (rightNonempty : right ≠ []) (leftLeading : Leading left) (rightLeading : Leading right) :
    compare (numeral base left) (numeral base right) =
      (compare left.length right.length).then (List.compareLex compare left right) := by
  have positive : 0 < base := by
    obtain ⟨first, rest, rfl⟩ := List.exists_cons_of_ne_nil leftNonempty
    exact Nat.lt_of_le_of_lt (Nat.zero_le _) (leftSmall first List.mem_cons_self)
  cases order : compare left.length right.length with
  | lt =>
      exact Nat.compare_eq_lt.mpr (numeral_lt_of_length positive leftSmall leftNonempty rightLeading
        (Nat.compare_eq_lt.mp order))
  | eq => exact compare_numeral_of_length leftSmall rightSmall (Nat.compare_eq_eq.mp order)
  | gt =>
      exact Nat.compare_eq_gt.mpr (numeral_lt_of_length positive rightSmall rightNonempty leftLeading
        (Nat.compare_eq_gt.mp order))

theorem numeral_zero_cons (rest : List Nat) : numeral base (0 :: rest) = numeral base rest := by
  rw [numeral_cons, Nat.zero_mul, Nat.zero_add]

/-! ## Accumulation up to a bound -/

/-- Accumulation that stops at a bound; the test divides before anything is
multiplied. -/
def clampedNumeral (base top : Nat) : Nat → List Nat → Nat
  | v, [] => v
  | v, digit :: rest =>
      if (top - digit) / base < v then top else clampedNumeral base top (v * base + digit) rest

/-- The test is exact: it holds when one more digit would pass the bound. -/
theorem room_lt_iff {top v digit : Nat} (positive : 0 < base) (small : digit ≤ top) :
    (top - digit) / base < v ↔ top < v * base + digit := by
  rw [Nat.div_lt_iff_lt_mul positive]
  omega

theorem le_foldl_numeral {start : Nat} {digits : List Nat} (positive : 0 < base) :
    start ≤ digits.foldl (fun v d => v * base + d) start := by
  rw [foldl_numeral]
  exact Nat.le_add_right_of_le (Nat.le_mul_of_pos_right _ (Nat.pow_pos positive))

theorem clampedNumeral_foldl {top start : Nat} {digits : List Nat} (positive : 0 < base)
    (small : ∀ digit ∈ digits, digit ≤ top) (within : start ≤ top) :
    clampedNumeral base top start digits =
      min (digits.foldl (fun v d => v * base + d) start) top := by
  induction digits generalizing start with
  | nil => exact (Nat.min_eq_left within).symm
  | cons digit rest inductionHypothesis =>
      have room := room_lt_iff (v := start) positive (small digit List.mem_cons_self)
      rw [clampedNumeral, List.foldl_cons]
      by_cases full : (top - digit) / base < start
      · have beyond := room.mp full
        have grows : start * base + digit ≤
            rest.foldl (fun v d => v * base + d) (start * base + digit) :=
          le_foldl_numeral positive
        rw [if_pos full, Nat.min_eq_right (by omega)]
      · have fits : start * base + digit ≤ top := Nat.le_of_not_lt (full ∘ room.mpr)
        rw [if_neg full]
        exact inductionHypothesis (fun other member => small other (List.mem_cons_of_mem _ member))
          fits

theorem clampedNumeral_eq_min {top : Nat} {digits : List Nat} (positive : 0 < base)
    (small : ∀ digit ∈ digits, digit ≤ top) :
    clampedNumeral base top 0 digits = min (numeral base digits) top :=
  clampedNumeral_foldl positive small (Nat.zero_le _)

end CixCache.Lib
