import CixCache.Lib.Numeral
import CixCache.Name.Offsets

/-!
Contract: runs of decimal digits as numbers.

Owns: `runValue`, the number a run of digits stands for, however long it is; that
leading zeros do not change it; and that runs without them compare as numbers by
their length first and byte by byte then.

Does not own: where a name or a version has its digits.
-/

namespace CixCache

open CixCache.Lib

def digitValues (run : Bytes) : List Nat := run.map fun c => c.toNat - 48

/-- The number that a run of digits stands for. -/
def runValue (run : Bytes) : Nat := numeral 10 (digitValues run)

theorem isDigit_iff {c : Byte} : isDigit c = true ↔ 48 ≤ c.toNat ∧ c.toNat ≤ 57 := by
  unfold isDigit
  rw [Bool.and_eq_true, decide_eq_true_eq, decide_eq_true_eq, UInt8.le_iff_toNat_le,
    UInt8.le_iff_toNat_le]
  exact Iff.rfl

theorem digitValues_lt {run : Bytes} (digits : run.all isDigit = true) :
    ∀ digit ∈ digitValues run, digit < 10 := by
  intro digit member
  obtain ⟨c, inside, rfl⟩ := List.mem_map.mp member
  have bounds := isDigit_iff.mp (List.all_eq_true.mp digits c inside)
  omega

/-- Printed numbers are read back. -/
theorem runValue_printed (n : Nat) : runValue (printed n) = n := by
  unfold runValue numeral digitValues printed
  rw [List.map_map, List.foldl_map]
  refine Eq.trans ?_ (Nat.ofDigitChars_ten_toDigits (n := n))
  unfold Nat.ofDigitChars
  apply List.foldl_ext
  intro value c member
  have isDecimal := Nat.isDigit_of_mem_toDigits (by decide) (by decide) member
  have bound : c.toNat ≤ 57 := by
    simp only [Char.isDigit, Bool.and_eq_true, decide_eq_true_eq,
      UInt32.le_iff_toNat_le] at isDecimal
    exact isDecimal.2
  have byte : (UInt8.ofNat c.toNat).toNat = c.toNat := by
    rw [UInt8.toNat_ofNat']
    omega
  rw [Function.comp_apply, byte, Nat.mul_comm]
  rfl

/-- Leading zeros are not magnitude. -/
theorem runValue_stripZeros (run : Bytes) : runValue (stripZeros run) = runValue run := by
  induction run using stripZeros.induct with
  | case1 => rfl
  | case2 digit => rfl
  | case3 second rest inductionHypothesis =>
      rw [stripZeros, if_pos rfl, inductionHypothesis]
      exact (numeral_zero_cons _).symm
  | case4 first second rest different => rw [stripZeros, if_neg different]

theorem leading_stripZeros {run : Bytes} (digits : run.all isDigit = true) :
    Leading (digitValues (stripZeros run)) := by
  induction run using stripZeros.induct with
  | case1 => exact Or.inl (by decide)
  | case2 digit => exact Or.inl (Nat.le_refl 1)
  | case3 second rest inductionHypothesis =>
      have later : (second :: rest).all isDigit = true := by
        rw [List.all_cons, Bool.and_eq_true] at digits
        exact digits.2
      rw [stripZeros, if_pos rfl]
      exact inductionHypothesis later
  | case4 first second rest different =>
      have bounds := isDigit_iff.mp (List.all_eq_true.mp digits first List.mem_cons_self)
      rw [stripZeros, if_neg different]
      refine Or.inr ?_
      intro zeroFirst
      have isZero : first.toNat - 48 = 0 := Option.some.inj zeroFirst
      have asZero : zero.toNat = 48 := rfl
      exact different (UInt8.toNat_inj.mp (by omega))

/-- Digits compare as the bytes that spell them. -/
theorem compare_digitValues {a b : Bytes} (aDigits : a.all isDigit = true)
    (bDigits : b.all isDigit = true) :
    List.compareLex compare (digitValues a) (digitValues b) = List.compareLex compare a b := by
  induction a generalizing b with
  | nil => cases b <;> rfl
  | cons c a inductionHypothesis =>
      cases b with
      | nil => rfl
      | cons d b =>
          rw [List.all_cons, Bool.and_eq_true] at aDigits bDigits
          have cBounds := isDigit_iff.mp aDigits.1
          have dBounds := isDigit_iff.mp bDigits.1
          have firsts : compare (c.toNat - 48) (d.toNat - 48) = compare c d := by
            show compareOfLessAndEq _ _ = compareOfLessAndEq c d
            have less : (c.toNat - 48 < d.toNat - 48) = (c < d) := by
              rw [UInt8.lt_iff_toNat_lt]
              exact propext (by omega)
            have same : (c.toNat - 48 = d.toNat - 48) = (c = d) := by
              rw [← UInt8.toNat_inj]
              exact propext (by omega)
            simp only [compareOfLessAndEq, less, same]
          show List.compareLex compare (_ :: digitValues a) (_ :: digitValues b) = _
          rw [List.compareLex_cons_cons, List.compareLex_cons_cons, firsts,
            inductionHypothesis aDigits.2 bDigits.2]

/-- Runs without leading zeros compare as numbers by length, then byte by byte. -/
theorem compare_runValue {a b : Bytes} (aDigits : a.all isDigit = true)
    (bDigits : b.all isDigit = true) (aNonempty : a ≠ []) (bNonempty : b ≠ []) :
    compare (runValue a) (runValue b) =
      (compare (stripZeros a).length (stripZeros b).length).then
        (compare (stripZeros a) (stripZeros b)) := by
  have aStripped := stripZeros_digits aDigits
  have bStripped := stripZeros_digits bDigits
  rw [← runValue_stripZeros a, ← runValue_stripZeros b, runValue, runValue,
    compare_numeral (digitValues_lt aStripped) (digitValues_lt bStripped)
      (fun empty => stripZeros_ne_nil aNonempty (List.map_eq_nil_iff.mp empty))
      (fun empty => stripZeros_ne_nil bNonempty (List.map_eq_nil_iff.mp empty))
      (leading_stripZeros aDigits) (leading_stripZeros bDigits),
    compare_digitValues aStripped bStripped]
  unfold digitValues
  rw [List.length_map, List.length_map]
  rfl

/-- Runs of one number differ in leading zeros only. -/
theorem runValue_injective {a b : Bytes} (aDigits : a.all isDigit = true)
    (bDigits : b.all isDigit = true) (aNonempty : a ≠ []) (bNonempty : b ≠ [])
    (same : runValue a = runValue b) : stripZeros a = stripZeros b := by
  have order := compare_runValue aDigits bDigits aNonempty bNonempty
  rw [Nat.compare_eq_eq.mpr same] at order
  exact Std.LawfulEqCmp.eq_of_compare (Ordering.then_eq_eq.mp order.symm).2

end CixCache
