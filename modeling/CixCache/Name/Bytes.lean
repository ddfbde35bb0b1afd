import Mathlib.Algebra.Ring.Int.Defs
import Mathlib.Algebra.Ring.Nat
import Mathlib.Data.List.Infix

/-!
Contract: C strings as the store handles them.

A `Bytes` is the content of a C string up to its terminating NUL. Owns the
source's character literals, the digit test, `%.*s` slices, printed numbers,
`snprintf` truncation, the `strcmp(name + len - slen, tail) == 0` idiom and the
case-insensitive comparison.

Does not own: any table of names the store recognises.
-/

namespace CixCache

abbrev Byte := UInt8

/-- The content of a C string, without its NUL. -/
abbrev Bytes := List UInt8

instance Bytes.lawfulBEq : LawfulBEq Bytes := inferInstance

/-- A string literal of the source. -/
def ascii (text : String) : Bytes :=
  text.toList.map fun c => UInt8.ofNat c.toNat

abbrev dash : Byte := 45
abbrev dot : Byte := 46
abbrev slash : Byte := 47
abbrev zero : Byte := 48
abbrev one : Byte := 49
abbrev underscore : Byte := 95

def isDigit (c : Byte) : Bool := decide (48 ≤ c) && decide (c ≤ 57)

def isUpper (c : Byte) : Bool := decide (65 ≤ c) && decide (c ≤ 90)

def isLower (c : Byte) : Bool := decide (97 ≤ c) && decide (c ≤ 122)

/-- `tolower` in the C locale. -/
def toLower (c : Byte) : Byte := if isUpper c then c + 32 else c

/-- `strcasecmp(a, b) == 0`. -/
def strcasecmpEq (a b : Bytes) : Bool := a.map toLower == b.map toLower

/-- The `%.*s` argument pair `(stop - start, text + start)`. -/
def slice (text : Bytes) (start stop : Nat) : Bytes := (text.take stop).drop start

/-- What `snprintf` leaves in a buffer of `size` bytes. -/
def snprintf (size : Nat) (text : Bytes) : Bytes := text.take (size - 1)

/-- `%d` and `%lu`. -/
def printed (n : Nat) : Bytes := (Nat.toDigits 10 n).map fun c => UInt8.ofNat c.toNat

/-- `len > slen && strcmp(text + len - slen, tail) == 0`. -/
def endsWith (text tail : Bytes) : Bool :=
  decide (tail.length < text.length) &&
    text.drop (text.length - tail.length) == tail

theorem snprintf_of_lt {size : Nat} {text : Bytes} (fits : text.length < size) :
    snprintf size text = text :=
  List.take_of_length_le (by omega)

theorem snprintf_length_lt {size : Nat} (positive : 0 < size) (text : Bytes) :
    (snprintf size text).length < size := by
  simp only [snprintf, List.length_take]
  omega

theorem endsWith_iff {text tail : Bytes} :
    endsWith text tail = true ↔ ∃ front, front ≠ [] ∧ text = front ++ tail := by
  simp only [endsWith, Bool.and_eq_true, decide_eq_true_eq, beq_iff_eq]
  constructor
  · rintro ⟨longer, same⟩
    refine ⟨text.take (text.length - tail.length), ?_, ?_⟩
    · intro empty
      have := congrArg List.length empty
      simp only [List.length_take, List.length_nil] at this
      omega
    · conv_lhs => rw [← List.take_append_drop (text.length - tail.length) text, same]
  · rintro ⟨front, nonempty, rfl⟩
    have positive := List.length_pos_iff.mpr nonempty
    refine ⟨by simp only [List.length_append]; omega, ?_⟩
    simp [List.length_append]

theorem slice_append {front middle back : Bytes} :
    slice (front ++ middle ++ back) front.length (front.length + middle.length) =
      middle := by
  simp [slice, List.take_append]

theorem isDigit_ne_dash {c : Byte} (digit : isDigit c = true) : c ≠ dash := by
  rintro rfl
  revert digit
  decide

theorem printed_length {n k : Nat} (positive : 0 < k) (small : n < 10 ^ k) :
    (printed n).length ≤ k := by
  rw [printed, List.length_map]
  exact (Nat.length_toDigits_le_iff (by omega) positive).mpr small

theorem printed_digits (n : Nat) : ∀ c ∈ printed n, isDigit c = true := by
  intro c member
  obtain ⟨digit, inside, rfl⟩ := List.mem_map.mp member
  have isDecimal := Nat.isDigit_of_mem_toDigits (by decide) (by decide) inside
  have bounds : 48 ≤ digit.toNat ∧ digit.toNat ≤ 57 := by
    simp only [Char.isDigit, Bool.and_eq_true, decide_eq_true_eq, ge_iff_le,
      UInt32.le_iff_toNat_le] at isDecimal
    exact isDecimal
  simp only [isDigit, Bool.and_eq_true, decide_eq_true_eq, UInt8.le_iff_toNat_le,
    UInt8.toNat_ofNat']
  show 48 ≤ digit.toNat % 256 ∧ digit.toNat % 256 ≤ 57
  omega

end CixCache
