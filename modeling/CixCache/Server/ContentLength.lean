import CixCache.Server.Lines
import CixCache.Server.Parse

/-!
Contract: the length a request declares, and the length it is taken to have.

Owns: `lengthOf`, what a Content-Length header asks for; `ReadsAsNumber`, the text that
`strtol` takes for a number; and exactly for which values `http_conn_try_parse` takes the
length declared, or refuses the request that declares none.

Does not own: which lines of a block are its header lines.
-/

namespace CixCache

open CixCache.Lib

/-! ## Declarations -/

def contentLengthName : Bytes := ascii "Content-Length"

/-- The value of the first Content-Length header among the lines. -/
def firstLength (lines : List Bytes) : Option Bytes :=
  (lines.find? (namesHeader contentLengthName)).map headerValue

def DigitRun (text : Bytes) : Prop := text ≠ [] ∧ text.all isDigit = true

instance (text : Bytes) : Decidable (DigitRun text) := inferInstanceAs (Decidable (_ ∧ _))

/-- The length declared: 0 without a declaration, the number that a run of digits stands
for, and none for anything else. -/
def lengthOf : Option Bytes → Option Nat
  | none => some 0
  | some value =>
      if DigitRun value ∧ decimal value ≤ longMax then some (decimal value) else none

/-- The header block of a connection is complete, and its request line is well formed. -/
structure WellFormed (c : HttpConn) (headersEnd eol : Nat) : Prop where
  complete : c.headersEnd = some headersEnd
  line : memmem crlf (c.buf.take headersEnd) = some eol
  request : (parseRequestLine (c.buf.take eol)).isSome

/-- The block without its blank line. -/
def headerBlock (c : HttpConn) (headersEnd : Nat) : Bytes := c.buf.take (headersEnd - 4)

/-- `http_conn_try_parse` takes the length declared, or refuses the request. -/
def TakesLength (c : HttpConn) (declared : Option Bytes) : Prop :=
  match lengthOf declared with
  | none => httpConnTryParse c = .malformed
  | some length => ∃ req, httpConnTryParse c = .complete req ∧ req.contentLength = length

/-- Text that `strtol` takes for a number which is not negative: white space, a sign, digits
and whatever follows them; digits behind a minus sign are zeros. -/
def ReadsAsNumber (text : Bytes) : Prop :=
  ∃ blanks sign digits rest, text = blanks ++ (sign ++ (digits ++ rest)) ∧
    (∀ c ∈ blanks, isSpace c = true) ∧ (sign = [] ∨ sign = [43] ∨ sign = [dash]) ∧
    DigitRun digits ∧ (∀ c, rest.head? = some c → isDigit c = false) ∧
    (sign = [dash] → decimal digits = 0)

/-- The values read for what they declare. One that fits the buffer of the lookup is a run
of digits in range, or nothing in it reads as a number; one that does not fit is zeros. -/
def ReadExactly : Option Bytes → Prop
  | none => True
  | some value =>
      value.length < 32 ∧
          (DigitRun value ∧ decimal value ≤ longMax ∨
            ¬ DigitRun value ∧ ¬ ReadsAsNumber (cString value)) ∨
        32 ≤ value.length ∧ ∀ c ∈ value, c = zero

/-- What `strtol` converts, unless it is negative. -/
def convertedLength (text : Bytes) : Option Nat :=
  match strtol text with
  | none => none
  | some number => if number < 0 then none else some number.toNat

/-- The length taken from the value of the first header. -/
def takenLength : Option Bytes → Option Nat
  | none => some 0
  | some value => if 32 ≤ value.length then some 0 else convertedLength (cString value)

theorem contentLengthOf_eq (headers : Bytes) :
    contentLengthOf headers = takenLength (firstLength (scannedLines headers contentLengthName)) := by
  unfold contentLengthOf firstLength
  rw [httpFindHeader_eq, lookupHeader]
  show (match (match (scannedLines headers contentLengthName).find?
    (namesHeader contentLengthName) with
      | none => none
      | some line => if 32 ≤ (headerValue line).length then none else some (headerValue line)) with
    | none => some 0
    | some text => _) = _
  cases (scannedLines headers contentLengthName).find? (namesHeader contentLengthName) with
  | none => rfl
  | some line =>
      dsimp only [Option.map_some, takenLength]
      by_cases long : 32 ≤ (headerValue line).length
      · rw [if_pos long, if_pos long]
      · rw [if_neg long, if_neg long]
        rfl

/-! ## Numbers -/

theorem decimal_eq_zero {digits : Bytes} (run : digits.all isDigit = true) :
    decimal digits = 0 ↔ ∀ c ∈ digits, c = zero := by
  rw [decimal_eq_runValue, runValue]
  induction digits with
  | nil => simp [digitValues, numeral]
  | cons c rest inductionHypothesis =>
      rw [List.all_cons, Bool.and_eq_true] at run
      have bounds := isDigit_iff.mp run.1
      have code : zero.toNat = 48 := rfl
      have scale : 0 < 10 ^ (digitValues rest).length := Nat.pow_pos (by decide)
      have first : c.toNat - 48 = 0 ↔ c = zero := by
        rw [← UInt8.toNat_inj]
        omega
      have unfolded : digitValues (c :: rest) = (c.toNat - 48) :: digitValues rest := rfl
      rw [unfolded, numeral_cons, Nat.add_eq_zero_iff, Nat.mul_eq_zero, first,
        inductionHypothesis run.2, List.forall_mem_cons]
      exact and_congr_left fun _ => or_iff_left (Nat.ne_of_gt scale)

/-- The digits in front of other text. -/
theorem takeWhile_digits {digits rest : Bytes} (run : digits.all isDigit = true)
    (ended : ∀ c, rest.head? = some c → isDigit c = false) :
    (digits ++ rest).takeWhile isDigit = digits := by
  rw [List.takeWhile_append_of_pos (List.all_eq_true.mp run)]
  cases rest with
  | nil => rw [List.takeWhile_nil, List.append_nil]
  | cons c tail =>
      rw [List.takeWhile_cons_of_neg (by simp [ended c rfl]), List.append_nil]

/-- White space is skipped up to a byte that is none. -/
theorem dropWhile_blanks {blanks rest : Bytes} {c : Byte}
    (spaces : ∀ c ∈ blanks, isSpace c = true) (solid : isSpace c = false) :
    (blanks ++ c :: rest).dropWhile isSpace = c :: rest := by
  rw [List.dropWhile_append_of_pos spaces, List.dropWhile_cons_of_neg (by simp [solid])]

section Conversion

variable {blanks sign digits rest : Bytes}

/-- Digits with a plus or nothing in front of them are converted. -/
theorem strtol_unsigned (spaces : ∀ c ∈ blanks, isSpace c = true)
    (signed : sign = [] ∨ sign = [43]) (run : DigitRun digits)
    (ended : ∀ c, rest.head? = some c → isDigit c = false) :
    strtol (blanks ++ (sign ++ (digits ++ rest))) =
      some ((min (decimal digits) longMax : Nat) : Int) := by
  have taken := takeWhile_digits run.2 ended
  unfold strtol
  dsimp only
  rcases signed with rfl | rfl
  · obtain ⟨first, others, rfl⟩ := List.exists_cons_of_ne_nil run.1
    obtain ⟨noBlank, noDash, noPlus⟩ :=
      digit_opens (List.all_eq_true.mp run.2 first List.mem_cons_self)
    rw [List.nil_append, List.cons_append, dropWhile_blanks spaces noBlank, List.head?_cons,
      Option.some_beq_some, Option.some_beq_some, noDash, noPlus]
    simp only [Bool.or_self, Bool.false_eq_true, if_false]
    rw [← List.cons_append, taken, if_neg run.1]
  · rw [List.singleton_append, dropWhile_blanks spaces (by decide), List.head?_cons]
    simp only [Option.some_beq_some, List.drop_succ_cons, List.drop_zero]
    have isSign : ((43 : Byte) == dash || (43 : Byte) == 43) = true := by decide
    have noDash : ((43 : Byte) == dash) = false := by decide
    rw [isSign, if_pos rfl, taken, if_neg run.1, noDash, if_neg Bool.false_ne_true]

theorem strtol_negative (spaces : ∀ c ∈ blanks, isSpace c = true) (run : DigitRun digits)
    (ended : ∀ c, rest.head? = some c → isDigit c = false) :
    strtol (blanks ++ ([dash] ++ (digits ++ rest))) =
      some (-((min (decimal digits) (longMax + 1) : Nat) : Int)) := by
  have taken := takeWhile_digits run.2 ended
  have isSign : (dash == dash || dash == 43) = true := by decide
  unfold strtol
  dsimp only
  rw [List.singleton_append, dropWhile_blanks spaces (by decide), List.head?_cons]
  simp only [Option.some_beq_some, List.drop_succ_cons, List.drop_zero]
  rw [isSign, if_pos rfl, taken, if_neg run.1, BEq.rfl, if_pos rfl]

end Conversion

theorem ReadsAsNumber.strtol_eq {text : Bytes} (reads : ReadsAsNumber text) :
    ∃ number : Nat, strtol text = some (number : Int) := by
  obtain ⟨blanks, sign, digits, rest, rfl, spaces, signed, run, ended, zeros⟩ := reads
  rcases signed with rfl | rfl | rfl
  · exact ⟨_, strtol_unsigned spaces (Or.inl rfl) run ended⟩
  · exact ⟨_, strtol_unsigned spaces (Or.inr rfl) run ended⟩
  · refine ⟨0, ?_⟩
    rw [strtol_negative spaces run ended, zeros rfl]
    rfl

theorem readsAsNumber_of_strtol {text : Bytes} {number : Int} (converted : strtol text = some number)
    (positive : 0 ≤ number) : ReadsAsNumber text := by
  have front : text = text.takeWhile isSpace ++ text.dropWhile isSpace :=
    List.takeWhile_append_dropWhile.symm
  have spaces : ∀ c ∈ text.takeWhile isSpace, isSpace c = true := fun c member =>
    List.mem_takeWhile_imp member
  have digits : ∀ unsigned : Bytes, unsigned.takeWhile isDigit ≠ [] →
      DigitRun (unsigned.takeWhile isDigit) := fun unsigned nonempty =>
    ⟨nonempty, List.all_eq_true.mpr fun c member => List.mem_takeWhile_imp member⟩
  have ended : ∀ (unsigned : Bytes) (c : Byte),
      (unsigned.dropWhile isDigit).head? = some c → isDigit c = false := by
    intro unsigned c head
    simpa [head] using List.head?_dropWhile_not isDigit unsigned
  unfold strtol at converted
  dsimp only at converted
  generalize text.dropWhile isSpace = signed at converted front
  by_cases negative : signed.head? = some dash
  · obtain ⟨unsigned, rfl⟩ : ∃ unsigned, signed = dash :: unsigned := by
      cases signed with
      | nil => contradiction
      | cons c unsigned => exact ⟨unsigned, by rw [Option.some.inj negative]⟩
    simp only [negative, BEq.rfl, Bool.true_or, if_true, List.drop_succ_cons, List.drop_zero]
      at converted
    split at converted
    next => contradiction
    next nonempty =>
      refine ⟨_, [dash], unsigned.takeWhile isDigit, unsigned.dropWhile isDigit, ?_, spaces,
        Or.inr (Or.inr rfl), digits unsigned nonempty, ended unsigned, fun _ => ?_⟩
      · rw [List.takeWhile_append_dropWhile, List.singleton_append]
        exact front
      · have value := Option.some.inj converted
        unfold longMax at value
        omega
  · by_cases plus : signed.head? = some 43
    · obtain ⟨unsigned, rfl⟩ : ∃ unsigned, signed = 43 :: unsigned := by
        cases signed with
        | nil => contradiction
        | cons c unsigned => exact ⟨unsigned, by rw [Option.some.inj plus]⟩
      simp only [plus, BEq.rfl, Bool.or_true, if_true, List.drop_succ_cons, List.drop_zero]
        at converted
      split at converted
      next => contradiction
      next nonempty =>
        refine ⟨_, [43], unsigned.takeWhile isDigit, unsigned.dropWhile isDigit, ?_, spaces,
          Or.inr (Or.inl rfl), digits unsigned nonempty, ended unsigned, fun other => ?_⟩
        · rw [List.takeWhile_append_dropWhile, List.singleton_append]
          exact front
        · exact absurd other (by decide)
    · have unsigned : (signed.head? == some dash || signed.head? == some 43) = false := by
        simp [negative, plus]
      rw [unsigned] at converted
      simp only [Bool.false_eq_true, if_false] at converted
      split at converted
      next => contradiction
      next nonempty =>
        refine ⟨_, [], signed.takeWhile isDigit, signed.dropWhile isDigit, ?_, spaces,
          Or.inl rfl, digits signed nonempty, ended signed, fun other => ?_⟩
        · rw [List.takeWhile_append_dropWhile, List.nil_append]
          exact front
        · exact absurd other (by decide)

theorem convertedLength_eq_none {text : Bytes} :
    convertedLength text = none ↔ ¬ ReadsAsNumber text := by
  unfold convertedLength
  constructor
  · intro nothing reads
    obtain ⟨number, converted⟩ := reads.strtol_eq
    rw [converted] at nothing
    dsimp only at nothing
    rw [if_neg (by omega)] at nothing
    contradiction
  · intro other
    cases converted : strtol text with
    | none => rfl
    | some number =>
        dsimp only
        split
        next => rfl
        next positive => exact absurd (readsAsNumber_of_strtol converted (by omega)) other

/-! ## The length taken -/

theorem digitRun_cString {value : Bytes} (run : DigitRun value) : cString value = value := by
  unfold cString
  refine List.takeWhile_eq_self_iff.mpr fun c member => ?_
  rw [decide_eq_true_eq]
  rintro rfl
  exact absurd (List.all_eq_true.mp run.2 0 member) (by decide)

theorem DigitRun.converted {value : Bytes} (run : DigitRun value) :
    convertedLength (cString value) = some (min (decimal value) longMax) := by
  unfold convertedLength
  rw [digitRun_cString run, strtol_digits run.1 run.2]
  dsimp only
  rw [if_neg (by omega), Int.toNat_natCast]

/-- Zeros, one at least, are the run of digits that stands for 0. -/
theorem digitRun_zero_iff {value : Bytes} (nonempty : value ≠ []) :
    DigitRun value ∧ decimal value = 0 ↔ ∀ c ∈ value, c = zero := by
  constructor
  · rintro ⟨run, none'⟩
    exact (decimal_eq_zero run.2).mp none'
  · intro zeros
    have run : value.all isDigit = true := by
      refine List.all_eq_true.mpr fun c member => ?_
      rw [zeros c member]
      decide
    exact ⟨⟨nonempty, run⟩, (decimal_eq_zero run).mpr zeros⟩

/-- The values from which the length declared is taken. -/
theorem takenLength_iff (declared : Option Bytes) :
    takenLength declared = lengthOf declared ↔ ReadExactly declared := by
  cases declared with
  | none => exact iff_of_true rfl trivial
  | some value =>
      unfold takenLength lengthOf ReadExactly
      by_cases long : 32 ≤ value.length
      · have nonempty : value ≠ [] := List.ne_nil_of_length_pos (by omega)
        have short : ¬ value.length < 32 := by omega
        simp only [short, long, if_true, false_and, false_or, true_and]
        rw [← digitRun_zero_iff nonempty]
        constructor
        · intro same
          split at same
          next fits => exact ⟨fits.1, (Option.some.inj same).symm⟩
          next => contradiction
        · intro zeros
          rw [if_pos ⟨zeros.1, zeros.2 ▸ Nat.zero_le _⟩, zeros.2]
      · have short : value.length < 32 := by omega
        simp only [short, long, if_false, true_and, false_and, or_false]
        by_cases run : DigitRun value
        · simp only [run, true_and, not_true_eq_false, false_and, or_false]
          rw [run.converted]
          constructor
          · intro same
            split at same
            next fits => exact fits
            next => contradiction
          · intro fits
            rw [if_pos fits, Nat.min_eq_left fits]
        · simp only [run, false_and, if_false, not_false_eq_true, true_and, false_or]
          exact convertedLength_eq_none

/-- A complete block is parsed with the length that is taken. -/
theorem takesLength_iff {c : HttpConn} {headersEnd eol : Nat}
    (wellFormed : WellFormed c headersEnd eol) (declared : Option Bytes) :
    TakesLength c declared ↔ contentLengthOf (headerBlock c headersEnd) = lengthOf declared := by
  obtain ⟨target, request⟩ := Option.isSome_iff_exists.mp wellFormed.request
  have complete := wellFormed.complete
  have line := wellFormed.line
  unfold TakesLength httpConnTryParse
  unfold headerBlock at line ⊢
  simp only [complete, line, request]
  cases contentLengthOf (c.buf.take (headersEnd - 4)) with
  | none => cases lengthOf declared <;> simp
  | some length => cases lengthOf declared <;> simp [eq_comm]

/-- No line of the request, as far as its first Content-Length header, has a lone carriage
return in it. -/
def PlainHeader (headers : Bytes) : Prop :=
  ∀ line ∈ upTo (namesHeader contentLengthName) (headerLines headers), carriageReturn ∉ line

/-- The length is taken as the request's own header lines declare it, and these are the lines
it is looked for on. -/
structure TakesDeclared (c : HttpConn) (headersEnd : Nat) : Prop where
  lines : scannedLines (headerBlock c headersEnd) contentLengthName =
    upTo (namesHeader contentLengthName) (headerLines (headerBlock c headersEnd))
  length : TakesLength c (firstLength (headerLines (headerBlock c headersEnd)))

/-- On plain lines the length declared is taken, and every other declaration refused, if and
only if the value is one of those read exactly. -/
theorem takesLength_plain {c : HttpConn} {headersEnd eol : Nat}
    (wellFormed : WellFormed c headersEnd eol) (plain : PlainHeader (headerBlock c headersEnd)) :
    TakesLength c (firstLength (headerLines (headerBlock c headersEnd))) ↔
      ReadExactly (firstLength (headerLines (headerBlock c headersEnd))) := by
  have same : firstLength (scannedLines (headerBlock c headersEnd) contentLengthName) =
      firstLength (headerLines (headerBlock c headersEnd)) := by
    rw [(scannedLines_eq_iff _ _).mpr plain, firstLength, find?_upTo]
    rfl
  rw [takesLength_iff wellFormed, contentLengthOf_eq, same, takenLength_iff]

/-- For every complete block with a well-formed request line, what the header lines of the
request declare is found on them, taken when it is a length and refused when it is none, if
and only if these lines are plain and the value is one of those read exactly. -/
theorem takesDeclared_iff {c : HttpConn} {headersEnd eol : Nat}
    (wellFormed : WellFormed c headersEnd eol) :
    TakesDeclared c headersEnd ↔
      PlainHeader (headerBlock c headersEnd) ∧
        ReadExactly (firstLength (headerLines (headerBlock c headersEnd))) := by
  constructor
  · intro takes
    have plain : PlainHeader (headerBlock c headersEnd) := (scannedLines_eq_iff _ _).mp takes.lines
    exact ⟨plain, (takesLength_plain wellFormed plain).mp takes.length⟩
  · rintro ⟨plain, reads⟩
    exact ⟨(scannedLines_eq_iff _ _).mpr plain, (takesLength_plain wellFormed plain).mpr reads⟩

/-- The connection that has received a request with this Content-Length. -/
def declaring (value : Bytes) : HttpConn :=
  (httpConnFeed .init
    (ascii "PUT /a HTTP/1.1\r\nContent-Length: " ++ value ++ ascii "\r\n\r\n")).1

theorem declaring_wellFormed :
    WellFormed (declaring (ascii "48914")) 42 15 ∧ WellFormed (declaring (ascii "5, 6")) 41 15 ∧
      WellFormed (declaring (ascii "00000000000000000000000000000005")) 69 15 := by
  refine ⟨⟨?_, ?_, ?_⟩, ⟨?_, ?_, ?_⟩, ⟨?_, ?_, ?_⟩⟩ <;> decide +kernel

/-- A length that fits. -/
theorem declared_length_taken : TakesDeclared (declaring (ascii "48914")) 42 := by
  refine (takesDeclared_iff declaring_wellFormed.1).mpr ⟨?_, ?_⟩
  · exact (by decide +kernel : ∀ line ∈ upTo (namesHeader contentLengthName)
      (headerLines (headerBlock (declaring (ascii "48914")) 42)), carriageReturn ∉ line)
  · have value : firstLength (headerLines (headerBlock (declaring (ascii "48914")) 42)) =
        some (ascii "48914") := by decide +kernel
    rw [value]
    exact Or.inl ⟨by decide, Or.inl ⟨by decide, by decide⟩⟩

/-- A request that declares no length, with a lone carriage return in another header. -/
def undeclared : HttpConn :=
  (httpConnFeed .init (ascii "PUT /a HTTP/1.1\r\nX: a\rYContent-Length: 5\r\n\r\n")).1

/-- Text behind a number is not looked at, the number 5 of 32 digits is taken for no
declaration, and a length is taken that no line of the request declares. -/
theorem declared_length_missed :
    ¬ TakesLength (declaring (ascii "5, 6"))
        (firstLength (headerLines (headerBlock (declaring (ascii "5, 6")) 41))) ∧
      ¬ TakesLength (declaring (ascii "00000000000000000000000000000005"))
        (firstLength (headerLines
          (headerBlock (declaring (ascii "00000000000000000000000000000005")) 69))) ∧
      firstLength (headerLines (headerBlock undeclared 44)) = none ∧
      ¬ TakesLength undeclared (firstLength (headerLines (headerBlock undeclared 44))) := by
  have wellFormed : WellFormed undeclared 44 15 := by
    refine ⟨?_, ?_, ?_⟩ <;> decide +kernel
  have undeclaredLine : firstLength (headerLines (headerBlock undeclared 44)) = none := by
    decide +kernel
  refine ⟨?_, ?_, undeclaredLine, ?_⟩
  · rw [takesLength_iff declaring_wellFormed.2.1]
    decide +kernel
  · rw [takesLength_iff declaring_wellFormed.2.2]
    decide +kernel
  · rw [undeclaredLine, takesLength_iff wellFormed]
    decide +kernel

end CixCache
