import Mathlib.Data.List.TakeWhile
import CixCache.Lib.Lines
import CixCache.Server.Http

/-!
Contract: the header lookup against the lines of a request.

Owns: `headerLines`, the lines of a header block behind its request line, ended by CRLF
alone; `lookupHeader`, the first of them with a name; `scannedLines`, the lines that
`http_find_header` reads instead; and that the two agree exactly where no line as far as the
header has a carriage return in it.

Does not own: what the value of a header means.
-/

namespace CixCache

open CixCache.Lib

/-! ## Lines ended by CRLF -/

/-- The header lines of a block. -/
def headerLines (headers : Bytes) : List Bytes := (pairLines carriageReturn lineFeed headers).tail

/-- The text before the first colon is the name, in either case. -/
def namesHeader (name line : Bytes) : Bool :=
  decide (colon ∈ line) && strcasecmpEq (line.takeWhile fun c => c ≠ colon) name

/-- What follows the first colon, without the blanks around it. -/
def headerValue (line : Bytes) : Bytes := trimBlanks ((line.dropWhile fun c => c ≠ colon).drop 1)

/-- The value of the first line with the name, if it fits. -/
def lookupHeader (lines : List Bytes) (name : Bytes) (outSize : Nat) : Option Bytes :=
  match lines.find? (namesHeader name) with
  | none => none
  | some line => if outSize ≤ (headerValue line).length then none else some (headerValue line)

/-! ## Lines of the scan -/

/-- The lines the loop of `http_find_header` reads, the one it finds included. -/
def scannedFrom (name : Bytes) : Nat → Bytes → List Bytes
  | 0, _ => []
  | _ + 1, [] => []
  | fuel + 1, text =>
      let line := text.takeWhile fun c => c ≠ carriageReturn
      let next := (text.dropWhile fun c => c ≠ carriageReturn).drop 2
      if namesHeader name line then [line] else line :: scannedFrom name fuel next

def scannedLines (headers name : Bytes) : List Bytes :=
  match skipRequestLine headers with
  | none => []
  | some lines => scannedFrom name lines.length lines

/-- The lookup gives what the lines of the request say, and reads these lines: no other
bytes are ever taken for one. -/
structure ReadsLines (headers name : Bytes) (outSize : Nat) : Prop where
  result : httpFindHeader headers name outSize = lookupHeader (headerLines headers) name outSize
  lines : scannedLines headers name = upTo (namesHeader name) (headerLines headers)

/-! ## The scan as a lookup -/

theorem lookupHeader_cons (line : Bytes) (rest : List Bytes) (name : Bytes) (outSize : Nat) :
    lookupHeader (line :: rest) name outSize =
      if namesHeader name line then
        if outSize ≤ (headerValue line).length then none else some (headerValue line)
      else lookupHeader rest name outSize := by
  unfold lookupHeader
  rw [List.find?_cons]
  cases namesHeader name line <;> rfl

theorem lookupHeader_upTo (lines : List Bytes) (name : Bytes) (outSize : Nat) :
    lookupHeader (upTo (namesHeader name) lines) name outSize =
      lookupHeader lines name outSize := by
  unfold lookupHeader
  rw [find?_upTo]

/-- One turn of the loop. -/
theorem findHeaderLine_succ (name : Bytes) (outSize fuel : Nat) {text : Bytes}
    (nonempty : text ≠ []) :
    findHeaderLine name outSize (fuel + 1) text =
      if namesHeader name (text.takeWhile fun c => c ≠ carriageReturn) then
        if outSize ≤ (headerValue (text.takeWhile fun c => c ≠ carriageReturn)).length then none
        else some (headerValue (text.takeWhile fun c => c ≠ carriageReturn))
      else
        findHeaderLine name outSize fuel
          ((text.dropWhile fun c => c ≠ carriageReturn).drop 2) := by
  obtain ⟨first, rest, rfl⟩ := List.exists_cons_of_ne_nil nonempty
  unfold namesHeader headerValue
  conv_lhs => unfold findHeaderLine
  dsimp only
  by_cases colonned : colon ∈ (first :: rest).takeWhile fun c => c ≠ carriageReturn
  · rw [if_pos colonned, decide_eq_true colonned, Bool.true_and]
  · rw [if_neg colonned, decide_eq_false colonned, Bool.false_and, if_neg Bool.false_ne_true]

theorem scannedFrom_succ (name : Bytes) (fuel : Nat) {text : Bytes} (nonempty : text ≠ []) :
    scannedFrom name (fuel + 1) text =
      if namesHeader name (text.takeWhile fun c => c ≠ carriageReturn) then
        [text.takeWhile fun c => c ≠ carriageReturn]
      else
        (text.takeWhile fun c => c ≠ carriageReturn) ::
          scannedFrom name fuel ((text.dropWhile fun c => c ≠ carriageReturn).drop 2) := by
  obtain ⟨first, rest, rfl⟩ := List.exists_cons_of_ne_nil nonempty
  rfl

/-- The loop answers from the lines it reads. -/
theorem findHeaderLine_eq (name : Bytes) (outSize fuel : Nat) (text : Bytes) :
    findHeaderLine name outSize fuel text =
      lookupHeader (scannedFrom name fuel text) name outSize := by
  induction fuel generalizing text with
  | zero => rfl
  | succ fuel inductionHypothesis =>
      by_cases nonempty : text = []
      · rw [nonempty]
        rfl
      · rw [findHeaderLine_succ name outSize fuel nonempty, scannedFrom_succ name fuel nonempty]
        split
        next named => rw [lookupHeader_cons, if_pos named]
        next other => rw [lookupHeader_cons, if_neg other, inductionHypothesis]

theorem httpFindHeader_eq (headers name : Bytes) (outSize : Nat) :
    httpFindHeader headers name outSize =
      lookupHeader (scannedLines headers name) name outSize := by
  unfold httpFindHeader scannedLines
  cases skipRequestLine headers with
  | none => rfl
  | some lines => exact findHeaderLine_eq name outSize lines.length lines

/-! ## Where the two readings agree -/

/-- What is behind the first CRLF are the lines but the first. -/
theorem headerLines_skip (headers : Bytes) :
    headerLines headers =
      match skipRequestLine headers with
      | none => []
      | some rest => pairLines carriageReturn lineFeed rest := by
  unfold headerLines
  induction headers using skipRequestLine.induct with
  | case1 => rfl
  | case2 c => rfl
  | case3 c d rest pair =>
      rw [skipRequestLine, if_pos pair, pairLines, if_pos pair]
      rfl
  | case4 c d rest other inductionHypothesis =>
      rw [skipRequestLine, if_neg other, ← inductionHypothesis, pairLines, if_neg other]
      cases pairLines carriageReturn lineFeed (d :: rest) <;> rfl

/-- A line without a carriage return is the line that the loop reads. -/
theorem takeWhile_line {line rest : Bytes} (plain : carriageReturn ∉ line) :
    ((line ++ carriageReturn :: rest).takeWhile fun c => c ≠ carriageReturn) = line ∧
      ((line ++ carriageReturn :: rest).dropWhile fun c => c ≠ carriageReturn) =
        carriageReturn :: rest := by
  have other : ∀ c ∈ line, decide (c ≠ carriageReturn) = true := by
    intro c member
    exact decide_eq_true fun same => plain (same ▸ member)
  rw [List.takeWhile_append_of_pos other, List.dropWhile_append_of_pos other]
  simp

/-- Without a carriage return in them the lines are those the loop reads. -/
theorem scannedFrom_lines {name : Bytes} {fuel : Nat} {text : Bytes} (enough : text.length ≤ fuel)
    (plain : ∀ line ∈ upTo (namesHeader name) (pairLines carriageReturn lineFeed text),
      carriageReturn ∉ line) :
    scannedFrom name fuel text =
      upTo (namesHeader name) (pairLines carriageReturn lineFeed text) := by
  induction fuel generalizing text with
  | zero =>
      rw [List.eq_nil_of_length_eq_zero (Nat.le_zero.mp enough)]
      rfl
  | succ fuel inductionHypothesis =>
      rcases pairLines_cases carriageReturn lineFeed text with empty | whole | cut
      · rw [empty]
        rfl
      · have head : carriageReturn ∉ text := by
          apply plain
          rw [whole, upTo]
          split <;> exact List.mem_cons_self
        have all : ∀ c ∈ text, decide (c ≠ carriageReturn) = true := by
          intro c member
          exact decide_eq_true fun same => head (same ▸ member)
        have nonempty : text ≠ [] := by
          rintro rfl
          contradiction
        rw [scannedFrom_succ name fuel nonempty, whole, List.takeWhile_eq_self_iff.mpr all,
          List.dropWhile_eq_nil_iff.mpr all, upTo]
        have ended : scannedFrom name fuel [] = [] := by cases fuel <;> rfl
        rw [List.drop_nil, ended]
        rfl
      · obtain ⟨line, rest, rfl, lines⟩ := cut
        rw [lines, upTo] at plain ⊢
        have head : carriageReturn ∉ line := by
          apply plain
          split <;> exact List.mem_cons_self
        obtain ⟨taken, left⟩ := @takeWhile_line line (lineFeed :: rest) head
        rw [scannedFrom_succ name fuel (by simp), taken, left]
        split
        next => rfl
        next other =>
          rw [if_neg other] at plain
          have shorter : rest.length ≤ fuel := by
            simp only [List.length_append, List.length_cons] at enough
            omega
          have later := inductionHypothesis shorter fun next member =>
            plain next (List.mem_cons_of_mem _ member)
          rw [← later]
          rfl

/-- The loop reads no line with a carriage return in it. -/
theorem carriageReturn_notMem_scannedFrom (name : Bytes) (fuel : Nat) (text : Bytes) :
    ∀ line ∈ scannedFrom name fuel text, carriageReturn ∉ line := by
  have plain : ∀ text : Bytes,
      carriageReturn ∉ text.takeWhile fun c => c ≠ carriageReturn := by
    intro text member
    simpa using List.mem_takeWhile_imp member
  induction fuel generalizing text with
  | zero =>
      intro line member
      contradiction
  | succ fuel inductionHypothesis =>
      intro line member
      by_cases nonempty : text = []
      · rw [nonempty] at member
        contradiction
      · rw [scannedFrom_succ name fuel nonempty] at member
        split at member
        next =>
          rw [List.mem_singleton.mp member]
          exact plain text
        next =>
          rcases List.mem_cons.mp member with here | later
          · rw [here]
            exact plain text
          · exact inductionHypothesis _ line later

theorem scannedLines_eq_iff (headers name : Bytes) :
    scannedLines headers name = upTo (namesHeader name) (headerLines headers) ↔
      ∀ line ∈ upTo (namesHeader name) (headerLines headers), carriageReturn ∉ line := by
  rw [headerLines_skip]
  unfold scannedLines
  cases skipRequestLine headers with
  | none => simp [upTo]
  | some rest =>
      dsimp only
      constructor
      · intro same
        rw [← same]
        exact carriageReturn_notMem_scannedFrom name rest.length rest
      · exact scannedFrom_lines (Nat.le_refl _)

/-- For every header block, name and size of the caller's buffer, the lookup reads the lines
of the request and answers from them if and only if none of these lines, as far as the first
with the name, has a carriage return in it. -/
theorem readsLines_iff (headers name : Bytes) (outSize : Nat) :
    ReadsLines headers name outSize ↔
      ∀ line ∈ upTo (namesHeader name) (headerLines headers), carriageReturn ∉ line := by
  rw [← scannedLines_eq_iff]
  constructor
  · exact fun reads => reads.lines
  · intro lines
    exact ⟨by rw [httpFindHeader_eq, lines, lookupHeader_upTo], lines⟩

/-- A block with a lone carriage return in the value of one header. -/
def smuggling : Bytes := ascii "GET / HTTP/1.1\r\nX: a\rYAuthorization: Bearer t"

/-- Two bytes behind a lone carriage return a header is read inside the value of another,
and the value itself is cut. -/
theorem header_inside_value :
    ¬ ReadsLines smuggling (ascii "Authorization") 288 ∧
      httpFindHeader smuggling (ascii "Authorization") 288 = some (ascii "Bearer t") ∧
      lookupHeader (headerLines smuggling) (ascii "Authorization") 288 = none ∧
      httpFindHeader smuggling (ascii "X") 288 ≠
        lookupHeader (headerLines smuggling) (ascii "X") 288 := by
  have found : httpFindHeader smuggling (ascii "Authorization") 288 = some (ascii "Bearer t") := by
    decide +kernel
  have absent : lookupHeader (headerLines smuggling) (ascii "Authorization") 288 = none := by
    decide +kernel
  refine ⟨fun reads => ?_, found, absent, by decide +kernel⟩
  have same := reads.result
  rw [found, absent] at same
  contradiction

end CixCache
