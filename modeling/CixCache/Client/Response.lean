import CixCache.Client.Request
import CixCache.JsonRoundTrip
import CixCache.Server.Transfer

/-!
Contract: the responses of the server, as the command line client reads them.

Owns: `readResponse`, the reading part of `do_one_request`, and the `sscanf` of a status
line; that a response the server sends whole is read with its status, type and body; that
the status of a response is read from a beginning of it exactly when its digits arrived; and
that a document that was cut short is not taken for one.

Does not own: the request (`Client.Request`), and what a command prints.
-/

namespace CixCache

open CixCache.Lib

/-! ## Functions of the source -/

/-- What is stored through the `int` of a `%d`. -/
def toInt (value : Int) : Int := value.bmod (2 ^ 32)

/-- The number of a `%d`, and what is behind it. -/
def scanNumber (text : Bytes) : Option (Int × Bytes) :=
  match strtol text with
  | none => none
  | some value =>
      let text := text.dropWhile isSpace
      let unsigned := if text.head? == some dash || text.head? == some 43 then text.drop 1 else text
      some (toInt value, unsigned.dropWhile isDigit)

/-- `sscanf(text, "HTTP/1.1 %d", &status)` -/
def scanStatus (text : Bytes) : Option Int :=
  let literal := ascii "HTTP/1.1"
  let text := cString text
  if literal <+: text then (scanNumber (text.drop literal.length)).map Prod.fst else none

/-- A line up to its CRLF, and what is behind it. -/
def cutLine : Bytes → Bytes × Bytes
  | [] => ([], [])
  | [c] => ([c], [])
  | c :: d :: rest =>
      if c = carriageReturn ∧ d = lineFeed then ([], rest)
      else (c :: (cutLine (d :: rest)).1, (cutLine (d :: rest)).2)

/-- The loop of `find_header_value` over the lines; each turn consumes a byte at least. -/
def findHeaderValueFrom (name : Bytes) (outSize : Nat) : Nat → Bytes → Bytes
  | 0, _ => []
  | _ + 1, [] => []
  | fuel + 1, text =>
      let (line, rest) := cutLine text
      let key := line.takeWhile fun c => c ≠ colon
      if colon ∈ line ∧ key.length = name.length ∧ strcasecmpEq key name then
        ((line.drop (key.length + 1)).dropWhile fun c => c = space).take (outSize - 1)
      else findHeaderValueFrom name outSize fuel rest

def findHeaderValue (headers name : Bytes) (outSize : Nat) : Bytes :=
  findHeaderValueFrom name outSize headers.length (cutLine headers).2

/-- `struct cix_response`; an empty body stands for NULL. -/
structure CixResponse where
  status : Int
  contentType : Bytes
  body : Bytes
  json : Option JsonValue

/-- What `do_one_request` makes of everything it has read; `none` for -1. -/
def readResponse (stream : Bytes) : Option CixResponse :=
  match scanStatus stream with
  | none => none
  | some status =>
      match memmem blankLine (cString stream) with
      | none => some ⟨status, [], [], none⟩
      | some offset =>
          let body := stream.drop (offset + 4)
          some ⟨status, findHeaderValue (stream.take offset) (ascii "Content-Type") 64, body,
            if body = [] then none else jsonParse body⟩

/-! ## The server's header as a block -/

/-- The lines `http_format_header` writes behind the status line. -/
def replyFields (contentType : Bytes) (contentLength : Nat) (extra : List Bytes) : List Bytes :=
  [ascii "Content-Type: " ++ contentType, ascii "Content-Length: " ++ printed contentLength,
    ascii "Connection: close"] ++ extra

def statusLine (status : Nat) : Bytes :=
  ascii "HTTP/1.1 " ++ printed status ++ ascii " " ++ httpStatusText status

/-- Texts a header can carry: they keep to their lines, and none is a NUL. -/
structure HeaderTexts (contentType : Bytes) (extra : List Bytes) : Prop where
  short : contentType.length < 64
  contentType : carriageReturn ∉ contentType ∧ 0 ∉ contentType ∧ contentType.head? ≠ some space
  extra : ∀ line ∈ extra, line ≠ [] ∧ carriageReturn ∉ line ∧ 0 ∉ line

section Header

variable {contentType : Bytes} {extra : List Bytes}

theorem headerText_block (status : Nat) (contentType : Bytes) (contentLength : Nat)
    (extra : List Bytes) :
    headerText status contentType contentLength (extra.flatMap (· ++ crlf)) =
      block carriageReturn lineFeed
        (statusLine status :: replyFields contentType contentLength extra) := by
  have opening : ascii "\r\nContent-Type: " = crlf ++ ascii "Content-Type: " := by decide
  have length : ascii "\r\nContent-Length: " = crlf ++ ascii "Content-Length: " := by decide
  have closing : ascii "\r\nConnection: close\r\n" = crlf ++ ascii "Connection: close" ++ crlf := by
    decide
  have ending : ascii "\r\n" = crlf := by decide
  have rest : ∀ lines : List Bytes,
      block carriageReturn lineFeed lines = lines.flatMap (· ++ crlf) ++ crlf := by
    intro lines
    induction lines with
    | nil => rfl
    | cons head tail inductionHypothesis =>
        rw [block, inductionHypothesis]
        simp [crlf]
  rw [rest, headerText, opening, length, closing, ending]
  simp [statusLine, replyFields]

theorem httpStatusText_clean (status : Nat) :
    carriageReturn ∉ httpStatusText status ∧ 0 ∉ httpStatusText status := by
  unfold httpStatusText
  split <;> decide

theorem printed_clean (n : Nat) : carriageReturn ∉ printed n ∧ 0 ∉ printed n :=
  ⟨fun member => absurd (printed_digits n _ member) (by decide),
    fun member => absurd (printed_digits n _ member) (by decide)⟩

theorem notMem_append {c : Byte} {front back : Bytes} (left : c ∉ front) (right : c ∉ back) :
    c ∉ front ++ back := by
  intro member
  rcases List.mem_append.mp member with here | there
  · exact left here
  · exact right there

/-- Every line of the header is there, and has no line end and no NUL in it. -/
theorem replyLines_clean (texts : HeaderTexts contentType extra) (status contentLength : Nat) :
    ∀ line ∈ statusLine status :: replyFields contentType contentLength extra,
      line ≠ [] ∧ carriageReturn ∉ line ∧ 0 ∉ line := by
  obtain ⟨noReturn, noNul⟩ := httpStatusText_clean status
  obtain ⟨digitsReturn, digitsNul⟩ := printed_clean status
  obtain ⟨lengthReturn, lengthNul⟩ := printed_clean contentLength
  intro line member
  rcases List.mem_cons.mp member with rfl | inFields
  · refine ⟨by simp [statusLine, printed_ne_nil], ?_, ?_⟩
    · exact notMem_append (notMem_append (notMem_append (by decide) digitsReturn) (by decide)) noReturn
    · exact notMem_append (notMem_append (notMem_append (by decide) digitsNul) (by decide)) noNul
  rcases List.mem_append.mp inFields with fixed | isExtra
  · simp only [List.mem_cons, List.not_mem_nil, or_false] at fixed
    rcases fixed with rfl | rfl | rfl
    · exact ⟨by simp [ascii], notMem_append (by decide) texts.contentType.1,
        notMem_append (by decide) texts.contentType.2.1⟩
    · exact ⟨by simp [printed_ne_nil], notMem_append (by decide) lengthReturn,
        notMem_append (by decide) lengthNul⟩
    · decide
  · exact texts.extra line isExtra

theorem replyLines_plain (texts : HeaderTexts contentType extra) (status contentLength : Nat) :
    PlainLines carriageReturn
      (statusLine status :: replyFields contentType contentLength extra) := by
  intro line member
  obtain ⟨nonempty, noReturn, _⟩ := replyLines_clean texts status contentLength line member
  exact ⟨nonempty, noReturn⟩

end Header

/-! ## Reading a response -/

section Reading

variable {contentType : Bytes} {extra : List Bytes}

theorem toInt_of_small {n : Nat} (small : n < 2 ^ 31) : toInt n = n := by
  unfold toInt
  rw [Int.bmod_def]
  have whole : (n : Int) % ((2 ^ 32 : Nat) : Int) = n := by
    apply Int.emod_eq_of_lt (Int.natCast_nonneg n)
    norm_cast
    omega
  have half : ((n : Int)) < (((2 ^ 32 : Nat) : Int) + 1) / 2 := by
    norm_num
    omega
  rw [whole, if_pos half]

theorem cString_append {front : Bytes} (noNul : 0 ∉ front) (back : Bytes) :
    cString (front ++ back) = front ++ cString back := by
  have kept : ∀ c ∈ front, decide (c ≠ 0) = true :=
    fun c member => decide_eq_true fun same => noNul (same ▸ member)
  unfold cString
  rw [List.takeWhile_append_of_pos kept]

theorem scanNumber_space (text : Bytes) : scanNumber (space :: text) = scanNumber text := by
  have skipped : (space :: text).dropWhile isSpace = text.dropWhile isSpace :=
    List.dropWhile_cons_of_pos (by decide)
  unfold scanNumber strtol
  rw [skipped]

/-- Digits at the front are scanned, up to what is no digit. -/
theorem scanNumber_digits {digits rest : Bytes} (nonempty : digits ≠ [])
    (all : ∀ c ∈ digits, isDigit c = true) (small : decimal digits < 2 ^ 31)
    (ends : ∀ c, rest.head? = some c → isDigit c = false) :
    scanNumber (digits ++ rest) = some ((decimal digits : Int), rest) := by
  obtain ⟨first, others, rfl⟩ := List.exists_cons_of_ne_nil nonempty
  obtain ⟨noBlank, noDash, noPlus⟩ := digit_opens (all first List.mem_cons_self)
  have stop : rest.takeWhile isDigit = [] ∧ rest.dropWhile isDigit = rest := by
    cases rest with
    | nil => exact ⟨rfl, rfl⟩
    | cons c tail =>
        have noDigit := ends c rfl
        exact ⟨List.takeWhile_cons_of_neg (by simp [noDigit]),
          List.dropWhile_cons_of_neg (by simp [noDigit])⟩
  have skipped : (first :: others ++ rest).dropWhile isSpace = first :: others ++ rest := by
    rw [List.cons_append, List.dropWhile_cons_of_neg (by simp [noBlank])]
  have head : (first :: others ++ rest).head? = some first := rfl
  have range : decimal (first :: others) ≤ longMax := by
    have limit : 2 ^ 31 ≤ longMax := by decide
    omega
  have value : strtol (first :: others ++ rest) = some (decimal (first :: others) : Int) := by
    unfold strtol
    dsimp only
    rw [skipped, head, Option.some_beq_some, Option.some_beq_some, noDash, noPlus]
    simp only [Bool.or_self, Bool.false_eq_true, if_false]
    rw [List.takeWhile_append_of_pos all, stop.1, List.append_nil, if_neg nonempty,
      Nat.min_eq_left range]
  unfold scanNumber
  rw [value]
  dsimp only
  rw [skipped, head, Option.some_beq_some, Option.some_beq_some, noDash, noPlus]
  simp only [Bool.or_self, Bool.false_eq_true, if_false]
  rw [List.dropWhile_append_of_pos all, stop.2, toInt_of_small small]

/-- What ends before a NUL ends as before. -/
theorem cString_ends {rest : Bytes} {ends : Byte → Prop}
    (stops : ∀ c, rest.head? = some c → ends c) : ∀ c, (cString rest).head? = some c → ends c := by
  intro c first
  apply stops
  cases rest with
  | nil => simp [cString] at first
  | cons head tail =>
      by_cases nul : head = 0
      · rw [nul, cString, List.takeWhile_cons_of_neg (by simp)] at first
        contradiction
      · rw [cString, List.takeWhile_cons_of_pos (by simpa using nul)] at first
        exact first

theorem scanStatus_digits {digits rest : Bytes} (nonempty : digits ≠ [])
    (all : ∀ c ∈ digits, isDigit c = true) (small : decimal digits < 2 ^ 31)
    (ends : ∀ c, rest.head? = some c → isDigit c = false) :
    scanStatus (ascii "HTTP/1.1 " ++ (digits ++ rest)) = some (decimal digits : Int) := by
  have opening : ascii "HTTP/1.1 " = ascii "HTTP/1.1" ++ [space] := by decide
  have noNul : 0 ∉ ascii "HTTP/1.1 " ++ digits :=
    notMem_append (by decide) fun member => absurd (all 0 member) (by decide)
  unfold scanStatus
  dsimp only
  rw [← List.append_assoc, cString_append noNul, opening, List.append_assoc, List.append_assoc,
    if_pos ⟨_, rfl⟩, List.drop_append_of_le_length (Nat.le_refl _), List.drop_length,
    List.nil_append, List.singleton_append, scanNumber_space,
    scanNumber_digits nonempty all small (cString_ends ends)]
  rfl

/-- The status of a status line, whatever follows it. -/
theorem scanStatus_line {status : Nat} (small : status < 2 ^ 31) (rest : Bytes) :
    scanStatus (statusLine status ++ rest) = some status := by
  have gap : ascii " " = [space] := by decide
  have shape : statusLine status ++ rest =
      ascii "HTTP/1.1 " ++ (printed status ++ space :: (httpStatusText status ++ rest)) := by
    rw [statusLine, gap]
    simp
  have scanned := @scanStatus_digits (printed status) (space :: (httpStatusText status ++ rest))
    (printed_ne_nil status) (printed_digits status) (by rw [decimal_printed]; exact small)
    fun c first => by
      rw [← Option.some.inj first]
      decide
  rw [shape, scanned, decimal_printed]
  rfl

theorem cutLine_line {line : Bytes} (plain : carriageReturn ∉ line) (rest : Bytes) :
    cutLine (line ++ carriageReturn :: lineFeed :: rest) = (line, rest) := by
  induction line with
  | nil => simp [cutLine]
  | cons head tail inductionHypothesis =>
      rw [List.mem_cons, not_or] at plain
      obtain ⟨next, others, shape⟩ : ∃ next others,
          tail ++ carriageReturn :: lineFeed :: rest = next :: others :=
        List.exists_cons_of_ne_nil (by simp)
      have again := inductionHypothesis plain.2
      rw [shape] at again
      rw [List.cons_append, shape, cutLine, if_neg fun pair => plain.1 pair.1.symm, again]

/-- The type of a response is on the line behind its status line. -/
theorem findHeaderValue_type (texts : HeaderTexts contentType extra) (status contentLength : Nat) :
    findHeaderValue (headOf (statusLine status) (replyFields contentType contentLength extra))
      (ascii "Content-Type") 64 = contentType := by
  have plain := replyLines_plain texts status contentLength
  have statusPlain := (plain _ List.mem_cons_self).2
  have typePlain := (plain (ascii "Content-Type: " ++ contentType) (by simp [replyFields])).2
  obtain ⟨others, shape⟩ : ∃ others,
      headOf (statusLine status) (replyFields contentType contentLength extra) =
        statusLine status ++ carriageReturn :: lineFeed :: (ascii "Content-Type: " ++ contentType ++
          carriageReturn :: lineFeed :: others) :=
    ⟨_, rfl⟩
  have key : ascii "Content-Type: " ++ contentType =
      ascii "Content-Type" ++ colon :: space :: contentType := by
    have split : ascii "Content-Type: " = ascii "Content-Type" ++ colon :: [space] := by decide
    rw [split]
    simp
  obtain ⟨fuel, enough⟩ : ∃ fuel, (headOf (statusLine status)
      (replyFields contentType contentLength extra)).length = fuel + 1 := by
    rw [shape]
    exact ⟨_, by simp only [List.length_append, List.length_cons]; rfl⟩
  have named : (ascii "Content-Type: " ++ contentType).takeWhile (fun c => c ≠ colon) =
      ascii "Content-Type" := by
    rw [key]
    exact (takeWhile_key (by decide) _).1
  have kept : contentType.dropWhile (fun c => c = space) = contentType := by
    cases contentType with
    | nil => rfl
    | cons head tail =>
        have other : head ≠ space := fun same => texts.contentType.2.2 (by rw [same]; rfl)
        rw [List.dropWhile_cons_of_neg (by simpa using other)]
  have value : ((ascii "Content-Type: " ++ contentType).drop
      ((ascii "Content-Type").length + 1)).dropWhile (fun c => c = space) = contentType := by
    rw [key, List.append_cons, List.drop_append_of_le_length (by simp),
      List.drop_of_length_le (by simp), List.nil_append, List.dropWhile_cons_of_pos (by decide), kept]
  have nonempty : ∃ first more, ascii "Content-Type: " ++ contentType ++
      carriageReturn :: lineFeed :: others = first :: more :=
    List.exists_cons_of_ne_nil (by simp)
  obtain ⟨first, more, opened⟩ := nonempty
  unfold findHeaderValue
  rw [enough, shape, cutLine_line statusPlain, opened]
  unfold findHeaderValueFrom
  rw [← opened, cutLine_line typePlain]
  dsimp only
  rw [named, if_pos ⟨by rw [key]; simp, rfl, by decide⟩, value]
  exact List.take_of_length_le (by have short := texts.short; omega)

/-- A response that was sent whole is read as it was begun. -/
theorem readResponse_sent (texts : HeaderTexts contentType extra) {status contentLength : Nat}
    (small : status < 2 ^ 31) {header : Bytes}
    (begun : httpFormatHeader status contentType contentLength (extra.flatMap (· ++ crlf)) =
      some header) (body : Bytes) :
    readResponse (header ++ body) =
      some ⟨status, contentType, body, if body = [] then none else jsonParse body⟩ := by
  have plain := replyLines_plain texts status contentLength
  have clean := replyLines_clean texts status contentLength
  have shape : header = block carriageReturn lineFeed
      (statusLine status :: replyFields contentType contentLength extra) := by
    unfold httpFormatHeader at begun
    dsimp only at begun
    rw [← Option.some.inj (Option.ite_none_left_eq_some.mp begun).2, headerText_block]
  have noNul : ∀ lines : List Bytes, (∀ line ∈ lines, (0 : Byte) ∉ line) →
      0 ∉ block carriageReturn lineFeed lines := by
    intro lines
    induction lines with
    | nil =>
        intro _
        decide
    | cons head tail inductionHypothesis =>
        intro each
        rw [block, List.append_cons, List.append_cons]
        apply notMem_append
        · exact notMem_append (notMem_append (each head List.mem_cons_self) (by decide)) (by decide)
        · exact inductionHypothesis fun line member => each line (List.mem_cons_of_mem _ member)
  have headerClean : 0 ∉ header := by
    rw [shape]
    exact noNul _ fun line member => (clean line member).2.2
  have found : memmem blankLine (header ++ cString body) =
      some (headOf (statusLine status) (replyFields contentType contentLength extra)).length := by
    rw [shape]
    exact memmem_block (by decide) (by simp) plain _
  have split : header = headOf (statusLine status) (replyFields contentType contentLength extra) ++
      [carriageReturn, lineFeed, carriageReturn, lineFeed] := by
    rw [shape]
    exact block_eq (by simp)
  have line : scanStatus (header ++ body) = some (status : Int) := by
    rw [shape, block, List.append_assoc]
    exact scanStatus_line small _
  have headers : (header ++ body).take
      (headOf (statusLine status) (replyFields contentType contentLength extra)).length =
        headOf (statusLine status) (replyFields contentType contentLength extra) := by
    rw [split, List.append_assoc, List.take_append_of_le_length (Nat.le_refl _), List.take_length]
  have rest : (header ++ body).drop
      ((headOf (statusLine status) (replyFields contentType contentLength extra)).length + 4) =
        body := by
    have length : (headOf (statusLine status)
        (replyFields contentType contentLength extra)).length + 4 = header.length := by
      rw [split]
      simp
    rw [length, List.drop_append_of_le_length (Nat.le_refl _), List.drop_length, List.nil_append]
  unfold readResponse
  rw [line]
  dsimp only
  rw [cString_append headerClean, found]
  dsimp only
  rw [headers, rest, findHeaderValue_type texts]

end Reading

/-- An empty list is read as the document it is. -/
theorem empty_list_read :
    ∃ header, httpFormatHeader 200 (ascii "application/json") 2 [] = some header ∧
      readResponse (header ++ ascii "[]") =
        some ⟨200, ascii "application/json", ascii "[]", jsonParse (ascii "[]")⟩ := by
  have fits : (httpFormatHeader 200 (ascii "application/json") 2 []).isSome := by
    decide +kernel
  obtain ⟨header, begun⟩ := Option.isSome_iff_exists.mp fits
  have texts : HeaderTexts (ascii "application/json") [] :=
    ⟨by decide, by decide, fun _ member => absurd member List.not_mem_nil⟩
  exact ⟨header, begun, readResponse_sent texts (by decide) begun (ascii "[]")⟩

/-! ## A status line that arrived in part -/

section Partial

variable {status : Nat} {answer : Bytes}

theorem decimal_lt {digits : Bytes} (all : ∀ c ∈ digits, isDigit c = true) :
    decimal digits < 10 ^ digits.length := by
  rw [decimal_eq_runValue, runValue]
  have length : digits.length = (digitValues digits).length := (List.length_map _).symm
  rw [length]
  apply numeral_lt
  intro digit member
  obtain ⟨c, inside, rfl⟩ := List.mem_map.mp member
  have bounds := isDigit_iff.mp (all c inside)
  omega

theorem printed_three (threeDigits : 100 ≤ status ∧ status < 1000) :
    (printed status).length = 3 := by
  have most := printed_length (by decide : 0 < 3) threeDigits.2
  have least := decimal_lt (printed_digits status)
  rw [decimal_printed] at least
  by_contra other
  have few : (printed status).length ≤ 2 := by omega
  have bound := Nat.pow_le_pow_right (by decide : 0 < 10) few
  omega

/-- What came of an answer: nothing of its status, or digits of it. -/
inductive StatusPart (status : Nat) (answer : Bytes) : Prop
  | opening (few : answer.length ≤ 9) (same : answer = (ascii "HTTP/1.1 ").take answer.length)
  | digits {digits rest : Bytes} (many : 9 < answer.length)
      (same : answer = ascii "HTTP/1.1 " ++ (digits ++ rest))
      (all : ∀ c ∈ digits, isDigit c = true) (length : digits.length = min (answer.length - 9) 3)
      (ends : ∀ c, rest.head? = some c → isDigit c = false)
      (whole : 12 ≤ answer.length → digits = printed status)

theorem statusPart (threeDigits : 100 ≤ status ∧ status < 1000) {stream : Bytes}
    (opens : statusLine status <+: stream) (arrived : answer <+: stream) :
    StatusPart status answer := by
  have three := printed_three threeDigits
  have opening : (ascii "HTTP/1.1 ").length = 9 := by decide
  obtain ⟨more, rfl⟩ := opens
  have cut := List.prefix_iff_eq_take.mp arrived
  have shape : statusLine status ++ more =
      ascii "HTTP/1.1 " ++ (printed status ++ space :: (httpStatusText status ++ more)) := by
    have gap : ascii " " = [space] := by decide
    rw [statusLine, gap]
    simp
  rw [shape, List.take_append, opening] at cut
  by_cases few : answer.length ≤ 9
  · have nothing : answer.length - 9 = 0 := by omega
    rw [nothing, List.take_zero, List.append_nil] at cut
    exact .opening few cut
  · have front : (ascii "HTTP/1.1 ").take answer.length = ascii "HTTP/1.1 " :=
      List.take_of_length_le (by omega)
    rw [front, List.take_append, three] at cut
    apply StatusPart.digits (by omega) cut
    · exact fun c member => printed_digits status c (List.mem_of_mem_take member)
    · rw [List.length_take, three]
    · intro c first
      cases amount : answer.length - 9 - 3 with
      | zero =>
          rw [amount] at first
          contradiction
      | succ n =>
          rw [amount, List.take_succ_cons] at first
          rw [← Option.some.inj first]
          decide
    · intro long
      exact List.take_of_length_le (by omega)

theorem scanStatus_opening : ∀ n ≤ 9, scanStatus ((ascii "HTTP/1.1 ").take n) = none := by
  decide +kernel

/-- The status is scanned exactly when all of it arrived; of a part of it a number below 100
is scanned. -/
theorem scanStatus_part (threeDigits : 100 ≤ status ∧ status < 1000) {stream : Bytes}
    (opens : statusLine status <+: stream) (arrived : answer <+: stream) :
    (answer.length ≤ 9 → scanStatus answer = none) ∧
      (9 < answer.length → ∃ n : Nat, scanStatus answer = some (n : Int) ∧
        (12 ≤ answer.length → n = status) ∧ (answer.length < 12 → n < 100)) := by
  cases statusPart threeDigits opens arrived with
  | opening few same =>
      refine ⟨fun _ => ?_, fun many => absurd few (by omega)⟩
      rw [same]
      exact scanStatus_opening _ few
  | @digits digits rest many same all length ends whole =>
      have nonempty : digits ≠ [] := by
        rintro rfl
        rw [List.length_nil] at length
        omega
      have bound := decimal_lt all
      have three : digits.length ≤ 3 := by omega
      have small : decimal digits < 10 ^ 3 :=
        Nat.lt_of_lt_of_le bound (Nat.pow_le_pow_right (by decide) three)
      refine ⟨fun few => absurd few (by omega), fun _ => ⟨decimal digits, ?_, ?_, ?_⟩⟩
      · conv_lhs => rw [same]
        exact scanStatus_digits nonempty all (by omega) ends
      · intro long
        rw [whole long, decimal_printed]
      · intro short
        have two : digits.length ≤ 2 := by omega
        exact Nat.lt_of_lt_of_le bound (Nat.pow_le_pow_right (by decide) two)

end Partial

end CixCache
