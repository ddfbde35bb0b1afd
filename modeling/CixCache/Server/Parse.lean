import Mathlib.Data.List.TakeWhile
import CixCache.Lib.Search
import CixCache.Name.Decimal
import CixCache.Server.Http

/-!
Contract: the accumulation and parsing of a header block.

Owns: `HttpConn` with `httpConnFeed` and `httpConnTryParse`, the reading of a
stream that arrives in chunks; `streamVerdict`, what a stream comes to as a whole;
and that the chunks do not matter.

Allocation succeeds. Does not own: what is done with a request.
-/

namespace CixCache

open CixCache.Lib

/-! ## Functions of the source -/

/-- HTTP_MAX_METHOD -/
def httpMaxMethod : Nat := 8

/-- HTTP_MAX_PATH -/
def httpMaxPath : Nat := 512

/-- HTTP_MAX_HEADERS -/
def httpMaxHeaders : Nat := 8192

def crlf : Bytes := [carriageReturn, lineFeed]

/-- The end of a header block. -/
def blankLine : Bytes := crlf ++ crlf

/-- `struct http_conn`: what has arrived, and the offset just past the blank line. -/
structure HttpConn where
  buf : Bytes
  headersEnd : Option Nat
deriving DecidableEq, Repr

/-- `http_conn_init` -/
def HttpConn.init : HttpConn := ⟨[], none⟩

/-- The connection with the data added, and whether its headers still fit. -/
def httpConnFeed (c : HttpConn) (data : Bytes) : HttpConn × Bool :=
  let buf := c.buf ++ data
  let headersEnd :=
    match c.headersEnd with
    | some offset => some offset
    | none => (memmem blankLine buf).map (· + 4)
  let fits :=
    match headersEnd with
    | none => decide (buf.length ≤ httpMaxHeaders)
    | some offset => decide (offset ≤ httpMaxHeaders)
  (⟨buf, headersEnd⟩, fits)

/-- The method and the target of a request line. -/
def parseRequestLine (line : Bytes) : Option (Bytes × Bytes) :=
  if space ∈ line then
    let method := line.takeWhile fun c => c ≠ space
    let rest := (line.dropWhile fun c => c ≠ space).drop 1
    if method.length = 0 ∨ httpMaxMethod ≤ method.length then none
    else if space ∈ rest then
      let path := rest.takeWhile fun c => c ≠ space
      if path.length = 0 ∨ httpMaxPath ≤ path.length then none
      else some (method, path)
    else none
  else none

/-- `isspace` in the C locale. -/
def isSpace (c : Byte) : Bool := c == space || decide (9 ≤ c) && decide (c ≤ 13)

/-- LONG_MAX -/
def longMax : Nat := 2 ^ 63 - 1

def decimal (digits : Bytes) : Nat := digits.foldl (fun value c => value * 10 + (c.toNat - 48)) 0

theorem decimal_eq_runValue (digits : Bytes) : decimal digits = runValue digits := by
  unfold decimal runValue numeral digitValues
  rw [List.foldl_map]

/-- `strtol(text, &end, 10)`; `none` when nothing was converted. A value out of
range is clamped. -/
def strtol (text : Bytes) : Option Int :=
  let text := text.dropWhile isSpace
  let negative := text.head? == some dash
  let unsigned := if negative || text.head? == some 43 then text.drop 1 else text
  let digits := unsigned.takeWhile isDigit
  if digits = [] then none
  else if negative then some (-(min (decimal digits) (longMax + 1) : Nat))
  else some (min (decimal digits) longMax : Nat)

/-- What `http_conn_try_parse` answers. -/
inductive Parsed where
  | needMore
  | malformed
  | complete (req : HttpRequest)
deriving DecidableEq, Repr

/-- The declared length of the body, 0 without a declaration; `none` when the
declaration is no length. -/
def contentLengthOf (headers : Bytes) : Option Nat :=
  match httpFindHeader headers (ascii "Content-Length") 32 with
  | none => some 0
  | some text =>
      match strtol (cString text) with
      | none => none
      | some value => if value < 0 then none else some value.toNat

def httpConnTryParse (c : HttpConn) : Parsed :=
  match c.headersEnd with
  | none => .needMore
  | some headersEnd =>
      match memmem crlf (c.buf.take headersEnd) with
      | none => .malformed
      | some eol =>
          match parseRequestLine (c.buf.take eol) with
          | none => .malformed
          | some (method, path) =>
              let headers := c.buf.take (headersEnd - 4)
              match contentLengthOf headers with
              | none => .malformed
              | some contentLength =>
                  .complete
                    { method := cString method
                      path := cString path
                      contentLength := contentLength
                      headers := headers
                      body := c.buf.drop headersEnd }

/-! ## Numbers -/

/-- A digit neither is a blank nor a sign. -/
theorem digit_opens {c : Byte} (digit : isDigit c = true) :
    isSpace c = false ∧ (c == dash) = false ∧ (c == 43) = false := by
  simp only [isDigit, Bool.and_eq_true, decide_eq_true_eq, UInt8.le_iff_toNat_le] at digit
  have low : 48 ≤ c.toNat := digit.1
  have other : ∀ small : Byte, small.toNat < 48 → (c == small) = false := by
    intro small below
    rw [beq_eq_false_iff_ne]
    rintro rfl
    omega
  refine ⟨?_, other dash (by decide), other 43 (by decide)⟩
  have late : ¬ c ≤ 13 := by
    rw [UInt8.le_iff_toNat_le]
    show ¬ c.toNat ≤ 13
    omega
  unfold isSpace
  rw [other space (by decide)]
  simp [late]

/-- A run of digits is a number, the largest one if it is out of range. -/
theorem strtol_digits {digits : Bytes} (nonempty : digits ≠ []) (run : digits.all isDigit = true) :
    strtol digits = some ((min (decimal digits) longMax : Nat) : Int) := by
  obtain ⟨first, rest, rfl⟩ := List.exists_cons_of_ne_nil nonempty
  have whole : (first :: rest).takeWhile isDigit = first :: rest :=
    List.takeWhile_eq_self_iff.mpr (List.all_eq_true.mp run)
  obtain ⟨noBlank, noDash, noPlus⟩ :=
    digit_opens (List.all_eq_true.mp run first List.mem_cons_self)
  unfold strtol
  dsimp only
  rw [List.dropWhile_cons_of_neg (by simp [noBlank]), List.head?_cons, Option.some_beq_some,
    Option.some_beq_some, noDash, noPlus]
  simp only [Bool.or_self, Bool.false_eq_true, if_false]
  rw [whole, if_neg nonempty]

/-! ## Streams -/

/-- What reading a stream comes to. -/
inductive StreamVerdict where
  | incomplete
  | tooLarge
  | malformed
  | complete (req : HttpRequest)
deriving DecidableEq, Repr

/-- The reads of `handle_read` up to the first answer. -/
def feedChunks (c : HttpConn) : List Bytes → StreamVerdict
  | [] => .incomplete
  | chunk :: rest =>
      match httpConnFeed c chunk with
      | (_, false) => .tooLarge
      | (fed, true) =>
          match httpConnTryParse fed with
          | .needMore => feedChunks fed rest
          | .malformed => .malformed
          | .complete req => .complete req

/-- A verdict without the body bytes that arrived with the headers. -/
def StreamVerdict.head : StreamVerdict → StreamVerdict
  | .complete req => .complete { req with body := [] }
  | verdict => verdict

/-- The verdict on a header block, blank line included. -/
def blockVerdict (block : Bytes) : StreamVerdict :=
  match httpConnTryParse ⟨block, some block.length⟩ with
  | .needMore => .incomplete
  | .malformed => .malformed
  | .complete req => .complete req

/-- The verdict on a stream as a whole. -/
def streamVerdict (stream : Bytes) : StreamVerdict :=
  match memmem blankLine stream with
  | none => if stream.length ≤ httpMaxHeaders then .incomplete else .tooLarge
  | some offset =>
      if offset + 4 ≤ httpMaxHeaders then blockVerdict (stream.take (offset + 4)) else .tooLarge

/-! ## Chunks do not matter -/

theorem httpConnFeed_unterminated {seen data : Bytes} (absent : memmem blankLine (seen ++ data) = none) :
    httpConnFeed ⟨seen, none⟩ data =
      (⟨seen ++ data, none⟩, decide ((seen ++ data).length ≤ httpMaxHeaders)) := by
  simp [httpConnFeed, absent]

theorem httpConnFeed_terminated {seen data : Bytes} {offset : Nat}
    (found : memmem blankLine (seen ++ data) = some offset) :
    httpConnFeed ⟨seen, none⟩ data =
      (⟨seen ++ data, some (offset + 4)⟩, decide (offset + 4 ≤ httpMaxHeaders)) := by
  simp [httpConnFeed, found]

/-- What a complete block is parsed to depends on the block alone, the body bytes
apart. -/
theorem httpConnTryParse_block {buf : Bytes} {headersEnd : Nat} (inside : headersEnd ≤ buf.length) :
    httpConnTryParse ⟨buf, some headersEnd⟩ =
      match blockVerdict (buf.take headersEnd) with
      | .complete req => .complete { req with body := buf.drop headersEnd }
      | _ => .malformed := by
  have length : (buf.take headersEnd).length = headersEnd := by
    rw [List.length_take]
    omega
  have within : (buf.take headersEnd).take headersEnd = buf.take headersEnd :=
    List.take_of_length_le (by omega)
  unfold blockVerdict httpConnTryParse
  dsimp only
  rw [length, within]
  cases line : memmem crlf (buf.take headersEnd) with
  | none => rfl
  | some eol =>
      have bound := memmem_bound line
      have shorter : (buf.take headersEnd).take eol = buf.take eol := by
        rw [List.take_take]
        congr 1
        omega
      have headers : (buf.take headersEnd).take (headersEnd - 4) = buf.take (headersEnd - 4) := by
        rw [List.take_take]
        congr 1
        omega
      dsimp only
      rw [shorter, headers]
      cases parseRequestLine (buf.take eol) with
      | none => rfl
      | some target =>
          dsimp only
          cases contentLengthOf (buf.take (headersEnd - 4)) <;> rfl

/-- A block is complete, so it is a request or malformed. -/
theorem blockVerdict_cases (block : Bytes) :
    blockVerdict block = .malformed ∨ ∃ req, blockVerdict block = .complete req := by
  unfold blockVerdict httpConnTryParse
  dsimp only
  cases memmem crlf (block.take block.length) with
  | none => exact Or.inl rfl
  | some eol =>
      dsimp only
      cases parseRequestLine (block.take eol) with
      | none => exact Or.inl rfl
      | some target =>
          dsimp only
          cases contentLengthOf (block.take (block.length - 4)) with
          | none => exact Or.inl rfl
          | some length => exact Or.inr ⟨_, rfl⟩

/-- From a state in which no blank line has arrived, and the bytes that have still
fit, the chunks that follow come to what the whole stream comes to. -/
theorem feedChunks_head {seen : Bytes} (unterminated : memmem blankLine seen = none)
    (fits : seen.length ≤ httpMaxHeaders) (chunks : List Bytes) :
    (feedChunks ⟨seen, none⟩ chunks).head = (streamVerdict (seen ++ chunks.flatten)).head := by
  induction chunks generalizing seen with
  | nil =>
      rw [List.flatten_nil, List.append_nil, streamVerdict, unterminated]
      dsimp only
      rw [if_pos fits]
      rfl
  | cons chunk rest inductionHypothesis =>
      rw [List.flatten_cons, ← List.append_assoc, feedChunks]
      cases found : memmem blankLine (seen ++ chunk) with
      | none =>
          rw [httpConnFeed_unterminated found]
          by_cases still : (seen ++ chunk).length ≤ httpMaxHeaders
          · rw [decide_eq_true still]
            exact inductionHypothesis found still
          · rw [decide_eq_false still]
            unfold streamVerdict
            cases later : memmem blankLine ((seen ++ chunk) ++ rest.flatten) with
            | none =>
                dsimp only
                rw [if_neg (by rw [List.length_append]; omega)]
            | some offset =>
                -- The blank line ends in a later chunk, beyond the cap.
                have beyond : _ < offset + 4 := memmem_of_append found later
                dsimp only
                rw [if_neg (by omega)]
      | some offset =>
          have bound : offset + 4 ≤ (seen ++ chunk).length := memmem_bound found
          rw [httpConnFeed_terminated found, streamVerdict, memmem_append found]
          dsimp only
          by_cases small : offset + 4 ≤ httpMaxHeaders
          · rw [decide_eq_true small, if_pos small, List.take_append_of_le_length bound]
            dsimp only
            rw [httpConnTryParse_block bound]
            rcases blockVerdict_cases ((seen ++ chunk).take (offset + 4)) with bad | ⟨req, good⟩
            · rw [bad]
            · rw [good]
              rfl
          · rw [decide_eq_false small, if_neg small]

theorem feedChunks_init (chunks : List Bytes) :
    (feedChunks .init chunks).head = (streamVerdict chunks.flatten).head := by
  have start : memmem blankLine ([] : Bytes) = none := by decide
  exact feedChunks_head start (Nat.zero_le _) chunks

/-- The stream begins with a header block: the bytes up to its first blank line,
and that line. -/
def StartsWithBlock (stream block : Bytes) : Prop :=
  ∃ offset, memmem blankLine stream = some offset ∧ block = stream.take (offset + 4)

theorem streamVerdict_of_block {stream block : Bytes} (starts : StartsWithBlock stream block) :
    streamVerdict stream =
      if block.length ≤ httpMaxHeaders then blockVerdict block else .tooLarge := by
  obtain ⟨offset, found, rfl⟩ := starts
  have bound : offset + 4 ≤ stream.length := memmem_bound found
  have length : (stream.take (offset + 4)).length = offset + 4 := by
    rw [List.length_take]
    omega
  rw [streamVerdict, found, length]

theorem blockVerdict_ne_tooLarge (block : Bytes) : (blockVerdict block).head ≠ .tooLarge := by
  rcases blockVerdict_cases block with bad | ⟨req, good⟩
  · simp [bad, StreamVerdict.head]
  · simp [good, StreamVerdict.head]

/-- Cutting a stream into chunks does not change what reading it comes to, which
is decided by its header block when it has one; a block is refused as too large
exactly when it is longer than the cap, and so is a longer stream without one. -/
theorem feedChunks_chunking :
    (∀ chunks others : List Bytes, chunks.flatten = others.flatten →
      (feedChunks .init chunks).head = (feedChunks .init others).head) ∧
    (∀ (chunks others : List Bytes) (block : Bytes), StartsWithBlock chunks.flatten block →
      StartsWithBlock others.flatten block →
        (feedChunks .init chunks).head = (feedChunks .init others).head) ∧
    (∀ (chunks : List Bytes) (block : Bytes), StartsWithBlock chunks.flatten block →
      (feedChunks .init chunks = .tooLarge ↔ httpMaxHeaders < block.length)) ∧
    ∀ chunks : List Bytes, memmem blankLine chunks.flatten = none →
      (feedChunks .init chunks = .tooLarge ↔ httpMaxHeaders < chunks.flatten.length) := by
  have tooLarge : ∀ chunks : List Bytes, feedChunks .init chunks = .tooLarge ↔
      (streamVerdict chunks.flatten).head = .tooLarge := by
    intro chunks
    rw [← feedChunks_init]
    cases feedChunks .init chunks <;> simp [StreamVerdict.head]
  refine ⟨?_, ?_, ?_, ?_⟩
  · intro chunks others same
    rw [feedChunks_init, feedChunks_init, same]
  · intro chunks others block left right
    rw [feedChunks_init, feedChunks_init, streamVerdict_of_block left, streamVerdict_of_block right]
  · intro chunks block starts
    rw [tooLarge, streamVerdict_of_block starts]
    split
    next small => simpa [blockVerdict_ne_tooLarge] using small
    next large => simpa [StreamVerdict.head] using large
  · intro chunks unterminated
    rw [tooLarge, streamVerdict, unterminated]
    dsimp only
    split
    next small => simpa [StreamVerdict.head] using small
    next large => simpa [StreamVerdict.head] using large

/-- A request whose blank line straddles a read, read at once and in three reads. -/
theorem straddled_request :
    (feedChunks .init [ascii "GET /a HT", ascii "TP/1.1\r\n\r", ascii "\nbody"]).head =
        (feedChunks .init [ascii "GET /a HTTP/1.1\r\n\r\nbody"]).head ∧
      feedChunks .init [ascii "GET /a HTTP/1.1\r\n\r\nbody"] ≠ .tooLarge := by
  have block : StartsWithBlock [ascii "GET /a HTTP/1.1\r\n\r\nbody"].flatten
      (ascii "GET /a HTTP/1.1\r\n\r\n") :=
    ⟨15, by decide, by decide⟩
  constructor
  · exact feedChunks_chunking.1 _ _ (by decide)
  · rw [ne_eq, feedChunks_chunking.2.2.1 _ _ block]
    decide

end CixCache
