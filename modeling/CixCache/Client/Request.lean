import CixCache.Lib.Block
import CixCache.Server.Activity
import CixCache.Server.ContentLength
import CixCache.Server.Decode

/-!
Contract: the requests the command line client writes, as the server reads them.

Owns: `CixClient` and `requestHeader`, the header of `do_one_request` with the buffers it is
put together in; `readBlock`, what the server's parser makes of a block of lines;
`ReadAs`, a stream that is read as the request that was meant; and that this is so exactly
when the token fits the buffer of its line.

Does not own: the upload, which is written by hand, and the response.
-/

namespace CixCache

open CixCache.Lib

/-! ## Functions of the source -/

/-- `struct cix_client` without its port. -/
structure CixClient where
  host : Bytes
  token : Bytes
deriving DecidableEq, Repr

def cixClientInit (host : Bytes) : CixClient := ⟨snprintf 64 host, []⟩

/-- The `auth_line` of a request. -/
def authLine (token : Option Bytes) : Bytes :=
  match token with
  | none => []
  | some text =>
      if text = [] then [] else snprintf 128 (ascii "Authorization: Bearer " ++ text ++ crlf)

/-- The header `do_one_request` writes; `none` when it does not fit its buffer. -/
def requestHeader (c : CixClient) (method path : Bytes) (token body : Option Bytes) :
    Option Bytes :=
  let start := method ++ ascii " " ++ path ++ ascii " HTTP/1.1\r\nHost: " ++ c.host ++ crlf ++
    authLine token
  let text :=
    match body with
    | some content =>
        start ++ ascii "Content-Type: application/json\r\nContent-Length: " ++
          printed content.length ++ ascii "\r\n\r\n"
    | none => start ++ crlf
  if 512 ≤ text.length then none else some text

/-! ## A block as the server reads it -/

section Block

variable {start name : Bytes} {fields : List Bytes}

/-- The header block of a message: its lines without the blank one. -/
def headOf (start : Bytes) (fields : List Bytes) : Bytes :=
  joinLines carriageReturn lineFeed (start :: fields)

/-- The lookup of a header sees the fields of the block. -/
theorem httpFindHeader_headOf (plain : PlainLines carriageReturn (start :: fields)) (name : Bytes)
    (outSize : Nat) :
    httpFindHeader (headOf start fields) name outSize = lookupHeader fields name outSize := by
  have lines : headerLines (headOf start fields) = fields := by
    unfold headerLines headOf
    rw [pairLines_joinLines plain]
    rfl
  have reads := (readsLines_iff (headOf start fields) name outSize).mpr ?_
  · rw [reads.result, lines]
  · rw [lines]
    intro line member
    have inFields : ∀ {lines : List Bytes}, line ∈ upTo (namesHeader name) lines → line ∈ lines := by
      intro lines
      induction lines with
      | nil => exact id
      | cons head tail inductionHypothesis =>
          intro among
          rw [upTo] at among
          split at among
          next =>
            rw [List.mem_singleton.mp among]
            exact List.mem_cons_self
          next =>
            rcases List.mem_cons.mp among with here | later
            · rw [here]
              exact List.mem_cons_self
            · exact List.mem_cons_of_mem _ (inductionHypothesis later)
    exact (plain line (List.mem_cons_of_mem _ (inFields member))).2

/-- What the server makes of a block of lines. -/
theorem blockVerdict_block (plain : PlainLines carriageReturn (start :: fields)) :
    blockVerdict (block carriageReturn lineFeed (start :: fields)) =
      match parseRequestLine start with
      | none => .malformed
      | some target =>
          match contentLengthOf (headOf start fields) with
          | none => .malformed
          | some length =>
              .complete ⟨cString target.1, cString target.2, length, headOf start fields, []⟩ := by
  have shape : block carriageReturn lineFeed (start :: fields) =
      headOf start fields ++ [carriageReturn, lineFeed, carriageReturn, lineFeed] :=
    block_eq (by simp)
  have length : (block carriageReturn lineFeed (start :: fields)).length =
      (headOf start fields).length + 4 := by
    rw [shape]
    simp
  have headers : (block carriageReturn lineFeed (start :: fields)).take
      ((block carriageReturn lineFeed (start :: fields)).length - 4) = headOf start fields := by
    rw [length, Nat.add_sub_cancel, shape, List.take_append_of_le_length (Nat.le_refl _),
      List.take_length]
  have eol : memmem crlf (block carriageReturn lineFeed (start :: fields)) = some start.length :=
    memmem_pair (plain start List.mem_cons_self).2 _
  have line : (block carriageReturn lineFeed (start :: fields)).take start.length = start := by
    rw [block, List.take_append_of_le_length (Nat.le_refl _), List.take_length]
  unfold blockVerdict httpConnTryParse
  dsimp only
  rw [List.take_length, eol, headers]
  dsimp only
  rw [line]
  cases parseRequestLine start with
  | none => rfl
  | some target =>
      dsimp only
      cases contentLengthOf (headOf start fields) with
      | none => rfl
      | some declared =>
          dsimp only
          rw [List.drop_length]

theorem startsWithBlock (plain : PlainLines carriageReturn (start :: fields)) (body : Bytes) :
    StartsWithBlock (block carriageReturn lineFeed (start :: fields) ++ body)
      (block carriageReturn lineFeed (start :: fields)) := by
  refine ⟨(headOf start fields).length, memmem_block (by decide) (by simp) plain body, ?_⟩
  have length : (headOf start fields).length + 4 =
      (block carriageReturn lineFeed (start :: fields)).length := by
    rw [block_eq (by simp)]
    simp [headOf]
  rw [length, List.take_append_of_le_length (Nat.le_refl _), List.take_length]

/-- A stream that begins with a small block is read as that block. -/
theorem streamVerdict_block (plain : PlainLines carriageReturn (start :: fields)) (body : Bytes)
    (small : (block carriageReturn lineFeed (start :: fields)).length ≤ httpMaxHeaders) :
    streamVerdict (block carriageReturn lineFeed (start :: fields) ++ body) =
      blockVerdict (block carriageReturn lineFeed (start :: fields)) := by
  rw [streamVerdict_of_block (startsWithBlock plain body), if_pos small]

end Block

/-! ## Fields -/

section Fields

variable {key value : Bytes}

theorem takeWhile_key (plain : colon ∉ key) (rest : Bytes) :
    ((key ++ colon :: rest).takeWhile fun c => c ≠ colon) = key ∧
      ((key ++ colon :: rest).dropWhile fun c => c ≠ colon) = colon :: rest := by
  have other : ∀ c ∈ key, decide (c ≠ colon) = true :=
    fun c member => decide_eq_true fun same => plain (same ▸ member)
  rw [List.takeWhile_append_of_pos other, List.dropWhile_append_of_pos other]
  simp

theorem namesHeader_field (plain : colon ∉ key) (name rest : Bytes) :
    namesHeader name (key ++ colon :: rest) = strcasecmpEq key name := by
  unfold namesHeader
  rw [(takeWhile_key plain rest).1, decide_eq_true (by simp), Bool.true_and]

/-- A value that neither begins nor ends with a blank. -/
def Unpadded (value : Bytes) : Prop :=
  (∀ c, value.head? = some c → isBlank c = false) ∧
    ∀ c, value.getLast? = some c → isBlank c = false

theorem trimBlanks_padded (unpadded : Unpadded value) : trimBlanks (space :: value) = value := by
  have front : (space :: value).dropWhile isBlank = value := by
    rw [List.dropWhile_cons_of_pos (by decide)]
    cases value with
    | nil => rfl
    | cons head tail => rw [List.dropWhile_cons_of_neg (by simp [unpadded.1 head rfl])]
  have back : value.reverse.dropWhile isBlank = value.reverse := by
    cases reversed : value.reverse with
    | nil => rfl
    | cons head tail =>
        have last : value.getLast? = some head := by
          rw [← List.head?_reverse, reversed]
          rfl
        rw [List.dropWhile_cons_of_neg (by simp [unpadded.2 head last])]
  rw [trimBlanks, front, back, List.reverse_reverse]

theorem headerValue_field (plain : colon ∉ key) (unpadded : Unpadded value) :
    headerValue (key ++ colon :: space :: value) = value := by
  rw [headerValue, (takeWhile_key plain _).2, List.drop_succ_cons, List.drop_zero,
    trimBlanks_padded unpadded]

theorem lookupHeader_skip (plain : colon ∉ key) (rest : Bytes) (fields : List Bytes) {name : Bytes}
    (other : strcasecmpEq key name = false) (outSize : Nat) :
    lookupHeader ((key ++ colon :: rest) :: fields) name outSize =
      lookupHeader fields name outSize := by
  rw [lookupHeader_cons, namesHeader_field plain, other]
  rfl

/-- A lookup at a field, by the key and the value of the field. -/
theorem lookupHeader_field (plain : colon ∉ key) (unpadded : Unpadded value) (rest : List Bytes)
    (name : Bytes) (outSize : Nat) :
    lookupHeader ((key ++ colon :: space :: value) :: rest) name outSize =
      if strcasecmpEq key name then
        if outSize ≤ value.length then none else some value
      else lookupHeader rest name outSize := by
  rw [lookupHeader_cons, namesHeader_field plain, headerValue_field plain unpadded]

end Fields

/-! ## Requests -/

/-- Text without a blank, a line end or a NUL in it. -/
def Word (text : Bytes) : Prop :=
  text ≠ [] ∧ space ∉ text ∧ carriageReturn ∉ text ∧ 0 ∉ text

instance (text : Bytes) : Decidable (Word text) := inferInstanceAs (Decidable (_ ∧ _))

/-- A token that is one text on its line. -/
def BearerToken (token : Bytes) : Prop :=
  token ≠ [] ∧ carriageReturn ∉ token ∧ 0 ∉ token ∧
    ∀ c, token.getLast? = some c → isBlank c = false

/-- The texts a request is put together from. -/
structure RequestTexts (host method path : Bytes) (token : Option Bytes) : Prop where
  host : carriageReturn ∉ host
  method : Word method ∧ method.length < httpMaxMethod
  path : Word path
  token : ∀ text, token = some text → BearerToken text

/-- However the stream arrives, the server reads from it a request with this method, path and
length, which passes a bearer check exactly when the token is the one that is asked for. -/
def ReadAs (stream method path : Bytes) (token : Option Bytes) (length : Nat) : Prop :=
  ∀ chunks : List Bytes, chunks.flatten = stream →
    ∃ req, (feedChunks .init chunks).head = .complete req ∧ req.method = method ∧
      req.path = path ∧ req.contentLength = length ∧
        ∀ expect, bearerOk req expect = true ↔ expect = [] ∨ token = some expect

def requestLine (method path : Bytes) : Bytes :=
  method ++ ascii " " ++ path ++ ascii " HTTP/1.1"

def tokenField (token : Bytes) : Bytes := ascii "Authorization: Bearer " ++ token

def requestFields (host : Bytes) (token body : Option Bytes) : List Bytes :=
  (ascii "Host: " ++ host) :: (token.toList.map tokenField ++ body.toList.flatMap fun content =>
    [ascii "Content-Type: application/json", ascii "Content-Length: " ++ printed content.length])

section Reading

variable {host method path : Bytes} {token : Option Bytes}

theorem parseRequestLine_words (method_ : Word method) (short : method.length < httpMaxMethod)
    (path_ : Word path) (fits : path.length < httpMaxPath) :
    parseRequestLine (requestLine method path) = some (method, path) := by
  have shape : requestLine method path =
      method ++ space :: (path ++ space :: ascii "HTTP/1.1") := by
    have tail : ascii " HTTP/1.1" = space :: ascii "HTTP/1.1" := by decide
    have gap : ascii " " = [space] := by decide
    rw [requestLine, tail, gap]
    simp
  have cut : ∀ {word : Bytes}, space ∉ word → ∀ rest : Bytes,
      ((word ++ space :: rest).takeWhile fun c => c ≠ space) = word ∧
        ((word ++ space :: rest).dropWhile fun c => c ≠ space) = space :: rest := by
    intro word plain rest
    have other : ∀ c ∈ word, decide (c ≠ space) = true :=
      fun c member => decide_eq_true fun same => plain (same ▸ member)
    rw [List.takeWhile_append_of_pos other, List.dropWhile_append_of_pos other]
    simp
  obtain ⟨takenMethod, leftMethod⟩ := cut method_.2.1 (path ++ space :: ascii "HTTP/1.1")
  obtain ⟨takenPath, _⟩ := cut path_.2.1 (ascii "HTTP/1.1")
  have methodLength : method.length ≠ 0 := fun zero => method_.1 (List.length_eq_zero_iff.mp zero)
  have pathLength : path.length ≠ 0 := fun zero => path_.1 (List.length_eq_zero_iff.mp zero)
  unfold parseRequestLine
  rw [shape, if_pos (by simp), takenMethod, leftMethod]
  dsimp only
  rw [if_neg (by omega), List.drop_succ_cons, List.drop_zero, if_pos (by simp), takenPath,
    if_neg (by omega)]

theorem requestFields_plain (texts : RequestTexts host method path token) (body : Option Bytes) :
    PlainLines carriageReturn (requestLine method path :: requestFields host token body) := by
  have append : ∀ {front back : Bytes}, carriageReturn ∉ front → carriageReturn ∉ back →
      carriageReturn ∉ front ++ back := by
    intro front back left right member
    rcases List.mem_append.mp member with here | there
    · exact left here
    · exact right there
  intro line member
  rcases List.mem_cons.mp member with rfl | inFields
  · refine ⟨by simp [requestLine, texts.method.1.1], ?_⟩
    exact append (append (append texts.method.1.2.2.1 (by decide)) texts.path.2.2.1) (by decide)
  rcases List.mem_cons.mp inFields with rfl | inRest
  · exact ⟨by simp [ascii], append (by decide) texts.host⟩
  rcases List.mem_append.mp inRest with isToken | isBody
  · obtain ⟨text, inToken, rfl⟩ := List.mem_map.mp isToken
    have bearer := texts.token text (Option.mem_toList.mp inToken)
    exact ⟨by simp [tokenField, bearer.1], append (by decide) bearer.2.1⟩
  · obtain ⟨content, _, isLine⟩ := List.mem_flatMap.mp isBody
    rcases List.mem_cons.mp isLine with rfl | isLength
    · exact ⟨by decide, by decide⟩
    · rw [List.mem_singleton.mp isLength]
      refine ⟨by simp [printed_ne_nil], append (by decide) ?_⟩
      intro nul
      exact absurd (printed_digits content.length _ nul) (by decide)

theorem lookup_absent {fields : List Bytes} {name : Bytes} {outSize : Nat}
    (absent : ∀ field ∈ fields, namesHeader name field = false) :
    lookupHeader fields name outSize = none := by
  unfold lookupHeader
  rw [List.find?_eq_none.mpr fun field member => by simp [absent field member]]

theorem namesHeader_request (name : Bytes) (host : Bytes) (token : Bytes) (length : Nat) :
    namesHeader name (ascii "Host: " ++ host) = strcasecmpEq (ascii "Host") name ∧
      namesHeader name (tokenField token) = strcasecmpEq (ascii "Authorization") name ∧
      namesHeader name (ascii "Content-Type: application/json") =
        strcasecmpEq (ascii "Content-Type") name ∧
      namesHeader name (ascii "Content-Length: " ++ printed length) =
        strcasecmpEq (ascii "Content-Length") name := by
  have field : ∀ (key rest : Bytes), colon ∉ key →
      namesHeader name (key ++ colon :: rest) = strcasecmpEq key name :=
    fun key rest plain => namesHeader_field plain name rest
  have hostKey : ascii "Host: " = ascii "Host" ++ colon :: [space] := by decide
  have tokenKey : ascii "Authorization: Bearer " =
      ascii "Authorization" ++ colon :: space :: ascii "Bearer " := by decide
  have typeKey : ascii "Content-Type: application/json" =
      ascii "Content-Type" ++ colon :: space :: ascii "application/json" := by decide
  have lengthKey : ascii "Content-Length: " = ascii "Content-Length" ++ colon :: [space] := by decide
  refine ⟨?_, ?_, ?_, ?_⟩
  · rw [hostKey, List.append_assoc, List.cons_append]
    exact field _ _ (by decide)
  · rw [tokenField, tokenKey, List.append_assoc, List.cons_append]
    exact field _ _ (by decide)
  · rw [typeKey]
    exact field _ _ (by decide)
  · rw [lengthKey, List.append_assoc, List.cons_append]
    exact field _ _ (by decide)

/-- The bytes a body has, 0 without one. -/
def bodyLength (body : Option Bytes) : Nat := (body.map List.length).getD 0

theorem unpadded_digits (n : Nat) : Unpadded (printed n) := by
  have noBlank : ∀ c ∈ printed n, isBlank c = false := by
    intro c member
    obtain ⟨notSpace, _⟩ := digit_opens (printed_digits n c member)
    unfold isBlank
    unfold isSpace at notSpace
    rw [Bool.or_eq_false_iff] at notSpace ⊢
    refine ⟨notSpace.1, ?_⟩
    rw [beq_eq_false_iff_ne]
    rintro rfl
    exact absurd notSpace.2 (by decide)
  exact ⟨fun c first => noBlank c (List.mem_of_mem_head? first),
    fun c last => noBlank c (List.mem_of_getLast? last)⟩

theorem lookup_authorization (texts : RequestTexts host method path token) (body : Option Bytes)
    (fits : ∀ text, token = some text → text.length ≤ 103) :
    lookupHeader (requestFields host token body) (ascii "Authorization") (confTokenMax + 32) =
      token.map fun text => bearerPrefix ++ text := by
  have names := fun text length =>
    namesHeader_request (ascii "Authorization") host text length
  unfold requestFields
  rw [lookupHeader_cons, (names [] 0).1, if_neg (by decide)]
  cases token with
  | none =>
      apply lookup_absent
      intro field member
      obtain ⟨content, _, isLine⟩ := List.mem_flatMap.mp member
      rcases List.mem_cons.mp isLine with rfl | isLength
      · rw [(names [] 0).2.2.1]
        decide
      · rw [List.mem_singleton.mp isLength, (names [] content.length).2.2.2]
        decide
  | some text =>
      have bearer := texts.token text rfl
      have unpadded : Unpadded (bearerPrefix ++ text) := by
        constructor
        · intro c first
          have isB : c = 66 := by
            have front : (bearerPrefix ++ text).head? = some 66 := by
              rw [List.head?_append]
              rfl
            exact Option.some.inj (first.symm.trans front)
          rw [isB]
          decide
        · intro c last
          rw [List.getLast?_append_of_ne_nil _ bearer.1] at last
          exact bearer.2.2.2 c last
      have value : headerValue (tokenField text) = bearerPrefix ++ text := by
        have key : tokenField text =
            ascii "Authorization" ++ colon :: space :: (bearerPrefix ++ text) := by
          have split : ascii "Authorization: Bearer " =
              ascii "Authorization" ++ colon :: space :: bearerPrefix := by decide
          rw [tokenField, split]
          simp
        rw [key, headerValue_field (by decide) unpadded]
      have short := fits text rfl
      have small : ¬ confTokenMax + 32 ≤ (bearerPrefix ++ text).length := by
        have prefixLength : bearerPrefix.length = 7 := by decide
        rw [List.length_append, prefixLength, confTokenMax]
        omega
      show lookupHeader (tokenField text :: _) _ _ = _
      rw [lookupHeader_cons, (names text 0).2.1, if_pos (by decide), value, if_neg small]
      rfl

theorem contentLength_request (texts : RequestTexts host method path token) (start : Bytes)
    (body : Option Bytes)
    (plain : PlainLines carriageReturn (start :: requestFields host token body))
    (small : bodyLength body ≤ longMax) :
    contentLengthOf (headOf start (requestFields host token body)) = some (bodyLength body) := by
  have names := fun text length =>
    namesHeader_request (ascii "Content-Length") host text length
  have skipped : lookupHeader (requestFields host token body) (ascii "Content-Length") 32 =
      lookupHeader (body.toList.flatMap fun content =>
        [ascii "Content-Type: application/json", ascii "Content-Length: " ++ printed content.length])
        (ascii "Content-Length") 32 := by
    unfold requestFields
    rw [lookupHeader_cons, (names [] 0).1, if_neg (by decide)]
    cases token with
    | none => rfl
    | some text =>
        show lookupHeader (tokenField text :: _) _ _ = _
        rw [lookupHeader_cons, (names text 0).2.1, if_neg (by decide)]
        rfl
  unfold contentLengthOf
  rw [httpFindHeader_headOf plain, skipped]
  cases body with
  | none => rfl
  | some content =>
      have key : ascii "Content-Length: " ++ printed content.length =
          ascii "Content-Length" ++ colon :: space :: printed content.length := by
        have split : ascii "Content-Length: " = ascii "Content-Length" ++ colon :: [space] := by
          decide
        rw [split]
        simp
      have value : headerValue (ascii "Content-Length: " ++ printed content.length) =
          printed content.length := by
        rw [key, headerValue_field (by decide) (unpadded_digits _)]
      have range : content.length ≤ longMax := small
      have digits : (printed content.length).length ≤ 19 := by
        apply printed_length (by decide)
        have limit : longMax < 10 ^ 19 := by decide
        omega
      have noNul : cString (printed content.length) = printed content.length := by
        apply cString_eq_self.mpr
        intro nul
        exact absurd (printed_digits _ _ nul) (by decide)
      show (match lookupHeader [_, ascii "Content-Length: " ++ printed content.length] _ 32 with
        | none => some 0
        | some text => _) = _
      rw [lookupHeader_cons, (names [] 0).2.2.1, if_neg (by decide), lookupHeader_cons,
        (names [] content.length).2.2.2, if_pos (by decide), value, if_neg (by omega)]
      dsimp only
      rw [noNul, strtol_digits (printed_ne_nil _) (List.all_eq_true.mpr (printed_digits _)),
        decimal_printed, Nat.min_eq_left range]
      rfl

/-- A bearer check of a request whose fields carry the token. -/
theorem bearerOk_request {req : HttpRequest} (texts : RequestTexts host method path token)
    (looked : httpFindHeader req.headers (ascii "Authorization") (confTokenMax + 32) =
      token.map fun text => bearerPrefix ++ text) (expect : Bytes) :
    bearerOk req expect = true ↔ expect = [] ∨ token = some expect := by
  unfold bearerOk
  by_cases unset : expect = []
  · simp [unset]
  · rw [if_neg unset, looked]
    cases token with
    | none => simp [unset]
    | some text =>
        have bearer := texts.token text rfl
        have whole : cString (bearerPrefix ++ text) = bearerPrefix ++ text := by
          apply cString_eq_self.mpr
          intro nul
          rcases List.mem_append.mp nul with front | back
          · exact absurd front (by decide)
          · exact bearer.2.2.1 back
        simp [whole, unset]

/-- A header that fits, of a token that fits, is the block of its fields. -/
theorem requestHeader_block {c : CixClient} {body : Option Bytes} {text : Bytes}
    (texts : RequestTexts c.host method path token)
    (fits : ∀ value, token = some value → value.length ≤ 103)
    (written : requestHeader c method path token body = some text) :
    text = block carriageReturn lineFeed
        (requestLine method path :: requestFields c.host token body) ∧ text.length < 512 := by
  have opening : ascii " HTTP/1.1\r\nHost: " = ascii " HTTP/1.1" ++ crlf ++ ascii "Host: " := by
    decide
  have closing : ascii "Content-Type: application/json\r\nContent-Length: " =
      ascii "Content-Type: application/json" ++ crlf ++ ascii "Content-Length: " := by decide
  have ending : ascii "\r\n\r\n" = crlf ++ crlf := by decide
  have line : authLine token = (token.toList.map tokenField).flatMap (· ++ crlf) := by
    unfold authLine
    cases token with
    | none => rfl
    | some value =>
        have short := fits value rfl
        have room : (ascii "Authorization: Bearer " ++ value ++ crlf).length < 128 := by
          have key : (ascii "Authorization: Bearer ").length = 22 := by decide
          have pair : crlf.length = 2 := rfl
          rw [List.length_append, List.length_append, key, pair]
          omega
        dsimp only
        rw [if_neg (texts.token value rfl).1, snprintf_of_lt room]
        simp [tokenField]
  unfold requestHeader at written
  dsimp only at written
  obtain ⟨small, same⟩ := Option.ite_none_left_eq_some.mp written
  refine ⟨?_, ?_⟩
  · rw [← Option.some.inj same, line, opening]
    cases token with
    | none =>
        cases body with
        | none => simp [requestFields, requestLine, block, crlf]
        | some content => simp [requestFields, requestLine, block, closing, ending, crlf]
    | some value =>
        cases body with
        | none => simp [requestFields, requestLine, block, crlf]
        | some content => simp [requestFields, requestLine, block, closing, ending, crlf]
  · rw [← Option.some.inj same]
    omega

/-- A request whose token fits the buffer of its line is read as it was meant, with its
body behind it or without one. -/
theorem request_read {c : CixClient} {body : Option Bytes} {text : Bytes}
    (texts : RequestTexts c.host method path token)
    (fits : ∀ value, token = some value → value.length ≤ 103)
    (small : bodyLength body ≤ longMax)
    (written : requestHeader c method path token body = some text) :
    ReadAs (text ++ body.getD []) method path token (bodyLength body) := by
  obtain ⟨shape, bound⟩ := requestHeader_block texts fits written
  have plain := requestFields_plain texts body
  have pathFits : path.length < httpMaxPath := by
    have inside : path.length ≤ text.length := by
      rw [shape, block]
      simp only [requestLine, List.length_append]
      omega
    unfold httpMaxPath
    omega
  have request := parseRequestLine_words texts.method.1 texts.method.2 texts.path pathFits
  have length := contentLength_request texts (requestLine method path) body plain small
  have cap : (block carriageReturn lineFeed
      (requestLine method path :: requestFields c.host token body)).length ≤ httpMaxHeaders := by
    rw [← shape, httpMaxHeaders]
    omega
  intro chunks stream
  refine ⟨⟨method, path, bodyLength body, headOf (requestLine method path)
    (requestFields c.host token body), []⟩, ?_, rfl, rfl, rfl, ?_⟩
  · rw [feedChunks_init, stream, shape, streamVerdict_block plain _ cap, blockVerdict_block plain,
      request]
    dsimp only
    rw [length, cString_eq_self.mpr texts.method.1.2.2.2, cString_eq_self.mpr texts.path.2.2.2]
    rfl
  · apply bearerOk_request texts
    rw [httpFindHeader_headOf plain, lookup_authorization texts body fits]

/-- A longer token takes the end of its own line away, and the header never ends. -/
theorem request_unended {c : CixClient} {text value : Bytes}
    (texts : RequestTexts c.host method path (some value)) (long : 103 < value.length)
    (written : requestHeader c method path (some value) none = some text) :
    streamVerdict text = .incomplete := by
  have nonempty := (texts.token value rfl).1
  have clean := (texts.token value rfl).2.1
  have key : (ascii "Authorization: Bearer ").length = 22 := by decide
  have opening : ascii " HTTP/1.1\r\nHost: " = ascii " HTTP/1.1" ++ crlf ++ ascii "Host: " := by
    decide
  obtain ⟨front, back, cut, frontClean, backShort⟩ : ∃ front back : Bytes,
      authLine (some value) = front ++ back ∧ (carriageReturn ∉ front ∧ front ≠ []) ∧
        (back = [] ∨ back = [carriageReturn]) := by
    have absent : carriageReturn ∉ ascii "Authorization: Bearer " ++ value := by
      intro member
      rcases List.mem_append.mp member with here | there
      · exact absurd here (by decide)
      · exact clean there
    unfold authLine
    dsimp only
    rw [if_neg nonempty, snprintf, List.take_append]
    refine ⟨_, _, rfl, ⟨fun member => absent (List.mem_of_mem_take member), ?_⟩, ?_⟩
    · intro empty
      have lengths := congrArg List.length empty
      rw [List.length_take, List.length_append, key] at lengths
      simp at lengths
    · rw [List.length_append, key]
      have room : 128 - 1 - (22 + value.length) = 0 ∨ 128 - 1 - (22 + value.length) = 1 := by omega
      rcases room with none | one
      · exact Or.inl (by rw [none]; rfl)
      · exact Or.inr (by rw [one]; rfl)
  have shape : text = joinLines carriageReturn lineFeed
      ([requestLine method path, ascii "Host: " ++ c.host] ++ [front ++ back ++ crlf]) ∧
        text.length < 512 := by
    unfold requestHeader at written
    dsimp only at written
    split at written
    next => contradiction
    next small =>
      refine ⟨?_, by rw [← Option.some.inj written]; omega⟩
      rw [← Option.some.inj written, cut, opening]
      simp [joinLines, requestLine, crlf]
  have plain : PlainLines carriageReturn [requestLine method path, ascii "Host: " ++ c.host] := by
    intro line member
    apply requestFields_plain texts none line
    rcases List.mem_cons.mp member with rfl | isHost
    · exact List.mem_cons_self
    · rw [List.mem_singleton.mp isHost]
      exact List.mem_cons_of_mem _ List.mem_cons_self
  have opens : (front ++ back ++ crlf).head? ≠ some carriageReturn := by
    obtain ⟨first, rest, rfl⟩ := List.exists_cons_of_ne_nil frontClean.2
    rintro same
    exact frontClean.1 (Option.some.inj same ▸ List.mem_cons_self)
  have tail : memmem [carriageReturn, lineFeed, carriageReturn, lineFeed]
      (front ++ back ++ crlf) = none := by
    have short : ∀ back : Bytes, back = [] ∨ back = [carriageReturn] →
        memmem [carriageReturn, lineFeed, carriageReturn, lineFeed] (back ++ crlf) = none := by
      rintro back (rfl | rfl)
      · decide
      · decide
    rw [List.append_assoc, memmem_skip frontClean.1, short back backShort]
    rfl
  have absent : memmem blankLine text = none := by
    rw [shape.1]
    exact memmem_joinLines (by decide) plain opens tail
  rw [streamVerdict, absent]
  dsimp only
  rw [if_pos (by unfold httpMaxHeaders; omega)]

/-- A request without a body is read as it was meant exactly when its token fits the
buffer of its line; with a longer one the server waits for the rest of the header. -/
theorem request_read_iff {c : CixClient} {text : Bytes}
    (texts : RequestTexts c.host method path token)
    (written : requestHeader c method path token none = some text) :
    (ReadAs text method path token 0 ↔ ∀ value, token = some value → value.length ≤ 103) ∧
      ((∃ value, token = some value ∧ 103 < value.length) →
        ∀ chunks : List Bytes, chunks.flatten = text → feedChunks .init chunks = .incomplete) := by
  have unended : ∀ {value}, token = some value → 103 < value.length →
      ∀ chunks : List Bytes, chunks.flatten = text → feedChunks .init chunks = .incomplete := by
    rintro value rfl long chunks stream
    have verdict := feedChunks_init chunks
    rw [stream, request_unended texts long written] at verdict
    cases read : feedChunks .init chunks with
    | incomplete => rfl
    | tooLarge =>
        rw [read] at verdict
        contradiction
    | malformed =>
        rw [read] at verdict
        contradiction
    | complete req =>
        rw [read] at verdict
        contradiction
  refine ⟨⟨?_, ?_⟩, ?_⟩
  · intro reads value isToken
    by_contra long
    obtain ⟨req, read, _⟩ := reads [text] (by simp)
    rw [unended isToken (by omega) [text] (by simp)] at read
    contradiction
  · intro fits
    have read := request_read texts fits (Nat.zero_le _) written
    rw [Option.getD_none, List.append_nil] at read
    exact read
  · rintro ⟨value, isToken, long⟩
    exact unended isToken long

end Reading

/-! ### A token at the end of its buffer -/

theorem requestTexts_log {token : Bytes} (bearer : BearerToken token) :
    RequestTexts (cixClientInit (ascii "127.0.0.1")).host (ascii "GET")
      (ascii "/api/v1/log?after=0") (some token) where
  host := by decide
  method := by decide
  path := by decide
  token := fun _ same => Option.some.inj same ▸ bearer

theorem bearerToken_replicate {n : Nat} (positive : 0 < n) :
    BearerToken (List.replicate n 97) := by
  refine ⟨by simp; omega, ?_, ?_, ?_⟩
  · exact fun member => absurd (List.eq_of_mem_replicate member) (by decide)
  · exact fun member => absurd (List.eq_of_mem_replicate member) (by decide)
  · intro c last
    rw [List.getLast?_replicate] at last
    split at last
    next => contradiction
    next =>
      rw [← Option.some.inj last]
      decide

/-- A token of 103 bytes is read, and a longer one is never answered, though the server
may be configured with it. -/
theorem long_token_unended :
    (∃ text, requestHeader (cixClientInit (ascii "127.0.0.1")) (ascii "GET")
        (ascii "/api/v1/log?after=0") (some (List.replicate 103 97)) none = some text ∧
        ReadAs text (ascii "GET") (ascii "/api/v1/log?after=0")
          (some (List.replicate 103 97)) 0) ∧
      ∃ text, requestHeader (cixClientInit (ascii "127.0.0.1")) (ascii "GET")
          (ascii "/api/v1/log?after=0") (some (List.replicate 104 97)) none = some text ∧
        feedChunks .init [text] = .incomplete := by
  have short : (requestHeader (cixClientInit (ascii "127.0.0.1")) (ascii "GET")
      (ascii "/api/v1/log?after=0") (some (List.replicate 103 97)) none).isSome := by
    decide +kernel
  have long : (requestHeader (cixClientInit (ascii "127.0.0.1")) (ascii "GET")
      (ascii "/api/v1/log?after=0") (some (List.replicate 104 97)) none).isSome := by
    decide +kernel
  obtain ⟨text, written⟩ := Option.isSome_iff_exists.mp short
  obtain ⟨other, writtenLong⟩ := Option.isSome_iff_exists.mp long
  have reads := request_read_iff (requestTexts_log (bearerToken_replicate (by decide))) written
  have unended :=
    request_read_iff (requestTexts_log (bearerToken_replicate (by decide))) writtenLong
  refine ⟨⟨text, written, reads.1.mpr ?_⟩, other, writtenLong, ?_⟩
  · intro value same
    rw [← Option.some.inj same, List.length_replicate]
  · apply unended.2 ⟨List.replicate 104 97, rfl, ?_⟩ [other] (by simp)
    rw [List.length_replicate]
    decide

end CixCache
