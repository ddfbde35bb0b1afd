import CixCache.Client.Response
import CixCache.Server.Delivery
import CixCache.Server.Reading

/-!
Contract: publishing a file from the command line.

Owns: `cmdPut` with the header it writes by hand, the answer it reads and its exit code;
`Publishable`, when a server takes a file under a name; and that, however the stream is cut,
the command succeeds exactly then, and the name then resolves to the declared digest.

Does not own: the requests `do_one_request` writes (`Client.Request`), or uploads that are
not written by the client (`Server.Delivery`).
-/

namespace CixCache

open CixCache.Lib

/-! ## Functions of the source -/

/-- What `cmd_put` takes from its arguments. -/
structure PutOptions where
  path : Option Bytes
  name : Option Bytes
  token : Option Bytes
  digest : Option Bytes
deriving DecidableEq, Repr

/-- The loop over the arguments; `none` for an option or an argument too many. -/
def putOptions : PutOptions → List Bytes → Option PutOptions
  | options, [] => some options
  | options, arg :: rest =>
      if ascii "--name=" <+: arg then putOptions { options with name := some (arg.drop 7) } rest
      else if ascii "--sha256=" <+: arg then
        putOptions { options with digest := some (arg.drop 9) } rest
      else if ascii "--token=" <+: arg then
        putOptions { options with token := some (arg.drop 8) } rest
      else if ascii "--" <+: arg then none
      else if options.path = none then putOptions { options with path := some arg } rest
      else none

/-- The text of the header `cmd_put` formats. -/
def putText (c : CixClient) (name digest : Bytes) (token : Option Bytes) (size : Nat) : Bytes :=
  ascii "PUT " ++ snprintf 600 (ascii "/" ++ name) ++ ascii " HTTP/1.1\r\nHost: " ++ c.host ++
    ascii "\r\nContent-Length: " ++ printed size ++ ascii "\r\nX-Cix-Sha256: " ++ digest ++
    crlf ++
    (match token with
    | none => []
    | some text => ascii "Authorization: Bearer " ++ text ++ crlf) ++
    ascii "Connection: close\r\n\r\n"

def putHeader (c : CixClient) (name digest : Bytes) (token : Option Bytes) (size : Nat) : Bytes :=
  snprintf 1024 (putText c name digest token size)

/-- `sscanf(resp, "HTTP/1.%*d %d", &status)` -/
def scanPutStatus (resp : Bytes) : Option Int :=
  let literal := ascii "HTTP/1."
  let text := cString resp
  if literal <+: text then
    match scanNumber (text.drop literal.length) with
    | none => none
    | some (_, rest) => (scanNumber rest).map Prod.fst
  else none

/-- The exit code for an answer of which one `read` brought so much. -/
def putExit (resp : Bytes) : Nat :=
  let status := (scanPutStatus resp).getD 0
  if 200 ≤ status ∧ status < 300 then 0 else 1

/-- The server's end of a connection: how many bytes it takes before a write fails, and
what the one `read` of the answer brings, empty when that fails. -/
structure PutSocket where
  accepts : Nat
  answer : Bytes

/-- The exit code, and the bytes that were sent. `files` is what opening and reading a
path brings; a file keeps its size while it is sent. -/
def cmdPut (c : CixClient) (files : Bytes → Option Bytes) (connected : Option PutSocket)
    (argv : List Bytes) : Nat × Bytes :=
  match putOptions ⟨none, none, none, none⟩ argv with
  | some ⟨some path, some name, token, some digest⟩ =>
      match files path with
      | none => (1, [])
      | some content =>
          match connected with
          | none => (1, [])
          | some sock =>
              let stream := putHeader c name digest token content.length ++ content
              if sock.accepts < stream.length then (1, stream.take sock.accepts)
              else (putExit (sock.answer.take 4095), stream)
  | _ => (2, [])

/-! ## What a publication asks for -/

/-- The file may be published under the name. -/
structure Publishable (conf : Conf) (sha : Sha256sum) (st : Store) (name digest : Bytes)
    (token : Option Bytes) (content : Bytes) : Prop where
  authorized : conf.pushToken = [] ∨ token = some conf.pushToken
  valid : storeNameIsValid name = true
  size : 0 < content.length ∧ content.length ≤ uploadMaxBytes
  declared : sha.digest content = digest
  gate : storeNeedsSignature conf.policy name = true → signatureFound st name = true
  free : storeResolve st name = .ok digest ∨ storeResolve st name = .error .notFound

/-- What the server does with a push: it publishes exactly what may be published, and
refuses the rest with nothing changed. -/
structure PushOutcome (conf : Conf) (sha : Sha256sum) (st : Store) (name digest : Bytes)
    (token : Option Bytes) (content : Bytes) (done : Dispatched) : Prop where
  created : done.conn.status = some 201 ↔ Publishable conf sha st name digest token content
  resolves : Publishable conf sha st name digest token content →
    storeResolve done.store name = .ok digest ∧ (storeBlobExists done.store digest).isSome
  refused : ¬ Publishable conf sha st name digest token content →
    (∃ status, done.conn.status = some status ∧ 400 ≤ status ∧ status < 1000) ∧
      packagesOf done.store.files = packagesOf st.files ∧
      blobsOf done.store.files = blobsOf st.files

/-- The texts of a push that keep to their places in its header. -/
structure PutTexts (c : CixClient) (name digest : Bytes) (token : Option Bytes) (size : Nat) :
    Prop where
  path : name.length + 1 < httpMaxPath
  fits : (putText c name digest token size).length < 1024
  host : carriageReturn ∉ c.host
  word : Word name ∧ percent ∉ name ∧ questionMark ∉ name
  declared : carriageReturn ∉ digest ∧ 0 ∉ digest ∧ Unpadded digest
  bearer : ∀ text, token = some text → BearerToken text

def putFields (host digest : Bytes) (token : Option Bytes) (size : Nat) : List Bytes :=
  [ascii "Host: " ++ host, ascii "Content-Length: " ++ printed size,
    ascii "X-Cix-Sha256: " ++ digest] ++ token.toList.map tokenField ++ [ascii "Connection: close"]

/-! ## The header as the server reads it -/

section Header

variable {c : CixClient} {name digest : Bytes} {token : Option Bytes} {size : Nat}

/-- The lines of the header. -/
def putLines (c : CixClient) (name digest : Bytes) (token : Option Bytes) (size : Nat) :
    List Bytes :=
  requestLine (ascii "PUT") (slash :: name) :: putFields c.host digest token size

theorem putHeader_block (texts : PutTexts c name digest token size) :
    putHeader c name digest token size =
      block carriageReturn lineFeed (putLines c name digest token size) := by
  have opening : ascii " HTTP/1.1\r\nHost: " = ascii " HTTP/1.1" ++ crlf ++ ascii "Host: " := by
    decide
  have method : ascii "PUT " = ascii "PUT" ++ ascii " " := by decide
  have length : ascii "\r\nContent-Length: " = crlf ++ ascii "Content-Length: " := by decide
  have declared : ascii "\r\nX-Cix-Sha256: " = crlf ++ ascii "X-Cix-Sha256: " := by decide
  have ending : ascii "Connection: close\r\n\r\n" = ascii "Connection: close" ++ crlf ++ crlf := by
    decide
  have url : snprintf 600 (ascii "/" ++ name) = slash :: name := by
    have short := texts.path
    rw [snprintf_of_lt (by simp [httpMaxPath, ascii] at short ⊢; omega)]
    rfl
  rw [putHeader, snprintf_of_lt texts.fits]
  unfold putText
  rw [url, opening, method, length, declared, ending]
  cases token with
  | none => simp [putLines, putFields, requestLine, block, crlf]
  | some text => simp [putLines, putFields, requestLine, tokenField, block, crlf]

theorem putLines_plain (texts : PutTexts c name digest token size) :
    PlainLines carriageReturn (putLines c name digest token size) := by
  intro line member
  rcases List.mem_cons.mp member with rfl | inFields
  · refine ⟨by simp [requestLine, ascii], ?_⟩
    have path : carriageReturn ∉ slash :: name := by
      intro inside
      rcases List.mem_cons.mp inside with same | inName
      · exact absurd same (by decide)
      · exact texts.word.1.2.2.1 inName
    exact notMem_append (notMem_append (notMem_append (by decide) (by decide)) path) (by decide)
  rcases List.mem_append.mp inFields with inFront | isLast
  rcases List.mem_append.mp inFront with fixed | isToken
  · simp only [List.mem_cons, List.not_mem_nil, or_false] at fixed
    rcases fixed with rfl | rfl | rfl
    · exact ⟨by simp [ascii], notMem_append (by decide) texts.host⟩
    · exact ⟨by simp [printed_ne_nil], notMem_append (by decide) (printed_clean size).1⟩
    · exact ⟨by simp [ascii], notMem_append (by decide) texts.declared.1⟩
  · obtain ⟨text, inToken, rfl⟩ := List.mem_map.mp isToken
    have bearer := texts.bearer text (Option.mem_toList.mp inToken)
    exact ⟨by simp [tokenField, bearer.1], notMem_append (by decide) bearer.2.1⟩
  · rw [List.mem_singleton.mp isLast]
    exact ⟨by decide, by decide⟩

/-- The fields as keys and values. -/
theorem putFields_eq (host digest : Bytes) (token : Option Bytes) (size : Nat) :
    putFields host digest token size =
      (ascii "Host" ++ colon :: space :: host) ::
      (ascii "Content-Length" ++ colon :: space :: printed size) ::
      (ascii "X-Cix-Sha256" ++ colon :: space :: digest) ::
      (token.toList.map (fun text => ascii "Authorization" ++ colon :: space :: (bearerPrefix ++ text)) ++
        [ascii "Connection" ++ colon :: space :: ascii "close"]) := by
  have host_ : ascii "Host: " = ascii "Host" ++ colon :: [space] := by decide
  have length : ascii "Content-Length: " = ascii "Content-Length" ++ colon :: [space] := by decide
  have declared : ascii "X-Cix-Sha256: " = ascii "X-Cix-Sha256" ++ colon :: [space] := by decide
  have bearer : ascii "Authorization: Bearer " =
      ascii "Authorization" ++ colon :: space :: bearerPrefix := by decide
  have close : ascii "Connection: close" = ascii "Connection" ++ colon :: space :: ascii "close" := by
    decide
  have field : tokenField =
      fun text => ascii "Authorization" ++ colon :: space :: (bearerPrefix ++ text) := by
    funext text
    rw [tokenField, bearer]
    simp
  rw [putFields, field, host_, length, declared, close]
  simp

/-- The request the header is read to. -/
def pushedRequest (c : CixClient) (name digest : Bytes) (token : Option Bytes) (size : Nat) :
    HttpRequest where
  method := ascii "PUT"
  path := slash :: name
  contentLength := size
  headers := headOf (requestLine (ascii "PUT") (slash :: name)) (putFields c.host digest token size)
  body := []

theorem contentLengthOf_put (texts : PutTexts c name digest token size) (small : size ≤ longMax) :
    contentLengthOf (pushedRequest c name digest token size).headers = some size := by
  have plain := putLines_plain texts
  have digits : (printed size).length ≤ 19 := by
    apply printed_length (by decide)
    have limit : longMax < 10 ^ 19 := by decide
    omega
  have whole : cString (printed size) = printed size := cString_eq_self.mpr (printed_clean size).2
  unfold contentLengthOf pushedRequest
  dsimp only
  rw [httpFindHeader_headOf plain, putFields_eq,
    lookupHeader_skip (by decide) _ _ (by decide), lookupHeader_field (by decide) (unpadded_digits _),
    if_pos (by decide), if_neg (by omega)]
  dsimp only
  rw [whole, strtol_digits (printed_ne_nil _) (List.all_eq_true.mpr (printed_digits _)),
    decimal_printed, Nat.min_eq_left small]
  dsimp only
  rw [if_neg (by omega), Int.toNat_natCast]

theorem declaredDigest_put (texts : PutTexts c name digest token size) :
    declaredDigest (pushedRequest c name digest token size) =
      if 73 ≤ digest.length then none else some digest := by
  have plain := putLines_plain texts
  unfold declaredDigest pushedRequest
  dsimp only
  rw [httpFindHeader_headOf plain, putFields_eq,
    lookupHeader_skip (by decide) _ _ (by decide), lookupHeader_skip (by decide) _ _ (by decide),
    lookupHeader_field (by decide) texts.declared.2.2, if_pos (by decide)]
  show Option.map cString (if storeSha256HexLen + 1 + 8 ≤ digest.length then none else _) = _
  have size : storeSha256HexLen + 1 + 8 = 73 := by decide
  rw [size]
  split
  next => rfl
  next => rw [Option.map_some, cString_eq_self.mpr texts.declared.2.1]

theorem bearerOk_pushed (texts : PutTexts c name digest token size) {expect : Bytes}
    (short : expect.length < confTokenMax) :
    bearerOk (pushedRequest c name digest token size) expect = true ↔
      expect = [] ∨ token = some expect := by
  by_cases unset : expect = []
  · simp [bearerOk, unset]
  have looked : httpFindHeader (pushedRequest c name digest token size).headers
      (ascii "Authorization") (confTokenMax + 32) =
        token.bind fun text =>
          if confTokenMax + 32 ≤ (bearerPrefix ++ text).length then none
          else some (bearerPrefix ++ text) := by
    unfold pushedRequest
    dsimp only
    rw [httpFindHeader_headOf (putLines_plain texts), putFields_eq,
      lookupHeader_skip (by decide) _ _ (by decide), lookupHeader_skip (by decide) _ _ (by decide),
      lookupHeader_skip (by decide) _ _ (by decide)]
    cases token with
    | none =>
        show lookupHeader [ascii "Connection" ++ colon :: space :: ascii "close"] _ _ = none
        rw [lookupHeader_skip (by decide) _ _ (by decide)]
        rfl
    | some text =>
        have bearer := texts.bearer text rfl
        have unpadded : Unpadded (bearerPrefix ++ text) := by
          constructor
          · intro c first
            have isB : some c = some 66 := first.symm.trans (by rw [List.head?_append]; rfl)
            rw [Option.some.inj isB]
            decide
          · intro c last
            rw [List.getLast?_append_of_ne_nil _ bearer.1] at last
            exact bearer.2.2.2 c last
        show lookupHeader ((ascii "Authorization" ++ colon :: space :: (bearerPrefix ++ text)) :: _) _ _ = _
        rw [lookupHeader_field (by decide) unpadded, if_pos (by decide)]
        rfl
  unfold bearerOk
  rw [if_neg unset, looked]
  cases token with
  | none => simp [unset]
  | some text =>
      have bearer := texts.bearer text rfl
      have whole : cString (bearerPrefix ++ text) = bearerPrefix ++ text :=
        cString_eq_self.mpr (notMem_append (by decide) bearer.2.2.1)
      have prefixLength : bearerPrefix.length = 7 := by decide
      rw [Option.bind_some]
      by_cases long : confTokenMax + 32 ≤ (bearerPrefix ++ text).length
      · rw [if_pos long]
        rw [List.length_append, prefixLength] at long
        have other : text ≠ expect := by
          rintro rfl
          omega
        simp [unset, other]
      · rw [if_neg long]
        simp [whole, unset]

/-- The header is a whole block, and is read to the request. -/
theorem headerBlock_put (texts : PutTexts c name digest token size) (small : size ≤ longMax) :
    HeaderBlock (putHeader c name digest token size) (pushedRequest c name digest token size) := by
  have plain := putLines_plain texts
  have shape := putHeader_block texts
  have word : Word (slash :: name) := by
    refine ⟨by simp, ?_, ?_, ?_⟩
    · simpa [slash, space] using texts.word.1.2.1
    · simpa [slash, carriageReturn] using texts.word.1.2.2.1
    · simpa [slash] using texts.word.1.2.2.2
  have line : parseRequestLine (requestLine (ascii "PUT") (slash :: name)) =
      some (ascii "PUT", slash :: name) :=
    parseRequestLine_words (by decide) (by decide) word texts.path
  have length : contentLengthOf (headOf (requestLine (ascii "PUT") (slash :: name))
      (putFields c.host digest token size)) = some size := contentLengthOf_put texts small
  refine ⟨?_, ?_, ?_⟩
  · have found : memmem blankLine (block carriageReturn lineFeed (putLines c name digest token size) ++ []) =
        some (joinLines carriageReturn lineFeed (putLines c name digest token size)).length :=
      memmem_block (by decide) (by simp [putLines]) plain []
    rw [List.append_nil] at found
    rw [shape, found, block_eq (by simp [putLines])]
    simp
  · have bound := texts.fits
    rw [putHeader, snprintf_of_lt texts.fits, httpMaxHeaders]
    omega
  · rw [shape, putLines, blockVerdict_block plain, line]
    dsimp only
    rw [length, cString_eq_self.mpr (by decide), cString_eq_self.mpr word.2.2.2]
    rfl

end Header

/-! ## The server's part -/

section Publishing

variable {conf : Conf} {sha : Sha256sum} {sys later : Sys} {st : Store} {importRunning : Bool}
  {c : CixClient} {name digest content : Bytes} {token : Option Bytes} {size : Nat}

theorem httpPathDecode_clean {path : Bytes} (clean : percent ∉ path) :
    httpPathDecode path = some path := by
  induction path with
  | nil => rfl
  | cons head tail inductionHypothesis =>
      rw [List.mem_cons, not_or] at clean
      rw [httpPathDecode_plain fun same => clean.1 same.symm, inductionHypothesis clean.2,
        Option.map_some]

theorem dispatchPath_clean {req : HttpRequest} (isPath : req.path = slash :: name)
    (noNul : 0 ∉ name) (clean : percent ∉ name ∧ questionMark ∉ name) :
    dispatchPath req = some (slash :: name) := by
  have noQuery : (slash :: name).takeWhile (fun c => c ≠ questionMark) = slash :: name := by
    rw [List.takeWhile_eq_self_iff]
    intro c member
    rw [decide_eq_true_eq]
    rintro rfl
    rcases List.mem_cons.mp member with same | inName
    · exact absurd same (by decide)
    · exact clean.2 inName
  have noEscape : percent ∉ slash :: name := by
    rw [List.mem_cons, not_or]
    exact ⟨by decide, clean.1⟩
  have whole : 0 ∉ slash :: name := by
    rw [List.mem_cons, not_or]
    exact ⟨by decide, noNul⟩
  unfold dispatchPath
  rw [isPath, noQuery, httpPathDecode_clean noEscape, Option.map_some, cString_eq_self.mpr whole]

theorem dispatchPath_pushed (texts : PutTexts c name digest token size) :
    dispatchPath (pushedRequest c name digest token size) = some (slash :: name) :=
  dispatchPath_clean rfl texts.word.1.2.2.2 texts.word.2

/-- A valid name is an artifact's path behind a slash. -/
theorem isArtifactPath_slash (valid : storeNameIsValid name = true) :
    isArtifactPath (slash :: name) = true ∧ slash ∉ name := by
  obtain ⟨text, _, suffixed⟩ := storeNameIsValid_iff.mp valid
  obtain ⟨ext, found⟩ := Option.isSome_iff_exists.mp suffixed
  obtain ⟨row, known, rfl, stem, _, shape⟩ := storeSuffixOf_some found
  refine ⟨?_, ?_⟩
  · rw [isArtifactPath, shape, ← List.cons_append, storeSuffixOf_append known (by simp)]
    rfl
  · intro member
    exact absurd (text.bytes slash member) (by decide)

/-- The checks of `begin_upload` pass. -/
structure Begun (conf : Conf) (st : Store) (name digest : Bytes) (token : Option Bytes) (size : Nat) :
    Prop where
  authorized : conf.pushToken = [] ∨ token = some conf.pushToken
  valid : storeNameIsValid name = true
  size : 0 < size ∧ size ≤ uploadMaxBytes
  digest : storeDigestIsValid digest = true
  gate : storeNeedsSignature conf.policy name = true → signatureFound st name = true

/-- A status that refuses. -/
def Refuses (status : Nat) : Prop := 400 ≤ status ∧ status < 1000

/-- The header of a push is refused, or its body is staged. -/
theorem dispatch_pushed (texts : PutTexts c name digest token size)
    (limit : conf.pushToken.length < confTokenMax) (sys : Sys) (st : Store) (importRunning : Bool) :
    (Begun conf st name digest token size → ∀ body,
      dispatch conf sys st importRunning .fresh
          { pushedRequest c name digest token size with body := body } =
        ⟨(stageUpload sys st .fresh
            { pushedRequest c name digest token size with body := body } name digest).1,
          importRunning,
          (stageUpload sys st .fresh
            { pushedRequest c name digest token size with body := body } name digest).2⟩) ∧
    (¬ Begun conf st name digest token size → ∃ reply, Refuses reply.status ∧ ∀ body,
      dispatch conf sys st importRunning .fresh
          { pushedRequest c name digest token size with body := body } =
        ⟨st, importRunning, Conn.fresh.respond reply⟩) := by
  have named := dispatchPath_pushed texts
  have authorized := bearerOk_pushed texts limit
  have declared := declaredDigest_put texts
  have bearer : ∀ body, bearerOk { pushedRequest c name digest token size with body := body }
      conf.pushToken = bearerOk (pushedRequest c name digest token size) conf.pushToken :=
    fun _ => rfl
  have digestOf : ∀ body, declaredDigest { pushedRequest c name digest token size with body := body } =
      if 73 ≤ digest.length then none else some digest := fun _ => declared
  have length : ∀ body, HttpRequest.contentLength
      { pushedRequest c name digest token size with body := body } = size := fun _ => rfl
  have routes : ∀ body, _ := fun body =>
    dispatch_put conf sys st importRunning .fresh
      (show HttpRequest.method { pushedRequest c name digest token size with body := body } =
        ascii "PUT" from rfl) named
  simp only [routes, List.drop_succ_cons, List.drop_zero]
  constructor
  · intro begun body
    have artifact := isArtifactPath_slash begun.valid
    have short : ¬ 73 ≤ digest.length := by
      rw [storeDigestIsValid_length begun.digest]
      decide
    have gated : ¬ (storeNeedsSignature conf.policy name = true ∧ signatureFound st name = false) :=
      fun closed => absurd (begun.gate closed.1) (by simp [closed.2])
    have begins : beginUpload conf sys st .fresh
        { pushedRequest c name digest token size with body := body } name =
          stageUpload sys st .fresh
            { pushedRequest c name digest token size with body := body } name digest := by
      unfold beginUpload
      rw [bearer, authorized.mpr begun.authorized, digestOf, length, if_neg short, begun.valid,
        if_neg (by simp), if_neg (by simp), if_neg (by have := begun.size.1; omega),
        if_neg (by have := begun.size.2; omega)]
      dsimp only
      rw [begun.digest, if_neg (by simp), if_neg gated]
    rw [if_pos artifact.1, if_neg artifact.2, begins]
  · intro refused
    by_cases artifact : isArtifactPath (slash :: name) = true
    · by_cases inside : slash ∈ name
      · simp only [if_pos artifact, if_pos inside]
        exact ⟨_, ⟨by decide, by decide⟩, fun _ => rfl⟩
      · simp only [if_pos artifact, if_neg inside]
        obtain ⟨reply, refuses, begins⟩ : ∃ reply : Reply, Refuses reply.status ∧ ∀ body,
            beginUpload conf sys st .fresh
              { pushedRequest c name digest token size with body := body } name =
                (st, Conn.fresh.respond reply) := by
          simp only [beginUpload, bearer, digestOf]
          split
          next => exact ⟨_, ⟨by decide, by decide⟩, fun _ => rfl⟩
          next open_ =>
            split
            next => exact ⟨_, ⟨by decide, by decide⟩, fun _ => rfl⟩
            next valid =>
              split
              next => exact ⟨_, ⟨by decide, by decide⟩, fun _ => rfl⟩
              next positive =>
                split
                next => exact ⟨_, ⟨by decide, by decide⟩, fun _ => rfl⟩
                next bound =>
                  by_cases long : 73 ≤ digest.length
                  · simp only [if_pos long]
                    exact ⟨_, ⟨by decide, by decide⟩, fun _ => rfl⟩
                  · simp only [if_neg long]
                    split
                    next => exact ⟨_, ⟨by decide, by decide⟩, fun _ => rfl⟩
                    next digestValid =>
                      split
                      next =>
                        exact ⟨_, show Refuses 409 from ⟨by decide, by decide⟩, fun _ => rfl⟩
                      next gated =>
                        refine absurd ⟨authorized.mp (by simpa using open_), by simpa using valid,
                          ⟨Nat.pos_of_ne_zero positive, Nat.not_lt.mp bound⟩,
                          by simpa using digestValid, ?_⟩ refused
                        intro needs
                        simpa [needs] using gated
        exact ⟨reply, refuses, fun body => by rw [begins]⟩
    · simp only [if_neg artifact]
      exact ⟨_, ⟨by decide, by decide⟩, fun _ => rfl⟩

/-- A connection that was answered reads on without effect. -/
theorem run_answered {session : Session} (answered : session.out.conn.status.isSome)
    (reads : List Bytes) : (run (readStep conf sha sys) session reads).out = session.out := by
  induction reads generalizing session with
  | nil => rfl
  | cons read rest inductionHypothesis =>
      have still : (readStep conf sha sys session read).out = session.out := by
        unfold Conn.status at answered
        unfold readStep handleRead
        split at answered
        next reply sending =>
          rw [sending]
        next => contradiction
      rw [run_cons, inductionHypothesis (by rw [still]; exact answered), still]

theorem publishReply_status (result : StoreResult) :
    (publishReply result).status = 201 ∨ Refuses (publishReply result).status := by
  cases result with
  | ok _ => exact Or.inl rfl
  | error error => cases error <;> exact Or.inr ⟨by decide, by decide⟩

theorem commitUpload_status (sys : Sys) (st : Store) (path : Path) (name digest : Bytes) :
    (commitUpload sys st path name digest).2.status = 201 ∨
      Refuses (commitUpload sys st path name digest).2.status := by
  have adopts : (adoptUpload sys st path name digest).2.status = 201 ∨
      Refuses (adoptUpload sys st path name digest).2.status := by
    unfold adoptUpload
    split
    next => exact Or.inr ⟨by simp [Reply.error], by simp [Reply.error]⟩
    next => exact publishReply_status _
  unfold commitUpload
  split
  next =>
    split
    next => exact Or.inr ⟨by simp [Reply.error], by simp [Reply.error]⟩
    next => exact adopts
  next => exact adopts
  next error _ _ =>
    refine Or.inr ?_
    show Refuses (if error = .ambiguous then 409 else 500)
    split
    next => exact ⟨by decide, by decide⟩
    next => exact ⟨by decide, by decide⟩

/-- A commit publishes exactly where the name is free or means the digest already. -/
theorem commitUpload_created_iff (succeeds : sys.Succeeds)
    (valid : storeDigestIsValid digest = true) {tmp : TmpName}
    (staged : st.files (.tmp tmp) = some (.regular content)) (name : Bytes) :
    (commitUpload sys st (.tmp tmp) name digest).2.status = 201 ↔
      storeResolve st name = .ok digest ∨ storeResolve st name = .error .notFound := by
  have adopts : storeResolve st name = .ok digest ∨ storeResolve st name = .error .notFound →
      (adoptUpload sys st (.tmp tmp) name digest).2.status = 201 :=
    fun accepted => (adoptUpload_of_succeeds succeeds valid staged accepted).1
  unfold commitUpload
  split
  next existing resolved =>
    rw [resolved]
    by_cases same : existing = digest
    · rw [if_neg (not_not.mpr same)]
      exact ⟨fun _ => Or.inl (by rw [same]), fun _ => adopts (Or.inl (by rw [resolved, same]))⟩
    · rw [if_pos same]
      constructor
      · intro created
        exact absurd created (by simp [Reply.error])
      · rintro (equal | missing)
        · exact absurd (Except.ok.inj equal) same
        · contradiction
  next free =>
    rw [free]
    exact ⟨fun _ => Or.inr rfl, fun _ => adopts (Or.inr free)⟩
  next error notMissing resolved =>
    rw [resolved]
    constructor
    · intro created
      have status : (if error = .ambiguous then 409 else 500) = 201 := created
      split at status
      next => contradiction
      next => contradiction
    · rintro (found | missing)
      · contradiction
      · exact absurd (Except.error.inj missing) (by simpa using notMissing)

theorem finishUpload_of_succeeds (succeeds : sys.Succeeds) {conn : Conn} {tmp : TmpName}
    (owned : conn.upPath = some (.tmp tmp)) (valid : storeDigestIsValid conn.upDigest = true)
    (staged : st.files (.tmp tmp) = some (.regular content)) :
    finishUpload sha sys st conn =
      if sha.digest content = conn.upDigest then
        ((commitUpload sys st (.tmp tmp) conn.upName conn.upDigest).1,
          { conn with child := .none, upPath := none }.respond
            (commitUpload sys st (.tmp tmp) conn.upName conn.upDigest).2)
      else (st, { conn with child := .none }.respond
        (.error 400 (ascii "body does not match declared sha256"))) := by
  unfold finishUpload
  rw [owned]
  dsimp only
  rw [storeHashFile_of_succeeds succeeds staged]
  dsimp only
  by_cases same : sha.digest content = conn.upDigest
  · rw [same, if_pos rfl, if_neg (by simp [strcasecmpEq])]
  · have differs : strcasecmpEq (sha.digest content) conn.upDigest = false := by
      rw [← Bool.not_eq_true]
      exact fun equal => same (eq_of_strcasecmpEq (sha.valid content) valid equal)
    rw [if_neg same, if_pos differs]

/-- The hash child's verdict on a body that was staged whole. -/
theorem push_finished (laterSucceeds : later.Succeeds)
    (begun : Begun conf st name digest token content.length) {staged : Store} {tmp : TmpName}
    {conn : Conn} (owned : conn.upPath = some (.tmp tmp)) (named : conn.upName = name)
    (declared : conn.upDigest = digest)
    (file : staged.files (.tmp tmp) = some (.regular content))
    (packages : packagesOf staged.files = packagesOf st.files)
    (blobs : blobsOf staged.files = blobsOf st.files) :
    PushOutcome conf sha st name digest token content
      ⟨(finishUpload sha later staged conn).1, importRunning,
        (finishUpload sha later staged conn).2⟩ := by
  have valid := begun.digest
  have resolves := storeResolve_congr packages name
  subst named declared
  rw [finishUpload_of_succeeds laterSucceeds owned valid file]
  by_cases same : sha.digest content = conn.upDigest
  · have created := commitUpload_created_iff laterSucceeds valid file conn.upName
    have effect := commitEffect_commit laterSucceeds valid file conn.upName
    have outcome := commitUpload_outcome later staged tmp conn.upName conn.upDigest
    have publishable : (commitUpload later staged (.tmp tmp) conn.upName conn.upDigest).2.status = 201 ↔
        Publishable conf sha st conn.upName conn.upDigest token content := by
      rw [created, resolves]
      exact ⟨fun free => ⟨begun.authorized, begun.valid, begun.size, same, begun.gate, free⟩,
        fun publishable => publishable.free⟩
    rw [if_pos same]
    refine ⟨?_, ?_, ?_⟩
    · rw [← publishable]
      exact Option.some_inj
    · intro allowed
      exact ⟨outcome.resolves (publishable.mpr allowed), effect.created (publishable.mpr allowed)⟩
    · intro forbidden
      have status := fun is201 => forbidden (publishable.mp is201)
      obtain ⟨entries, contents⟩ := effect.refused status
      refine ⟨⟨_, rfl, ?_⟩, entries.trans packages, contents.trans blobs⟩
      exact (commitUpload_status later staged (.tmp tmp) conn.upName conn.upDigest).resolve_left status
  · rw [if_neg same]
    refine ⟨?_, fun allowed => absurd allowed.declared same, fun _ => ?_⟩
    · constructor
      · intro created
        exact absurd (Option.some.inj created) (by simp [Reply.error])
      · exact fun allowed => absurd allowed.declared same
    · exact ⟨⟨400, rfl, by decide, by decide⟩, packages, blobs⟩

/-- The server reads in these pieces what the command sent, with nothing else to do. -/
def servedPush (conf : Conf) (sha : Sha256sum) (sys later : Sys) (st : Store) (importRunning : Bool)
    (reads : List Bytes) : Dispatched :=
  let session := run (readStep conf sha sys) (.fresh st importRunning) reads
  connStep conf sha later session.out.store session.out.importRunning session.out.conn .hashed

/-- However the stream of a push is cut into reads, the server publishes the file when it
may be published and refuses it otherwise. -/
theorem push_outcome (texts : PutTexts c name digest token content.length)
    (limit : conf.pushToken.length < confTokenMax) (range : content.length ≤ longMax)
    (succeeds : sys.Succeeds) (laterSucceeds : later.Succeeds) {reads : List Bytes}
    (stream : reads.flatten = putHeader c name digest token content.length ++ content) :
    PushOutcome conf sha st name digest token content
      (servedPush conf sha sys later st importRunning reads) := by
  unfold servedPush
  extract_lets session
  have header := headerBlock_put texts range
  obtain ⟨accepts, refuses⟩ := dispatch_pushed texts limit sys st importRunning
  have begins : ([] : Bytes).length < (putHeader c name digest token content.length).length := by
    have bound : (putHeader c name digest token content.length).length - 4 + 4 ≤
        (putHeader c name digest token content.length).length := memmem_bound header.blank
    rw [List.length_nil]
    omega
  obtain ⟨before, rest, brought, ran, whole, _⟩ :=
    run_block conf sha sys st importRunning header begins stream
  have ran : session = _ := ran
  by_cases begun : Begun conf st name digest token content.length
  · have pieces : brought ++ rest.flatten.take (content.length - brought.length) = content := by
      have length := congrArg List.length whole
      rw [List.length_append] at length
      rw [List.take_of_length_le (by omega), whole]
    have hashing : hashWhenComplete sys (Conn.staging (storeTmpPath st).1 name digest content.length
        content.length) = _ := hashWhenComplete_hashing succeeds (Nat.le_refl _)
    have staged : session = .staging before sys (storeTmpPath st).2 importRunning
        (storeTmpPath st).1 name digest content.length content := by
      rw [ran, accepts begun, stageUpload_staging succeeds, run_staging succeeds]
      exact congrArg _ pieces
    rw [staged, Session.staging, hashing]
    dsimp only [connStep, Conn.staging]
    rw [if_pos rfl]
    refine push_finished laterSucceeds begun rfl rfl rfl ?_ ?_ ?_
    · exact Function.update_self ..
    · exact packagesOf_update_tmp _ _ _
    · exact blobsOf_update_tmp _ _ _
  · obtain ⟨reply, refused, answers⟩ := refuses begun
    rw [answers] at ran
    have out : session.out = _ := (congrArg Session.out ran).trans (run_answered rfl rest)
    rw [out]
    rw [connStep_of_answered rfl]
    have forbidden : ¬ Publishable conf sha st name digest token content := by
      intro allowed
      exact begun ⟨allowed.authorized, allowed.valid, allowed.size,
        allowed.declared ▸ sha.valid content, allowed.gate⟩
    refine ⟨⟨?_, fun allowed => absurd allowed forbidden⟩, fun allowed => absurd allowed forbidden,
      fun _ => ⟨⟨_, rfl, refused⟩, rfl, rfl⟩⟩
    intro created
    have status : reply.status = 201 := Option.some.inj created
    exact absurd refused.1 (by omega)

end Publishing

/-! ## The client's part -/

section Exit

variable {status : Nat} {answer : Bytes}

/-- The digits of a status that arrived are scanned. -/
theorem scanPutStatus_digits {digits rest : Bytes} (nonempty : digits ≠ [])
    (all : ∀ c ∈ digits, isDigit c = true) (short : digits.length ≤ 3)
    (ends : ∀ c, rest.head? = some c → isDigit c = false) :
    scanPutStatus (ascii "HTTP/1.1 " ++ (digits ++ rest)) = some (decimal digits : Int) := by
  have opening : ascii "HTTP/1.1 " = ascii "HTTP/1." ++ ([49] ++ [space]) := by decide
  have noNul : 0 ∉ ascii "HTTP/1.1 " ++ digits :=
    notMem_append (by decide) fun member => absurd (all 0 member) (by decide)
  have small : decimal digits < 2 ^ 31 := by
    have bound := Nat.lt_of_lt_of_le (decimal_lt all) (Nat.pow_le_pow_right (by decide) short)
    omega
  have one : scanNumber ([49] ++ ([space] ++ (digits ++ cString rest))) =
      some ((decimal [49] : Int), [space] ++ (digits ++ cString rest)) :=
    scanNumber_digits (by decide) (fun c member => by
      rw [List.mem_singleton.mp member]
      decide) (by decide) fun c first => by
        rw [← Option.some.inj first]
        decide
  unfold scanPutStatus
  dsimp only
  rw [← List.append_assoc, cString_append noNul, opening, List.append_assoc, List.append_assoc,
    if_pos ⟨_, rfl⟩, List.drop_append_of_le_length (Nat.le_refl _), List.drop_length,
    List.nil_append, List.append_assoc, one]
  dsimp only
  rw [List.singleton_append, scanNumber_space, scanNumber_digits nonempty all small
    (cString_ends ends)]
  rfl

/-- Of an answer too short to hold a digit of its status none is scanned. -/
theorem putExit_short : ∀ n ≤ 9, putExit ((ascii "HTTP/1.1 ").take n) = 1 := by
  decide +kernel

/-- The command takes an answer for a success exactly when its status is one of success
and the three digits of it arrived in the read. -/
theorem putExit_iff (threeDigits : 100 ≤ status ∧ status < 1000) {stream : Bytes}
    (opens : statusLine status <+: stream) (arrived : answer <+: stream) :
    putExit answer = 0 ↔ (200 ≤ status ∧ status < 300) ∧ 12 ≤ answer.length := by
  cases statusPart threeDigits opens arrived with
  | opening few same =>
      rw [same, putExit_short _ few, ← same]
      constructor
      · intro failed
        contradiction
      · rintro ⟨_, long⟩
        omega
  | @digits digits rest many same all length ends whole =>
      have nonempty : digits ≠ [] := by
        rintro rfl
        rw [List.length_nil] at length
        omega
      have scanned : scanPutStatus answer = some (decimal digits : Int) := by
        conv_lhs => rw [same]
        exact scanPutStatus_digits nonempty all (by omega) ends
      unfold putExit
      rw [scanned]
      dsimp only [Option.getD_some]
      by_cases long : 12 ≤ answer.length
      · rw [whole long, decimal_printed]
        split
        next success => exact ⟨fun _ => ⟨by omega, long⟩, fun _ => rfl⟩
        next failure =>
          constructor
          · intro failed
            contradiction
          · rintro ⟨success, _⟩
            omega
      · have two : digits.length ≤ 2 := by omega
        have bound := Nat.lt_of_lt_of_le (decimal_lt all) (Nat.pow_le_pow_right (by decide) two)
        rw [if_neg (by omega)]
        constructor
        · intro failed
          contradiction
        · rintro ⟨_, enough⟩
          exact absurd enough long

end Exit

/-! ## Both parts -/

section Command

variable {conf : Conf} {sha : Sha256sum} {sys later : Sys} {st : Store} {importRunning : Bool}
  {c : CixClient} {files : Bytes → Option Bytes} {path name digest content : Bytes}
  {token : Option Bytes} {argv : List Bytes} {sock : PutSocket} {reads : List Bytes}

/-- The command succeeds exactly when the server may publish the file and three digits of
its answer arrive at once; and what the server does does not depend on what arrives. -/
theorem put_succeeds_iff
    (parsed : putOptions ⟨none, none, none, none⟩ argv =
      some ⟨some path, some name, token, some digest⟩)
    (opened : files path = some content)
    (texts : PutTexts c name digest token content.length)
    (limit : conf.pushToken.length < confTokenMax) (range : content.length ≤ longMax)
    (succeeds : sys.Succeeds) (laterSucceeds : later.Succeeds)
    (taken : (putHeader c name digest token content.length ++ content).length ≤ sock.accepts)
    (stream : reads.flatten = (cmdPut c files (some sock) argv).2)
    {sent : Bytes}
    (answered : ∀ status,
      (servedPush conf sha sys later st importRunning reads).conn.status = some status →
        statusLine status <+: sent)
    (arrived : sock.answer <+: sent) :
    PushOutcome conf sha st name digest token content
        (servedPush conf sha sys later st importRunning reads) ∧
      ((cmdPut c files (some sock) argv).1 = 0 ↔
        Publishable conf sha st name digest token content ∧ 12 ≤ sock.answer.length) := by
  have ran : cmdPut c files (some sock) argv =
      (putExit (sock.answer.take 4095),
        putHeader c name digest token content.length ++ content) := by
    unfold cmdPut
    rw [parsed]
    dsimp only
    rw [opened]
    dsimp only
    rw [if_neg (by omega)]
  rw [ran] at stream ⊢
  have outcome : PushOutcome conf sha st name digest token content
      (servedPush conf sha sys later st importRunning reads) :=
    push_outcome texts limit range succeeds laterSucceeds stream
  have part : sock.answer.take 4095 <+: sent := (List.take_prefix _ _).trans arrived
  have amount : 12 ≤ (sock.answer.take 4095).length ↔ 12 ≤ sock.answer.length := by
    rw [List.length_take]
    omega
  refine ⟨outcome, ?_⟩
  by_cases allowed : Publishable conf sha st name digest token content
  · have status := outcome.created.mpr allowed
    rw [putExit_iff (by decide) (answered 201 status) part, amount]
    exact and_congr_left fun _ => ⟨fun _ => allowed, fun _ => by decide⟩
  · obtain ⟨⟨status, isStatus, least, most⟩, _⟩ := outcome.refused allowed
    rw [putExit_iff ⟨by omega, most⟩ (answered status isStatus) part]
    constructor
    · rintro ⟨success, _⟩
      omega
    · rintro ⟨possible, _⟩
      exact absurd possible allowed

end Command

/-! ### An answer that comes in two pieces -/

/-- A server that asks for the token "t". -/
def Conf.asking : Conf := { Conf.sample with pushToken := ascii "t" }

def publishArgv : List Bytes :=
  [ascii "out.tar.gz", ascii "--name=foo-1-1-x86_64.tar.gz",
    ascii "--sha256=ca978112ca1bbdcafac231b39a23dc4da786eff8147c4e72b9807785afee48bb",
    ascii "--token=t"]

/-- The one file there is holds "a". -/
def outFile (path : Bytes) : Option Bytes :=
  if path = ascii "out.tar.gz" then some (ascii "a") else none

def fooName : Bytes := ascii "foo-1-1-x86_64.tar.gz"

def digestOfA : Bytes := Sha256sum.sample.digest (ascii "a")

theorem putTexts_foo :
    PutTexts (cixClientInit (ascii "127.0.0.1")) fooName digestOfA (some (ascii "t"))
      (ascii "a").length where
  path := by decide
  fits := by decide +kernel
  host := by decide
  word := by decide +kernel
  declared := by
    refine ⟨by decide +kernel, by decide +kernel, ?_, ?_⟩
    · intro c first
      have isC : some c = some 99 := first.symm.trans (by decide +kernel)
      rw [Option.some.inj isC]
      decide
    · intro c last
      have isB : some c = some 98 := last.symm.trans (by decide +kernel)
      rw [Option.some.inj isB]
      decide
  bearer := by
    intro text same
    rw [← Option.some.inj same]
    refine ⟨by decide, by decide, by decide, ?_⟩
    intro c last
    have isT : some c = some 116 := last.symm.trans (by decide)
    rw [Option.some.inj isT]
    decide

theorem publishable_foo :
    Publishable .asking .sample (Store.holding [] []) fooName digestOfA (some (ascii "t"))
      (ascii "a") where
  authorized := Or.inr rfl
  valid := by decide +kernel
  size := by decide
  declared := rfl
  gate := by decide +kernel
  free := by decide +kernel

/-- The file is published, but the command reports it only when three digits of the answer
come with its first read. -/
theorem published_unreported :
    ∃ (reads : List Bytes) (sent : Bytes),
      let served := servedPush .asking .sample (Sys.succeeding fun _ => none)
        (Sys.succeeding fun _ => none) (Store.holding [] []) false reads
      served.conn.status = some 201 ∧ storeResolve served.store fooName = .ok digestOfA ∧
        (cmdPut (cixClientInit (ascii "127.0.0.1")) outFile (some ⟨1000, sent⟩)
          publishArgv).1 = 0 ∧
        (cmdPut (cixClientInit (ascii "127.0.0.1")) outFile (some ⟨1000, sent.take 11⟩)
          publishArgv).1 ≠ 0 := by
  have parsed : putOptions ⟨none, none, none, none⟩ publishArgv =
      some ⟨some (ascii "out.tar.gz"), some fooName, some (ascii "t"), some digestOfA⟩ := by
    decide +kernel
  have opened : outFile (ascii "out.tar.gz") = some (ascii "a") := rfl
  have taken : (putHeader (cixClientInit (ascii "127.0.0.1")) fooName digestOfA
      (some (ascii "t")) (ascii "a").length ++ ascii "a").length ≤ 1000 := by
    decide +kernel
  have stream : ∀ answer,
      [putHeader (cixClientInit (ascii "127.0.0.1")) fooName digestOfA (some (ascii "t"))
        (ascii "a").length ++ ascii "a"].flatten =
        (cmdPut (cixClientInit (ascii "127.0.0.1")) outFile (some ⟨1000, answer⟩)
          publishArgv).2 := by
    intro answer
    unfold cmdPut
    rw [parsed]
    dsimp only
    rw [opened]
    dsimp only
    rw [if_neg (by omega), List.flatten_singleton]
  have succeeds := Sys.succeeds_succeeding fun _ => none
  have outcome : PushOutcome .asking .sample (Store.holding [] []) fooName digestOfA
      (some (ascii "t")) (ascii "a") (servedPush .asking .sample (Sys.succeeding fun _ => none)
        (Sys.succeeding fun _ => none) (Store.holding [] []) false
        [putHeader (cixClientInit (ascii "127.0.0.1")) fooName digestOfA (some (ascii "t"))
          (ascii "a").length ++ ascii "a"]) :=
    push_outcome putTexts_foo (by decide) (by decide) succeeds succeeds (by
      rw [List.flatten_singleton])
  have created := outcome.created.mpr publishable_foo
  have answered : ∀ status, (servedPush .asking .sample (Sys.succeeding fun _ => none)
      (Sys.succeeding fun _ => none) (Store.holding [] []) false
      [putHeader (cixClientInit (ascii "127.0.0.1")) fooName digestOfA (some (ascii "t"))
        (ascii "a").length ++ ascii "a"]).conn.status = some status →
        statusLine status <+: statusLine 201 ++ crlf := by
    intro status same
    rw [created] at same
    rw [← Option.some.inj same]
    exact ⟨_, rfl⟩
  have exits : ∀ answer, answer <+: statusLine 201 ++ crlf →
      ((cmdPut (cixClientInit (ascii "127.0.0.1")) outFile (some ⟨1000, answer⟩)
          publishArgv).1 = 0 ↔ _ ∧ 12 ≤ answer.length) := fun answer arrived =>
    (put_succeeds_iff parsed opened putTexts_foo (by decide) (by decide) succeeds succeeds taken
      (stream answer) answered arrived).2
  refine ⟨_, statusLine 201 ++ crlf, created, (outcome.resolves publishable_foo).1, ?_, ?_⟩
  · exact (exits _ (List.prefix_refl _)).mpr ⟨publishable_foo, by decide⟩
  · intro exited
    have long := ((exits _ (List.take_prefix _ _)).mp exited).2
    exact absurd long (by decide)

end CixCache
