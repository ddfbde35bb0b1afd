import CixCache.Client.Upload
import CixCache.Lib.Retry

/-!
Contract: the commands that are one call, and what becomes of one whose answer is lost.

Owns: `doOneRequest`, `cixClientRequestWithAuth` with its three tries, `oneCall` and the
commands `dispatchCommand` knows; `Carried`, what a connection may make of a try; and that
`delete` withdraws its name with the first try that arrives, and reports a success exactly
when the answer to that try comes back.

Does not own: the texts a command prints, and the loop of `log --follow`.
-/

namespace CixCache

open CixCache.Lib

/-! ## Functions of the source -/

/-- The server's end of a connection: how many bytes it takes before a write fails, and what
is read from it to its end, `none` when a read fails. -/
structure CallSocket where
  accepts : Nat
  answer : Option Bytes

/-- The response, `none` for -1, and the bytes that were sent. -/
def doOneRequest (c : CixClient) (method path : Bytes) (token body : Option Bytes)
    (connected : Option CallSocket) : Option CixResponse × Bytes :=
  match connected with
  | none => (none, [])
  | some sock =>
      match requestHeader c method path token body with
      | none => (none, [])
      | some header =>
          let text := header ++ body.getD []
          if sock.accepts < text.length then (none, text.take sock.accepts)
          else (sock.answer.bind readResponse, text)

/-- CIX_CLIENT_MAX_ATTEMPTS -/
def cixClientMaxAttempts : Nat := 3

def cixClientRequestWithAuth (c : CixClient) (method path : Bytes) (token body : Option Bytes)
    (connected : Nat → Option CallSocket) : Option CixResponse :=
  retry (fun k => (doOneRequest c method path token body (connected k)).1) cixClientMaxAttempts 0

/-- The exit code of `emit`. -/
def emitExit (r : CixResponse) : Nat := if r.status < 200 ∨ 300 ≤ r.status then 1 else 0

/-- The exit code of `one_call`. -/
def oneCall (c : CixClient) (method path : Bytes) (token : Option Bytes)
    (connected : Nat → Option CallSocket) : Nat :=
  match cixClientRequestWithAuth c method path token none connected with
  | none => 1
  | some r => emitExit r

/-- What `dispatch_command` takes from the arguments of a command. -/
structure CallOptions where
  token : Option Bytes
  dryRun : Bool
  follow : Bool
deriving DecidableEq, Repr

def CallOptions.take (options : CallOptions) (arg : Bytes) : CallOptions :=
  if ascii "--token=" <+: arg then { options with token := some (arg.drop 8) }
  else if arg = ascii "--dry-run" then { options with dryRun := true }
  else if arg = ascii "--follow" ∨ arg = ascii "-f" then { options with follow := true }
  else options

def callOptions (argv : List Bytes) : CallOptions :=
  argv.foldl CallOptions.take ⟨none, false, false⟩

def isCmd (cmd name : Bytes) (older : Option Bytes) : Bool :=
  decide (cmd = name) || decide (older = some cmd)

/-- What a command comes to: one call, the two that make their own, or a usage text. -/
inductive Invocation where
  | call (method path : Bytes) (token : Option Bytes)
  | logFollow (token : Option Bytes)
  | put
  | usage
deriving DecidableEq, Repr

def dispatchCommand (cmd : Bytes) (argv : List Bytes) : Invocation :=
  let options := callOptions argv
  let get := fun path => Invocation.call (ascii "GET") path options.token
  if isCmd cmd (ascii "status") none then get (ascii "/api/v1/status")
  else if isCmd cmd (ascii "list") (some (ascii "ls")) then get (ascii "/api/v1/artifacts")
  else if isCmd cmd (ascii "manifest") none then get (ascii "/MANIFEST.json")
  else if isCmd cmd (ascii "log") none then
    if options.follow then .logFollow options.token else get (ascii "/api/v1/log?after=0")
  else if isCmd cmd (ascii "gc") none then
    .call (if options.dryRun then ascii "GET" else ascii "POST") (ascii "/api/v1/gc") options.token
  else if isCmd cmd (ascii "import") none then
    .call (ascii "POST") (ascii "/api/v1/import") options.token
  else if isCmd cmd (ascii "import-status") none then get (ascii "/api/v1/import-status")
  else if isCmd cmd (ascii "publish") (some (ascii "put")) then .put
  else if isCmd cmd (ascii "delete") (some (ascii "rm")) then
    match argv with
    | [] => .usage
    | name :: _ =>
        if name.head? = some dash then .usage
        else .call (ascii "DELETE") (snprintf 600 (slash :: name)) options.token
  else .usage

/-- The exit code of a command that is one call, or none. -/
def Invocation.exit (c : CixClient) (connected : Nat → Option CallSocket) :
    Invocation → Option Nat
  | .call method path token => some (oneCall c method path token connected)
  | .usage => some 2
  | .logFollow _ => none
  | .put => none

/-! ## What came of an answer -/

section Answer

variable {status : Nat} {answer : Bytes}

/-- A response is one of the status that was scanned. -/
theorem readResponse_status (stream : Bytes) :
    (readResponse stream).map CixResponse.status = scanStatus stream := by
  unfold readResponse
  cases scanStatus stream with
  | none => rfl
  | some status =>
      dsimp only
      split
      next => rfl
      next => rfl

/-- A part of an answer is one that failed to come, a failure, or the status as it was
sent. -/
theorem readResponse_part (threeDigits : 100 ≤ status ∧ status < 1000) {stream : Bytes}
    (opens : statusLine status <+: stream) (arrived : answer <+: stream) :
    (answer.length ≤ 9 → readResponse answer = none) ∧
      (9 < answer.length → ∃ r, readResponse answer = some r ∧
        (emitExit r = 0 ↔ (200 ≤ status ∧ status < 300) ∧ 12 ≤ answer.length)) := by
  obtain ⟨few, many⟩ := scanStatus_part threeDigits opens arrived
  have scanned := readResponse_status answer
  constructor
  · intro short
    rw [few short] at scanned
    exact Option.map_eq_none_iff.mp scanned
  · intro long
    obtain ⟨n, isN, whole, part⟩ := many long
    rw [isN] at scanned
    obtain ⟨r, read, same⟩ := Option.map_eq_some_iff.mp scanned
    refine ⟨r, read, ?_⟩
    unfold emitExit
    rw [same]
    by_cases all : 12 ≤ answer.length
    · rw [whole all]
      split
      next failure =>
        constructor
        · intro failed
          contradiction
        · rintro ⟨success, _⟩
          omega
      next success => exact ⟨fun _ => ⟨by omega, all⟩, fun _ => rfl⟩
    · have small := part (by omega)
      rw [if_pos (by omega)]
      constructor
      · intro failed
        contradiction
      · rintro ⟨_, enough⟩
        exact absurd enough all

end Answer

/-! ## The server's part -/

section Serving

variable {conf : Conf} {sha : Sha256sum} {sys : Sys} {st : Store} {importRunning : Bool}
  {c : CixClient} {method path name : Bytes} {token : Option Bytes} {text : Bytes}

/-- The request a header without a body is read to. -/
def calledRequest (c : CixClient) (method path : Bytes) (token : Option Bytes) : HttpRequest where
  method := method
  path := path
  contentLength := 0
  headers := headOf (requestLine method path) (requestFields c.host token none)
  body := []

/-- A path is shorter than the header it is written in. -/
theorem path_length_lt (texts : RequestTexts c.host method path token)
    (fits : ∀ value, token = some value → value.length ≤ 103)
    (written : requestHeader c method path token none = some text) :
    path.length < httpMaxPath := by
  obtain ⟨shape, bound⟩ := requestHeader_block texts fits written
  have inside : path.length ≤ text.length := by
    rw [shape, block]
    simp only [requestLine, List.length_append]
    omega
  exact Nat.lt_of_le_of_lt inside bound

theorem headerBlock_call (texts : RequestTexts c.host method path token)
    (fits : ∀ value, token = some value → value.length ≤ 103)
    (written : requestHeader c method path token none = some text) :
    HeaderBlock text (calledRequest c method path token) := by
  obtain ⟨shape, bound⟩ := requestHeader_block texts fits written
  have plain := requestFields_plain texts none
  have pathFits := path_length_lt texts fits written
  have request := parseRequestLine_words texts.method.1 texts.method.2 texts.path pathFits
  have length := contentLength_request texts (requestLine method path) none plain (Nat.zero_le _)
  refine ⟨?_, ?_, ?_⟩
  · have found : memmem blankLine
        (block carriageReturn lineFeed
          (requestLine method path :: requestFields c.host token none) ++ []) =
          some (headOf (requestLine method path) (requestFields c.host token none)).length :=
      memmem_block (by decide) (by simp) plain []
    rw [List.append_nil, ← shape] at found
    rw [found, shape, block_eq (by simp)]
    simp [headOf]
  · unfold httpMaxHeaders
    omega
  · rw [shape, blockVerdict_block plain, request]
    dsimp only
    rw [length, cString_eq_self.mpr texts.method.1.2.2.2, cString_eq_self.mpr texts.path.2.2.2]
    rfl

/-- Before the end of its header a request is only buffered. -/
theorem run_unended (conf : Conf) (sha : Sha256sum) (sys : Sys) (out : Dispatched)
    (reading : out.conn.state = .readRequest) {seen : Bytes} {reads : List Bytes}
    (absent : memmem blankLine (seen ++ reads.flatten) = none)
    (small : (seen ++ reads.flatten).length ≤ httpMaxHeaders) :
    run (readStep conf sha sys) ⟨⟨seen, none⟩, out⟩ reads =
      ⟨⟨seen ++ reads.flatten, none⟩, out⟩ := by
  induction reads generalizing seen with
  | nil => rw [List.flatten_nil, List.append_nil, run_nil]
  | cons read rest inductionHypothesis =>
      rw [List.flatten_cons, ← List.append_assoc] at absent small ⊢
      have absentNow : memmem blankLine (seen ++ read) = none := by
        by_contra found
        obtain ⟨offset, found⟩ := Option.ne_none_iff_exists'.mp found
        rw [memmem_append found rest.flatten] at absent
        contradiction
      have fits : (seen ++ read).length ≤ httpMaxHeaders := by
        rw [List.length_append] at small
        omega
      have buffered : readStep conf sha sys ⟨⟨seen, none⟩, out⟩ read =
          ⟨⟨seen ++ read, none⟩, out⟩ := by
        unfold readStep handleRead
        dsimp only
        rw [reading]
        dsimp only
        rw [httpConnFeed_unterminated absentNow, decide_eq_true fits]
        rfl
      rw [run_cons, buffered]
      exact inductionHypothesis absent small

/-- A DELETE is routed to its handler, or misses. -/
theorem dispatch_delete {req : HttpRequest} {target : Bytes}
    (isDelete : req.method = ascii "DELETE") (named : dispatchPath req = some target)
    (conn : Conn) :
    dispatch conf sys st importRunning conn req =
      if isArtifactPath target then
        if slash ∈ target.drop 1 then
          ⟨st, importRunning, conn.respond (.error 404 (ascii "no such artifact"))⟩
        else
          ⟨(deleteArtifact conf sys st conn req (target.drop 1)).1, importRunning,
            (deleteArtifact conf sys st conn req (target.drop 1)).2⟩
      else ⟨st, importRunning, conn.respond (.error 404 (ascii "no such endpoint"))⟩ := by
  have notGet : ascii "DELETE" ≠ ascii "GET" := by decide
  have notHead : ascii "DELETE" ≠ ascii "HEAD" := by decide
  have notPut : ascii "DELETE" ≠ ascii "PUT" := by decide
  have notPost : ascii "DELETE" ≠ ascii "POST" := by decide
  rw [dispatch, named]
  dsimp only
  split
  next =>
    rw [dispatchArtifact]
    split
    next => rfl
    next =>
      rw [isDelete, if_neg (by simp [notGet, notHead]), if_neg notPut]
  next =>
    rw [isDelete, if_neg (by simp [notGet])]
    split
    next => simp [dispatchApi, isDelete, notGet, notPost]
    next => rw [if_neg (by simp [notGet, notHead])]

/-- What is left of a store from which a name was withdrawn. -/
def withdrawn (st : Store) (name : Bytes) : Store :=
  match canonicalForm name with
  | none => st
  | some canonical =>
      match signatureOf name with
      | none => st.withFiles (Function.update st.files (.packages canonical) none)
      | some sig =>
          st.withFiles (Function.update (Function.update st.files (.packages sig) none)
            (.packages canonical) none)

theorem withdrawn_twice (st : Store) (name : Bytes) :
    withdrawn (withdrawn st name) name = withdrawn st name := by
  unfold withdrawn
  cases canonicalForm name with
  | none => rfl
  | some canonical =>
      cases signatureOf name with
      | none => simp [Store.withFiles]
      | some sig =>
          dsimp only
          rw [Store.withFiles_files, Store.withFiles_withFiles]
          congr 1
          by_cases same : (Path.packages sig) = .packages canonical
          · rw [same]
            simp
          · rw [Function.update_comm same, Function.update_idem,
              Function.update_comm (Ne.symm same)]
            simp

theorem unpublishEntry_store (succeeds : sys.Succeeds) (st : Store) (entry : Path) (flag : Bool) :
    (unpublishEntry sys st entry flag).store =
      st.withFiles (Function.update st.files entry none) := by
  have gone := unlink_of_not_failed (unlink_not_failed succeeds st.files entry)
  unfold unpublishEntry
  split
  next removed =>
    rw [removed] at gone
    rw [← gone]
  next absent =>
    rw [absent] at gone
    rw [← gone]
  next failed =>
    rw [failed] at gone
    rw [← gone]

/-- When calls succeed, a withdrawal leaves the store without the entry and its signature. -/
theorem storeUnpublish_withdrawn (succeeds : sys.Succeeds) (st : Store) (name : Bytes) :
    (storeUnpublish sys st name).store = withdrawn st name := by
  unfold withdrawn
  cases form : canonicalForm name with
  | none => rw [storeUnpublish_of_none form]
  | some canonical =>
      rw [storeUnpublish_eq form]
      cases signatureOf name with
      | none => exact unpublishEntry_store succeeds _ _ _
      | some sig =>
          have answered := unlink_not_failed succeeds st.files (.packages sig)
          have gone := unlink_of_not_failed answered
          dsimp only
          split
          next removed =>
            rw [removed] at gone
            dsimp only at gone
            rw [unpublishEntry_store succeeds, gone, Store.withFiles_files,
              Store.withFiles_withFiles]
          next absent =>
            rw [absent] at gone
            dsimp only at gone
            rw [unpublishEntry_store succeeds, gone, Store.withFiles_files,
              Store.withFiles_withFiles]
          next failed =>
            rw [failed] at answered
            exact absurd rfl answered

/-- The name may be deleted, and there is something to delete. -/
structure Deletable (conf : Conf) (st : Store) (name : Bytes) (token : Option Bytes) : Prop where
  authorized : conf.pushToken = [] ∨ token = some conf.pushToken
  present : ∃ canonical, canonicalForm name = some canonical ∧
    (packagesOf st.files canonical).isSome

/-- What a DELETE does: with the token the name is withdrawn, and the answer is a success
exactly when there was something to withdraw. -/
structure Deleted (conf : Conf) (st : Store) (name : Bytes) (token : Option Bytes)
    (out : Dispatched) : Prop where
  withdrawn : conf.pushToken = [] ∨ token = some conf.pushToken → out.store = withdrawn st name
  refused : ¬ (conf.pushToken = [] ∨ token = some conf.pushToken) → out.store = st
  answered : ∃ status, out.conn.status = some status ∧ (100 ≤ status ∧ status < 1000) ∧
    (200 ≤ status ∧ status < 300 ↔ Deletable conf st name token)

/-- An error that answers a DELETE of what cannot be deleted. -/
theorem deleted_error {status : Nat} (refuses : Refuses status) {message : Bytes} {conn : Conn}
    (same : conf.pushToken = [] ∨ token = some conf.pushToken → withdrawn st name = st)
    (absent : ¬ Deletable conf st name token) :
    Deleted conf st name token ⟨st, importRunning, conn.respond (.error status message)⟩ := by
  have bounds : 400 ≤ status ∧ status < 1000 := refuses
  refine ⟨fun authorized => (same authorized).symm, fun _ => rfl, status, rfl, by omega, ?_⟩
  constructor
  · intro success
    omega
  · exact fun possible => absurd possible absent

theorem dispatch_called {req : HttpRequest} (succeeds : sys.Succeeds)
    (isDelete : req.method = ascii "DELETE") (named : dispatchPath req = some (slash :: name))
    (bearer : bearerOk req conf.pushToken = true ↔
      conf.pushToken = [] ∨ token = some conf.pushToken) (conn : Conn) :
    Deleted conf st name token (dispatch conf sys st importRunning conn req) := by
  rw [dispatch_delete isDelete named]
  simp only [List.drop_succ_cons, List.drop_zero]
  cases form : canonicalForm name with
  | none =>
      have same : withdrawn st name = st := by
        unfold withdrawn
        rw [form]
      have absent : ¬ Deletable conf st name token := by
        rintro ⟨_, canonical, isForm, _⟩
        rw [form] at isForm
        contradiction
      split
      next =>
        split
        next => exact deleted_error ⟨by decide, by decide⟩ (fun _ => same) absent
        next =>
          unfold deleteArtifact
          split
          next => exact deleted_error ⟨by decide, by decide⟩ (fun _ => same) absent
          next =>
            rw [storeUnpublish_of_none form]
            exact deleted_error (show Refuses 400 from ⟨by decide, by decide⟩) (fun _ => same)
              absent
      next => exact deleted_error ⟨by decide, by decide⟩ (fun _ => same) absent
  | some canonical =>
      obtain ⟨isArtifact, noSlash⟩ := isArtifactPath_slash (canonicalForm_valid form)
      rw [if_pos isArtifact, if_neg noSlash]
      unfold deleteArtifact
      split
      next denied =>
        have unauthorized : ¬ (conf.pushToken = [] ∨ token = some conf.pushToken) := by
          rw [← bearer, denied]
          exact Bool.false_ne_true
        exact deleted_error ⟨by decide, by decide⟩
          (fun authorized => absurd authorized unauthorized)
          fun possible => unauthorized possible.authorized
      next open_ =>
        have authorized := bearer.mp (by simpa using open_)
        have result := @storeUnpublish_result _ st _ _ succeeds form
        have store := storeUnpublish_withdrawn succeeds st name
        have deletable : Deletable conf st name token ↔ (packagesOf st.files canonical).isSome := by
          constructor
          · rintro ⟨_, other, isForm, present⟩
            rw [form] at isForm
            rw [Option.some.inj isForm]
            exact present
          · exact fun present => ⟨authorized, canonical, form, present⟩
        dsimp only
        split at result
        next present =>
          rw [result]
          refine ⟨fun _ => store, fun denied => absurd authorized denied, 204, rfl, by omega, ?_⟩
          exact ⟨fun _ => deletable.mpr present, fun _ => by omega⟩
        next missing =>
          rw [result]
          refine ⟨fun _ => store, fun denied => absurd authorized denied, 404, rfl, by omega, ?_⟩
          constructor
          · intro success
            omega
          · exact fun possible => absurd (deletable.mp possible) missing

end Serving

/-! ## Tries -/

/-- One try: what the client's socket brings, and the calls and the reads of the server. -/
structure Attempt where
  socket : Option CallSocket
  sys : Sys
  reads : List Bytes

/-- What the server makes of a try. -/
def Attempt.served (attempt : Attempt) (conf : Conf) (sha : Sha256sum) (importRunning : Bool)
    (st : Store) : Dispatched :=
  (run (readStep conf sha attempt.sys) (.fresh st importRunning) attempt.reads).out

/-- The bytes a try sends. -/
def Attempt.sent (attempt : Attempt) (c : CixClient) (method path : Bytes)
    (token : Option Bytes) : Bytes :=
  (doOneRequest c method path token none attempt.socket).2

/-- The whole request is read. -/
def Attempt.Arrives (attempt : Attempt) (text : Bytes) : Prop := attempt.reads.flatten = text

/-- The three digits of a status come back. -/
def Attempt.Heard (attempt : Attempt) : Prop :=
  ∃ sock bytes, attempt.socket = some sock ∧ sock.answer = some bytes ∧ 12 ≤ bytes.length

/-- A connection carries a beginning of the request one way, and a beginning of the response,
if there is one, the other way. -/
structure Carried (attempt : Attempt) (sent : Bytes) (out : Dispatched) : Prop where
  request : attempt.reads.flatten <+: sent
  response : ∀ sock bytes, attempt.socket = some sock → sock.answer = some bytes →
    match out.conn.status with
    | none => bytes = []
    | some status => ∃ contentType contentLength extra header body,
        httpFormatHeader status contentType contentLength extra = some header ∧
          bytes <+: header ++ body

/-- The store behind the first so many tries. -/
def storeAfter (conf : Conf) (sha : Sha256sum) (importRunning : Bool) (attempts : Nat → Attempt) :
    Nat → Store → Store :=
  across fun k st => ((attempts k).served conf sha importRunning st).store

/-- How a `delete` ends: it reports a success exactly when the name could be deleted and the
answer to the first try that arrived comes back; and with that try the name is withdrawn,
whatever is reported. -/
structure DeleteOutcome (conf : Conf) (sha : Sha256sum) (importRunning : Bool)
    (attempts : Nat → Attempt) (st : Store) (name : Bytes) (token : Option Bytes) (text : Bytes)
    (exit made : Nat) : Prop where
  reported : exit = 0 ↔ Deletable conf st name token ∧
    ∃ k < cixClientMaxAttempts, (attempts k).Arrives text ∧
      (∀ j < k, ¬ (attempts j).Arrives text) ∧ (attempts k).Heard
  withdrawn : (conf.pushToken = [] ∨ token = some conf.pushToken) →
    (∃ k < made, (attempts k).Arrives text) →
      storeAfter conf sha importRunning attempts made st = withdrawn st name
  kept : ¬ (conf.pushToken = [] ∨ token = some conf.pushToken) ∨
      (∀ k < made, ¬ (attempts k).Arrives text) →
    storeAfter conf sha importRunning attempts made st = st

section Outcome

variable {conf : Conf} {sha : Sha256sum} {st : Store} {importRunning : Bool} {c : CixClient}
  {method path name : Bytes} {token : Option Bytes} {text : Bytes} {attempt : Attempt}

/-- A try sends a beginning of the request. -/
theorem sent_opens (written : requestHeader c method path token none = some text) :
    attempt.sent c method path token <+: text := by
  unfold Attempt.sent doOneRequest
  cases attempt.socket with
  | none => exact List.nil_prefix
  | some sock =>
      dsimp only
      rw [written]
      dsimp only
      rw [Option.getD_none, List.append_nil]
      split
      next => exact List.take_prefix _ _
      next => exact List.prefix_refl _

/-- A request that did not arrive whole leaves the connection waiting. -/
theorem served_unarrived {req : HttpRequest} (header : HeaderBlock text req)
    (part : attempt.reads.flatten <+: text) (unarrived : ¬ attempt.Arrives text) :
    attempt.served conf sha importRunning st = ⟨st, importRunning, .fresh⟩ := by
  have absent : memmem blankLine ([] ++ attempt.reads.flatten) = none := by
    rw [List.nil_append]
    by_contra found
    obtain ⟨offset, found⟩ := Option.ne_none_iff_exists'.mp found
    have bound : offset + 4 ≤ attempt.reads.flatten.length := memmem_bound found
    obtain ⟨rest, whole⟩ := part
    have same := memmem_append found rest
    rw [whole, header.blank] at same
    have end_ := Option.some.inj same
    have lengths := congrArg List.length whole
    rw [List.length_append] at lengths
    have none_left : rest = [] := List.eq_nil_of_length_eq_zero (by omega)
    rw [none_left, List.append_nil] at whole
    exact unarrived whole
  have small : ([] ++ attempt.reads.flatten).length ≤ httpMaxHeaders := by
    have length := part.length_le
    have cap := header.small
    rw [List.nil_append]
    omega
  have ran := run_unended conf sha attempt.sys ⟨st, importRunning, .fresh⟩ rfl absent small
  unfold Attempt.served
  exact congrArg Session.out ran

/-- A DELETE that arrived whole is done. -/
theorem served_arrived (succeeds : attempt.sys.Succeeds)
    (texts : RequestTexts c.host (ascii "DELETE") (slash :: name) token)
    (clean : percent ∉ name ∧ questionMark ∉ name)
    (fits : ∀ value, token = some value → value.length ≤ 103)
    (written : requestHeader c (ascii "DELETE") (slash :: name) token none = some text)
    (arrives : attempt.Arrives text) :
    Deleted conf st name token (attempt.served conf sha importRunning st) := by
  have header := headerBlock_call texts fits written
  have early : ([] : Bytes).length < text.length := by
    have bound : text.length - 4 + 4 ≤ text.length := memmem_bound header.blank
    rw [List.length_nil]
    omega
  have stream : [] ++ attempt.reads.flatten = text ++ [] := by
    rw [List.nil_append, List.append_nil]
    exact arrives
  obtain ⟨before, rest, brought, ran, _, _⟩ :=
    run_block conf sha attempt.sys st importRunning header early stream
  have noNul : 0 ∉ name := fun member => texts.path.2.2.2 (List.mem_cons_of_mem _ member)
  have looked := httpFindHeader_headOf (requestFields_plain texts none) (ascii "Authorization")
    (confTokenMax + 32)
  rw [lookup_authorization texts none fits] at looked
  have deleted : Deleted conf st name token (dispatch conf attempt.sys st importRunning .fresh
      { calledRequest c (ascii "DELETE") (slash :: name) token with body := brought }) :=
    dispatch_called succeeds rfl (dispatchPath_clean rfl noNul clean)
      (bearerOk_request texts looked conf.pushToken) _
  have still : attempt.served conf sha importRunning st = dispatch conf attempt.sys st importRunning
      .fresh { calledRequest c (ascii "DELETE") (slash :: name) token with body := brought } := by
    obtain ⟨status, answered, _⟩ := deleted.answered
    have done := congrArg Session.out ran
    rw [run_answered (by rw [answered]; rfl) rest] at done
    exact done
  rw [still]
  exact deleted

theorem readResponse_nil : readResponse [] = none := by
  decide +kernel

/-- A try that is not answered brings no response. -/
theorem unanswered_try {out : Dispatched} {sent : Bytes} (carried : Carried attempt sent out)
    (unanswered : out.conn.status = none) :
    (doOneRequest c method path token none attempt.socket).1 = none := by
  unfold doOneRequest
  cases connected : attempt.socket with
  | none => rfl
  | some sock =>
      dsimp only
      cases requestHeader c method path token none with
      | none => rfl
      | some header =>
          dsimp only
          split
          next => rfl
          next =>
            cases read : sock.answer with
            | none => rfl
            | some bytes =>
                have empty := carried.response sock bytes connected read
                rw [unanswered] at empty
                rw [show bytes = [] from empty]
                exact readResponse_nil

theorem statusLine_opens {status contentLength : Nat} {contentType extra header : Bytes}
    (begun : httpFormatHeader status contentType contentLength extra = some header)
    (body : Bytes) : statusLine status <+: header ++ body := by
  unfold httpFormatHeader at begun
  dsimp only at begun
  rw [← Option.some.inj (Option.ite_none_left_eq_some.mp begun).2, headerText, statusLine]
  simp only [List.append_assoc, List.prefix_append_right_inj, List.prefix_append]

/-- A try that was answered brings nothing, when its status does not come back, or the
response. -/
theorem answered_try {out : Dispatched}
    (written : requestHeader c method path token none = some text)
    (carried : Carried attempt (attempt.sent c method path token) out)
    (arrives : attempt.Arrives text) {status : Nat} (answered : out.conn.status = some status)
    (threeDigits : 100 ≤ status ∧ status < 1000) :
    (doOneRequest c method path token none attempt.socket).1 = none ∧ ¬ attempt.Heard ∨
      ∃ r, (doOneRequest c method path token none attempt.socket).1 = some r ∧
        (emitExit r = 0 ↔ (200 ≤ status ∧ status < 300) ∧ attempt.Heard) := by
  have request := carried.request
  rw [show attempt.reads.flatten = text from arrives] at request
  have nonempty : text ≠ [] := by
    rintro rfl
    unfold requestHeader at written
    dsimp only at written
    have empty := (Option.ite_none_left_eq_some.mp written).2
    simp [crlf] at empty
  unfold Attempt.sent at request
  unfold doOneRequest at request ⊢
  cases connected : attempt.socket with
  | none =>
      rw [connected] at request
      exact absurd (List.prefix_nil.mp request) nonempty
  | some sock =>
      rw [connected] at request
      dsimp only at request ⊢
      rw [written] at request ⊢
      dsimp only at request ⊢
      rw [Option.getD_none, List.append_nil] at request ⊢
      split at request
      next short =>
        have length := request.length_le
        rw [List.length_take] at length
        omega
      next whole =>
        rw [if_neg whole]
        have heard : attempt.Heard ↔ ∃ bytes, sock.answer = some bytes ∧ 12 ≤ bytes.length := by
          constructor
          · rintro ⟨other, bytes, isSock, read, long⟩
            rw [connected] at isSock
            rw [Option.some.inj isSock]
            exact ⟨bytes, read, long⟩
          · rintro ⟨bytes, read, long⟩
            exact ⟨sock, bytes, connected, read, long⟩
        rw [heard]
        cases read : sock.answer with
        | none =>
            refine Or.inl ⟨rfl, ?_⟩
            rintro ⟨bytes, came, _⟩
            exact Option.some_ne_none bytes came.symm
        | some bytes =>
            have response := carried.response sock bytes connected read
            rw [answered] at response
            obtain ⟨contentType, contentLength, extra, header, body, begun, came⟩ := response
            obtain ⟨few, many⟩ := readResponse_part threeDigits (statusLine_opens begun body) came
            have amount : (∃ other, some bytes = some other ∧ 12 ≤ other.length) ↔
                12 ≤ bytes.length := by
              constructor
              · rintro ⟨other, same, long⟩
                rw [Option.some.inj same]
                exact long
              · intro long
                exact ⟨bytes, rfl, long⟩
            rw [amount, Option.bind_some]
            by_cases short : bytes.length ≤ 9
            · exact Or.inl ⟨few short, by omega⟩
            · exact Or.inr (many (by omega))

/-- A try whose status comes back brings a response. -/
theorem heard_try {out : Dispatched}
    (written : requestHeader c method path token none = some text)
    (carried : Carried attempt (attempt.sent c method path token) out)
    (arrives : attempt.Arrives text) {status : Nat} (answered : out.conn.status = some status)
    (threeDigits : 100 ≤ status ∧ status < 1000) (heard : attempt.Heard) :
    (doOneRequest c method path token none attempt.socket).1 ≠ none := by
  rcases answered_try written carried arrives answered threeDigits with
    ⟨_, unheard⟩ | ⟨r, came, _⟩
  · exact absurd heard unheard
  · rw [came]
    exact Option.some_ne_none r

/-- Where an entry was withdrawn there is nothing to delete. -/
theorem withdrawn_absent (conf : Conf) (st : Store) (name : Bytes) (token : Option Bytes) :
    ¬ Deletable conf (withdrawn st name) name token := by
  rintro ⟨_, canonical, form, present⟩
  unfold withdrawn at present
  rw [form] at present
  cases sig : signatureOf name with
  | none =>
      rw [sig] at present
      simp [packagesOf] at present
  | some other =>
      rw [sig] at present
      simp [packagesOf] at present

/-- What the server makes of so many tries depends on which of them arrive. -/
structure TriesServed (conf : Conf) (sha : Sha256sum) (importRunning : Bool)
    (attempts : Nat → Attempt) (name : Bytes) (token : Option Bytes) (text : Bytes)
    (bound : Nat) : Prop where
  arrived : ∀ k < bound, (attempts k).Arrives text → ∀ now,
    Deleted conf now name token ((attempts k).served conf sha importRunning now)
  waiting : ∀ k < bound, ¬ (attempts k).Arrives text → ∀ now,
    (attempts k).served conf sha importRunning now = ⟨now, importRunning, .fresh⟩

section Stores

variable {attempts : Nat → Attempt} {n bound : Nat}

theorem TriesServed.untouched
    (served : TriesServed conf sha importRunning attempts name token text bound)
    (within : n ≤ bound) (unheard : ∀ k < n, ¬ (attempts k).Arrives text) :
    storeAfter conf sha importRunning attempts n st = st :=
  across_unheard (fun k => (attempts k).Arrives text)
    (fun k less unarrived now => by
      rw [served.waiting k (Nat.lt_of_lt_of_le less within) unarrived])
    unheard st

theorem TriesServed.withdrawn
    (served : TriesServed conf sha importRunning attempts name token text bound)
    (within : n ≤ bound) (authorized : conf.pushToken = [] ∨ token = some conf.pushToken)
    (heard : ∃ k < n, (attempts k).Arrives text) :
    storeAfter conf sha importRunning attempts n st = CixCache.withdrawn st name :=
  across_idempotent (fun k => (attempts k).Arrives text)
    (fun k less unarrived now => by
      rw [served.waiting k (Nat.lt_of_lt_of_le less within) unarrived])
    (fun k less arrives now =>
      (served.arrived k (Nat.lt_of_lt_of_le less within) arrives now).withdrawn authorized)
    (fun now => withdrawn_twice now name) heard st

theorem TriesServed.refused
    (served : TriesServed conf sha importRunning attempts name token text bound)
    (within : n ≤ bound) (denied : ¬ (conf.pushToken = [] ∨ token = some conf.pushToken)) :
    storeAfter conf sha importRunning attempts n st = st := by
  apply across_unheard (fun _ => False) _ fun _ _ => id
  intro k less _ now
  have inside := Nat.lt_of_lt_of_le less within
  by_cases arrives : (attempts k).Arrives text
  · exact (served.arrived k inside arrives now).refused denied
  · rw [served.waiting k inside arrives]

end Stores

theorem dispatchCommand_delete {cmd : Bytes} {rest : List Bytes}
    (command : isCmd cmd (ascii "delete") (some (ascii "rm")) = true)
    (named : name.head? ≠ some dash) :
    dispatchCommand cmd (name :: rest) =
      .call (ascii "DELETE") (snprintf 600 (slash :: name)) (callOptions (name :: rest)).token := by
  have spelled : cmd = ascii "delete" ∨ cmd = ascii "rm" := by
    simp only [isCmd, Bool.or_eq_true, decide_eq_true_eq, Option.some.injEq] at command
    exact command.imp id Eq.symm
  unfold dispatchCommand
  dsimp only
  rw [if_neg named]
  rcases spelled with rfl | rfl
  · rw [if_neg (by decide), if_neg (by decide), if_neg (by decide), if_neg (by decide),
      if_neg (by decide), if_neg (by decide), if_neg (by decide), if_neg (by decide),
      if_pos (by decide)]
  · rw [if_neg (by decide), if_neg (by decide), if_neg (by decide), if_neg (by decide),
      if_neg (by decide), if_neg (by decide), if_neg (by decide), if_neg (by decide),
      if_pos (by decide)]

/-- A deletion is reported exactly when the answer to the first try that arrived comes back;
the tries behind it find nothing, and report a failure. -/
theorem delete_call_outcome {cmd : Bytes} {rest : List Bytes}
    (command : isCmd cmd (ascii "delete") (some (ascii "rm")) = true)
    (named : name.head? ≠ some dash) (isToken : (callOptions (name :: rest)).token = token)
    (texts : RequestTexts c.host (ascii "DELETE") (slash :: name) token)
    (clean : percent ∉ name ∧ questionMark ∉ name)
    (fits : ∀ value, token = some value → value.length ≤ 103)
    (written : requestHeader c (ascii "DELETE") (slash :: name) token none = some text)
    {attempts : Nat → Attempt}
    (calls : ∀ k < cixClientMaxAttempts, (attempts k).sys.Succeeds)
    (carried : ∀ k < cixClientMaxAttempts,
      Carried (attempts k) ((attempts k).sent c (ascii "DELETE") (slash :: name) token)
        ((attempts k).served conf sha importRunning
          (storeAfter conf sha importRunning attempts k st))) :
    ∃ exit, (dispatchCommand cmd (name :: rest)).exit c (fun k => (attempts k).socket) =
        some exit ∧
      DeleteOutcome conf sha importRunning attempts st name token text exit
        (triesMade (fun k => (doOneRequest c (ascii "DELETE") (slash :: name) token none
          (attempts k).socket).1) cixClientMaxAttempts 0) := by
  have header := headerBlock_call texts fits written
  have whole : snprintf 600 (slash :: name) = slash :: name := by
    apply snprintf_of_lt
    exact Nat.lt_trans (path_length_lt texts fits written) (by decide)
  have exits : (dispatchCommand cmd (name :: rest)).exit c (fun k => (attempts k).socket) =
      some (oneCall c (ascii "DELETE") (slash :: name) token fun k => (attempts k).socket) := by
    rw [dispatchCommand_delete command named, whole, isToken]
    rfl
  refine ⟨_, exits, ?_⟩
  unfold oneCall cixClientRequestWithAuth
  generalize isOnce : (fun k => (doOneRequest c (ascii "DELETE") (slash :: name) token none
    (attempts k).socket).1) = once
  have once_eq : ∀ k, (doOneRequest c (ascii "DELETE") (slash :: name) token none
      (attempts k).socket).1 = once k := fun k => congrFun isOnce k
  have served : TriesServed conf sha importRunning attempts name token text
      cixClientMaxAttempts :=
    { arrived := fun k less arrives now =>
        served_arrived (calls k less) texts clean fits written arrives
      waiting := fun k less unarrived now => served_unarrived header
        ((carried k less).request.trans (sent_opens written)) unarrived }
  have silent : ∀ k < cixClientMaxAttempts, ¬ (attempts k).Arrives text → once k = none := by
    intro k less unarrived
    rw [← once_eq]
    apply unanswered_try (carried k less)
    rw [served.waiting k less unarrived]
    rfl
  have loud : ∀ k < cixClientMaxAttempts, (attempts k).Arrives text → (attempts k).Heard →
      once k ≠ none := by
    intro k less arrives heard
    rw [← once_eq]
    obtain ⟨_, answered, threeDigits, _⟩ := (served.arrived k less arrives
      (storeAfter conf sha importRunning attempts k st)).answered
    exact heard_try written (carried k less) arrives answered threeDigits heard
  have made := triesMade_le once cixClientMaxAttempts 0
  refine ⟨?_, served.withdrawn made, ?_⟩
  · cases tried once cixClientMaxAttempts 0 with
    | @answered j r within brings before result =>
        rw [result]
        dsimp only
        rw [Nat.zero_add] at brings
        have arrives : (attempts j).Arrives text := by
          by_contra unarrived
          rw [silent j within unarrived] at brings
          contradiction
        obtain ⟨status, answered, threeDigits, success⟩ := (served.arrived j within arrives
          (storeAfter conf sha importRunning attempts j st)).answered
        have reported : emitExit r = 0 ↔
            Deletable conf (storeAfter conf sha importRunning attempts j st) name token ∧
              (attempts j).Heard := by
          rcases answered_try written (carried j within) arrives answered threeDigits with
            ⟨lost, _⟩ | ⟨other, came, exits⟩
          · rw [once_eq, brings] at lost
            contradiction
          · rw [once_eq, brings] at came
            rw [Option.some.inj came, exits, success]
        rw [reported]
        constructor
        · rintro ⟨possible, heard⟩
          -- A try that arrived before would have left nothing to delete.
          have first : ∀ i < j, ¬ (attempts i).Arrives text := by
            intro i less earlier
            rw [served.withdrawn (Nat.le_of_lt within) possible.authorized
              ⟨i, less, earlier⟩] at possible
            exact withdrawn_absent conf st name token possible
          rw [served.untouched (Nat.le_of_lt within) first] at possible
          exact ⟨possible, j, within, arrives, first, heard⟩
        · rintro ⟨possible, k, less, arrivesK, first, heard⟩
          have same : k = j := by
            rcases Nat.lt_trichotomy k j with earlier | same | later
            · have quiet := before k earlier
              rw [Nat.zero_add] at quiet
              exact absurd quiet (loud k less arrivesK heard)
            · exact same
            · exact absurd arrives (first j later)
          subst same
          rw [served.untouched (Nat.le_of_lt less) first]
          exact ⟨possible, heard⟩
    | unanswered quiet result =>
        rw [result]
        dsimp only
        constructor
        · intro failed
          contradiction
        · rintro ⟨_, k, less, arrives, _, heard⟩
          have unanswered := quiet k less
          rw [Nat.zero_add] at unanswered
          exact absurd unanswered (loud k less arrives heard)
  · rintro (denied | unheard)
    · exact served.refused made denied
    · exact served.untouched made unheard

end Outcome

/-! ### An answer that is lost -/

def deleteArgv : List Bytes := [fooName, ascii "--token=t"]

def deleteText : Bytes :=
  (requestHeader (cixClientInit (ascii "127.0.0.1")) (ascii "DELETE") (slash :: fooName)
    (some (ascii "t")) none).getD []

/-- A try that arrives, and of whose answer nothing comes back. -/
def lostTry : Attempt := ⟨some ⟨1000, none⟩, Sys.succeeding fun _ => none, [deleteText]⟩

def publishedFoo : Store := Store.holding [(fooName, digestOfA)] [(digestOfA, ascii "a")]

theorem requestTexts_delete :
    RequestTexts (cixClientInit (ascii "127.0.0.1")).host (ascii "DELETE") (slash :: fooName)
      (some (ascii "t")) where
  host := by decide
  method := by decide
  path := by decide +kernel
  token := putTexts_foo.bearer

theorem deleteToken_fits : ∀ value, some (ascii "t") = some value → value.length ≤ 103 := by
  intro value same
  rw [← Option.some.inj same]
  decide

theorem deleteText_written :
    requestHeader (cixClientInit (ascii "127.0.0.1")) (ascii "DELETE") (slash :: fooName)
      (some (ascii "t")) none = some deleteText := by
  have fits : (requestHeader (cixClientInit (ascii "127.0.0.1")) (ascii "DELETE")
      (slash :: fooName) (some (ascii "t")) none).isSome := by
    decide +kernel
  obtain ⟨text, written⟩ := Option.isSome_iff_exists.mp fits
  unfold deleteText
  rw [written, Option.getD_some]

theorem lostTry_sent :
    lostTry.sent (cixClientInit (ascii "127.0.0.1")) (ascii "DELETE") (slash :: fooName)
      (some (ascii "t")) = deleteText := by
  have bound :=
    (requestHeader_block requestTexts_delete deleteToken_fits deleteText_written).2
  unfold Attempt.sent doOneRequest lostTry
  dsimp only
  rw [deleteText_written]
  dsimp only
  rw [Option.getD_none, List.append_nil, if_neg (by omega)]

theorem lostTry_arrives : lostTry.Arrives deleteText := List.flatten_singleton

/-- The name is deleted by the first of the three tries, and the command reports a failure. -/
theorem delete_unreported :
    ∃ exit, (dispatchCommand (ascii "delete") deleteArgv).exit
        (cixClientInit (ascii "127.0.0.1")) (fun _ => lostTry.socket) = some exit ∧
      exit ≠ 0 ∧ ∃ made, storeAfter .asking .sample false (fun _ => lostTry) made publishedFoo =
        withdrawn publishedFoo fooName := by
  have command : isCmd (ascii "delete") (ascii "delete") (some (ascii "rm")) = true := by decide
  have named : fooName.head? ≠ some dash := by decide +kernel
  have isToken : (callOptions (fooName :: [ascii "--token=t"])).token = some (ascii "t") := by
    decide +kernel
  have clean : percent ∉ fooName ∧ questionMark ∉ fooName := by decide +kernel
  have calls : ∀ k < cixClientMaxAttempts, lostTry.sys.Succeeds :=
    fun _ _ => Sys.succeeds_succeeding fun _ => none
  have carried : ∀ k < cixClientMaxAttempts,
      Carried lostTry (lostTry.sent (cixClientInit (ascii "127.0.0.1")) (ascii "DELETE")
          (slash :: fooName) (some (ascii "t")))
        (lostTry.served .asking .sample false
          (storeAfter .asking .sample false (fun _ => lostTry) k publishedFoo)) := by
    intro k _
    refine ⟨?_, ?_⟩
    · rw [lostTry_sent]
      rw [show lostTry.reads.flatten = deleteText from lostTry_arrives]
    · intro sock bytes connected read
      have isSock : (⟨1000, none⟩ : CallSocket) = sock := Option.some.inj connected
      rw [← isSock] at read
      contradiction
  obtain ⟨exit, exits, outcome⟩ :=
    delete_call_outcome command named isToken requestTexts_delete clean deleteToken_fits
      deleteText_written calls carried
  have some_made := triesMade_pos (fun _ => (doOneRequest (cixClientInit (ascii "127.0.0.1"))
    (ascii "DELETE") (slash :: fooName) (some (ascii "t")) none lostTry.socket).1)
    (by decide : 0 < cixClientMaxAttempts) 0
  generalize triesMade _ _ _ = made at outcome some_made
  have authorized : Conf.asking.pushToken = [] ∨
      some (ascii "t") = some Conf.asking.pushToken := Or.inr rfl
  have arrived := outcome.withdrawn authorized ⟨0, some_made, lostTry_arrives⟩
  refine ⟨exit, exits, ?_, made, arrived⟩
  intro reported
  obtain ⟨_, k, _, _, _, sock, bytes, connected, read, _⟩ := outcome.reported.mp reported
  have isSock : (⟨1000, none⟩ : CallSocket) = sock := Option.some.inj connected
  rw [← isSock] at read
  exact Option.some_ne_none bytes read.symm

end CixCache
