import CixCache.Server.Records

/-!
Contract: how a request becomes a response of its connection.

Owns: `CallResults`, what the environment decides while an event is handled; `Response`, the
ways a handler begins a response; `respond` and the functions it is made of; the handlers
that answer at once; `route`, what a parsed request asks for; and that `route` makes the
choices of `dispatch`.

Does not own: staging, hashing and importing.
-/

namespace CixCache

open CixCache.Lib

/-- The environment of one step of a handler: file system calls, `pipe` and `fork`; the
clock; EPOLL_CTL_MOD; what setting up a watched record comes to, by its kind; `malloc`
for a body; the text of a JSON document; the reading of an asset. -/
structure CallResults where
  sys : Sys
  now : Int
  modifies : Interest → Bool
  opensPidfd : ConnKind → Bool
  allocates : ConnKind → Bool
  registers : ConnKind → Bool
  mallocs : Bool
  document : Bytes
  asset : AssetRead

/-- A response as its handler begins it. -/
inductive Response where
  | error (status : Nat) (message : Bytes)
  | json (body : ReplyBody)
  | page (contentType content : Bytes)
  | bare (contentType extra : Bytes) (contentLength : Nat)
  | blob (contentType extra content : Bytes)
  | plain (status : Nat)
deriving DecidableEq

/-- What a parsed request asks for. -/
inductive Routed where
  | respond (response : Response)
  | upload (name digest : Bytes)
  | importer

namespace Response

/-! ## Handlers that answer at once -/

def serveArtifact (conf : Conf) (st : Store) (req : HttpRequest) (name : Bytes)
    (headOnly : Bool) : Response :=
  if bearerOk req conf.pullToken = false then .error 401 (ascii "authentication required")
  else
    match storeOpen st name with
    | .error reason =>
        -- Ambiguity is not a miss.
        if reason = .ambiguous then .error 409 (storeErrorStr reason)
        else .error (if reason = .invalidName then 400 else 404) (storeErrorStr reason)
    | .ok (content, resolved) =>
        let extra := ascii "X-Cix-Sha256: " ++ resolved.digest ++ [carriageReturn, lineFeed]
        if headOnly then .bare (artifactContentType resolved.name) extra content.length
        else .blob (artifactContentType resolved.name) extra content

/-- The DELETE branch of `dispatch`. -/
def deleteArtifact (conf : Conf) (sys : Sys) (st : Store) (req : HttpRequest) (name : Bytes) :
    Store × Response :=
  if bearerOk req conf.pushToken = false then
    (st, .error 401 (ascii "push requires a bearer token"))
  else
    let withdrawn := storeUnpublish sys st name
    match withdrawn.result with
    | .ok () => (withdrawn.store, .plain 204)
    | .error reason =>
        (withdrawn.store, .error (if reason = .notFound then 404 else 400) (storeErrorStr reason))

def apiGc (sys : Sys) (st : Store) (dryRun : Bool) : Store × Response :=
  match storeGc sys st dryRun with
  | (swept, none) => (swept, .error 500 (ascii "garbage collection failed"))
  | (swept, some report) => (swept, .json (.gcReport dryRun report.removed report.freed))

def serveStatic (conf : Conf) (read : AssetRead) (reqPath : Bytes) (headOnly : Bool) : Response :=
  if [dot, dot] <:+: reqPath then .error 400 (ascii "bad path")
  else
    let asset := if reqPath = [slash] then ascii "/index.html" else reqPath
    let path := conf.webRoot ++ asset
    if pathMax ≤ path.length then .error 400 (ascii "bad path")
    else
      match conf.webFiles path with
      | none => .error 404 (ascii "no such endpoint")
      | some content =>
          if headOnly then .bare (contentTypeFor path) [] content.length
          else
            match read with
            | .noMemory => .error 500 (ascii "out of memory")
            | .short => .error 500 (ascii "short read")
            | .whole => .page (contentTypeFor path) content

end Response

namespace Routed

/-! ## Routing -/

/-- The checks of `begin_upload`. -/
def beginUpload (conf : Conf) (st : Store) (req : HttpRequest) (name : Bytes) : Routed :=
  if bearerOk req conf.pushToken = false then
    .respond (.error 401 (ascii "push requires a bearer token"))
  else if storeNameIsValid name = false then .respond (.error 400 (ascii "invalid artifact name"))
  else if req.contentLength = 0 then .respond (.error 411 (ascii "content-length required"))
  else if uploadMaxBytes < req.contentLength then .respond (.error 413 (ascii "upload too large"))
  else
    match declaredDigest req with
    | none => .respond (.error 400 (ascii "X-Cix-Sha256 header required, 64 lowercase hex"))
    | some digest =>
        if storeDigestIsValid digest = false then
          .respond (.error 400 (ascii "X-Cix-Sha256 header required, 64 lowercase hex"))
        else if storeNeedsSignature conf.policy name ∧ signatureFound st name = false then
          .respond (.error 409 (unsignedMessage name))
        else .upload name digest

/-- The endpoints under `/api/v1/`. -/
def dispatchApi (conf : Conf) (sys : Sys) (st : Store) (req : HttpRequest) (endpoint : Bytes) :
    Store × Routed :=
  let operator := bearerOk req conf.pushToken
  let isGet := decide (req.method = ascii "GET")
  let isPost := decide (req.method = ascii "POST")
  if isGet && endpoint == ascii "status" then (st, .respond (.json .document))
  else if isGet && endpoint == ascii "artifacts" then (st, .respond (.json .document))
  else if isGet && endpoint == ascii "log" then
    if operator then (st, .respond (.json .document))
    else (st, .respond (.error 401 (ascii "the activity log requires a bearer token")))
  else if isGet && endpoint == ascii "import-status" then
    if operator then (st, .respond (.json .document))
    else (st, .respond (.error 401 (ascii "import status requires a bearer token")))
  else if (isPost || isGet) && endpoint == ascii "gc" then
    -- A GET asks for the dry run, behind the same token.
    if operator then
      let (swept, response) := Response.apiGc sys st isGet
      (swept, .respond response)
    else (st, .respond (.error 401 (ascii "gc requires a bearer token")))
  else if isPost && endpoint == ascii "import" then
    if operator then (st, .importer)
    else (st, .respond (.error 401 (ascii "import requires a bearer token")))
  else (st, .respond (.error 404 (ascii "no such endpoint")))

/-- The requests on an artifact path. -/
def dispatchArtifact (conf : Conf) (sys : Sys) (st : Store) (req : HttpRequest) (name : Bytes) :
    Store × Routed :=
  if slash ∈ name then (st, .respond (.error 404 (ascii "no such artifact")))
  else if req.method = ascii "GET" ∨ req.method = ascii "HEAD" then
    (st, .respond
      (Response.serveArtifact conf st req name (decide (req.method = ascii "HEAD"))))
  else if req.method = ascii "PUT" then (st, beginUpload conf st req name)
  else if req.method = ascii "DELETE" then
    let (withdrawn, response) := Response.deleteArtifact conf sys st req name
    (withdrawn, .respond response)
  else (st, .respond (.error 405 (ascii "method not allowed")))

end Routed

/-- The choices of `dispatch`, and what they did to the store. -/
def route (conf : Conf) (a : CallResults) (st : Store) (req : HttpRequest) : Store × Routed :=
  match dispatchPath req with
  | none => (st, .respond (.error 400 (ascii "bad percent-encoding in path")))
  | some path =>
      if isArtifactPath path then Routed.dispatchArtifact conf a.sys st req (path.drop 1)
      else if req.method = ascii "GET" ∧ path = ascii "/MANIFEST.json" then
        (st, .respond (.json .document))
      else if path.take apiPrefix.length = apiPrefix then
        Routed.dispatchApi conf a.sys st req (path.drop apiPrefix.length)
      else if req.method = ascii "GET" ∨ req.method = ascii "HEAD" then
        (st, .respond
          (Response.serveStatic conf a.asset path (decide (req.method = ascii "HEAD"))))
      else (st, .respond (.error 404 (ascii "no such endpoint")))

/-! ## Beginning a response -/

namespace Record

/-- The assignments of `begin_response`. -/
def sending (cc : Record) (text : Bytes) (now : Int) : Record :=
  { cc with hdr := text, hdrOff := 0, state := .sendHeader, lastMs := now }

/-- A body to send from memory. -/
def buffered (cc : Record) (body : Bytes) : Record := { cc with outBuf := some body, outOff := 0 }

def headOnlySet (cc : Record) (headOnly : Bool) : Record := { cc with headOnly := headOnly }

/-- A blob to send. -/
def streaming (cc : Record) (content : Bytes) : Record :=
  { cc with headOnly := false, blob := some content, bodyOff := 0, bodyLen := content.length }

end Record

namespace Reactor

/-- `epoll_set`, whose result nothing looks at. -/
def epollSet (r : Reactor) (a : CallResults) (p : Ptr) (events : Interest) : Reactor :=
  if (r.interest p).isSome && a.modifies events then
    r.withInterest (Function.update r.interest p (some events))
  else r

/-- `epoll_add` when it succeeds. -/
def epollAdd (r : Reactor) (p : Ptr) (events : Interest) : Reactor :=
  r.withInterest (Function.update r.interest p (some events))

/-- A response was begun on a record. -/
def began (r : Reactor) (p : Ptr) : Reactor :=
  r.withLog { r.log with begun := Function.update r.log.begun p (r.log.begun p + 1) }

/-- `begin_response` with a header that fits. -/
def sendHeader (r : Reactor) (a : CallResults) (p : Ptr) (text : Bytes) : Reactor :=
  ((r.modify p fun cc => cc.sending text a.now).began p).epollSet a p .output

def beginResponse (r : Reactor) (a : CallResults) (p : Ptr) (status : Nat)
    (contentType extra : Bytes) (contentLength : Nat) : Reactor :=
  match httpFormatHeader status contentType contentLength extra with
  | none => r.connClose a.sys p
  | some text => r.sendHeader a p text

def respondBuffer (r : Reactor) (a : CallResults) (p : Ptr) (status : Nat)
    (contentType body : Bytes) : Reactor :=
  (r.modify p fun cc => cc.buffered body).beginResponse a p status contentType [] body.length

def respondError (r : Reactor) (a : CallResults) (p : Ptr) (status : Nat) (message : Bytes) :
    Reactor :=
  if a.mallocs then
    r.respondBuffer a p status (ascii "application/json") (errorBody message)
  else r.connClose a.sys p

def respondJson (r : Reactor) (a : CallResults) (p : Ptr) (status : Nat) (body : Bytes) : Reactor :=
  if a.mallocs then r.respondBuffer a p status (ascii "application/json") body
  else r.connClose a.sys p

def respond (r : Reactor) (a : CallResults) (p : Ptr) : Response → Reactor
  | .error status message => r.respondError a p status message
  | .json _ => r.respondJson a p 200 a.document
  | .page contentType content => r.respondBuffer a p 200 contentType content
  | .bare contentType extra contentLength =>
      (r.modify p fun cc => cc.headOnlySet true).beginResponse a p 200 contentType extra
        contentLength
  | .blob contentType extra content =>
      (r.modify p fun cc => cc.streaming content).beginResponse a p 200 contentType extra
        content.length
  | .plain status => r.beginResponse a p status (ascii "application/json") [] 0

end Reactor

/-! ## The choices of `dispatch` -/

/-- The reply a response puts on its connection. -/
def Response.reply : Response → Reply
  | .error status message => .error status message
  | .json body => .json body
  | .page contentType content => ⟨200, contentType, [], some content.length, .blob content⟩
  | .bare contentType extra contentLength =>
      ⟨200, contentType, extra, some contentLength, .empty⟩
  | .blob contentType extra content =>
      ⟨200, contentType, extra, some content.length, .blob content⟩
  | .plain status => .plain status

/-- A choice carried out on a connection of the push path. -/
def Routed.carriedOut (sys : Sys) (importRunning : Bool) (conn : Conn) (req : HttpRequest) :
    Store × Routed → Dispatched
  | (st, .respond response) => ⟨st, importRunning, conn.respond response.reply⟩
  | (st, .upload name digest) =>
      ⟨(stageUpload sys st conn req name digest).1, importRunning,
        (stageUpload sys st conn req name digest).2⟩
  | (st, .importer) =>
      ⟨st, (apiImportStart sys importRunning conn).1, (apiImportStart sys importRunning conn).2⟩

section Choices

variable {conf : Conf} {sys : Sys} {st : Store} {importRunning : Bool} {conn : Conn}
  {req : HttpRequest}

theorem serveArtifact_respond (name : Bytes) (headOnly : Bool) :
    serveArtifact conf st conn req name headOnly =
      conn.respond (Response.serveArtifact conf st req name headOnly).reply := by
  unfold serveArtifact Response.serveArtifact
  split
  next => rfl
  next =>
    cases storeOpen st name with
    | error error =>
        dsimp only
        split <;> rfl
    | ok found => cases headOnly <;> rfl

theorem serveStatic_respond (path : Bytes) (headOnly : Bool) :
    serveStatic conf conn path headOnly =
      conn.respond (Response.serveStatic conf .whole path headOnly).reply := by
  unfold serveStatic Response.serveStatic
  dsimp only
  split_ifs
  all_goals
    first
      | rfl
      | (cases conf.webFiles _ with
        | none => rfl
        | some content => simp_all [Response.reply])

theorem deleteArtifact_respond (name : Bytes) :
    deleteArtifact conf sys st conn req name =
      ((Response.deleteArtifact conf sys st req name).1,
        conn.respond (Response.deleteArtifact conf sys st req name).2.reply) := by
  unfold deleteArtifact Response.deleteArtifact
  split
  next => rfl
  next =>
    dsimp only
    cases (storeUnpublish sys st name).result <;> rfl

theorem apiGc_respond (dryRun : Bool) :
    apiGc sys st conn dryRun =
      ((Response.apiGc sys st dryRun).1,
        conn.respond (Response.apiGc sys st dryRun).2.reply) := by
  unfold apiGc Response.apiGc
  rcases storeGc sys st dryRun with ⟨swept, report⟩
  cases report <;> rfl

theorem beginUpload_carriedOut (name : Bytes) :
    (⟨(beginUpload conf sys st conn req name).1, importRunning,
        (beginUpload conf sys st conn req name).2⟩ : Dispatched) =
      Routed.carriedOut sys importRunning conn req (st, Routed.beginUpload conf st req name) := by
  unfold beginUpload Routed.beginUpload
  cases declaredDigest req with
  | none => split_ifs <;> rfl
  | some digest =>
      dsimp only
      split_ifs <;> rfl

theorem dispatchArtifact_carriedOut (name : Bytes) :
    dispatchArtifact conf sys st importRunning conn req name =
      Routed.carriedOut sys importRunning conn req
        (Routed.dispatchArtifact conf sys st req name) := by
  unfold dispatchArtifact Routed.dispatchArtifact
  split
  next => rfl
  next =>
    split
    next => rw [serveArtifact_respond]; rfl
    next =>
      split
      next => exact beginUpload_carriedOut name
      next =>
        split
        next => rw [deleteArtifact_respond]; rfl
        next => rfl

theorem dispatchApi_carriedOut (endpoint : Bytes) :
    dispatchApi conf sys st importRunning conn req endpoint =
      Routed.carriedOut sys importRunning conn req
        (Routed.dispatchApi conf sys st req endpoint) := by
  unfold dispatchApi Routed.dispatchApi
  dsimp only
  rw [apiGc_respond]
  split_ifs <;> rfl

/-- `route` makes the choices of `dispatch`, for an asset that is read whole. -/
theorem dispatch_routed {a : CallResults} (whole : a.asset = .whole) :
    dispatch conf a.sys st importRunning conn req =
      Routed.carriedOut a.sys importRunning conn req (route conf a st req) := by
  unfold dispatch route
  cases dispatchPath req with
  | none => rfl
  | some path =>
      dsimp only
      split_ifs
      next => exact dispatchArtifact_carriedOut _
      next => rfl
      next => exact dispatchApi_carriedOut _
      next =>
        rw [serveStatic_respond, whole]
        rfl
      next => rfl

end Choices

end CixCache
