import CixCache.Server.Upload
import CixCache.Store.Collect

/-!
Contract: the routing of a parsed request and the requests that one step answers.

Owns: `storeOpen`, the handlers of GET, HEAD and DELETE on artifacts, of the
collector, of the start of an import and of static assets, and `dispatch`.

Does not own: what a PUT does after its headers; the JSON documents of the
operator, whose bodies are `ReplyBody.document`.
-/

namespace CixCache

open CixCache.Lib

/-! ## Functions of the source -/

/-- Following a path ends at a name that is not there. -/
def noEntry (files : Files) : Nat → Path → Bool
  | 0, _ => false
  | hops + 1, path =>
      match files path with
      | none => true
      | some (.regular _) => false
      | some (.symlink target) =>
          match linkPath target with
          | some next => noEntry files hops next
          | none => true

/-- The opened blob of a name and the entry it was found under. -/
def storeOpen (st : Store) (name : Bytes) : Except StoreError (Bytes × Resolved) :=
  match storeResolveAs st name with
  | .error error => .error error
  | .ok resolved =>
      match blobPath st.root resolved.digest with
      | none => .error .io
      | some path =>
          match stat st.files path with
          | none => .error (if noEntry st.files 41 path then .notFound else .io)
          | some content => .ok (content, resolved)

def artifactContentType (name : Bytes) : Bytes :=
  match storeSuffixOf name with
  | none => ascii "application/octet-stream"
  | some ext =>
      if storeIsSignature name then ascii "text/plain; charset=utf-8"
      else if ext = ascii ".tar.gz" then ascii "application/gzip"
      else if ext = ascii ".iso" then ascii "application/x-iso9660-image"
      else ascii "application/octet-stream"

def serveArtifact (conf : Conf) (st : Store) (conn : Conn) (req : HttpRequest) (name : Bytes)
    (headOnly : Bool) : Conn :=
  if bearerOk req conf.pullToken = false then
    conn.respond (.error 401 (ascii "authentication required"))
  else
    match storeOpen st name with
    | .error error =>
        -- Ambiguity is not a miss.
        if error = .ambiguous then conn.respond (.error 409 (storeErrorStr error))
        else
          conn.respond (.error (if error = .invalidName then 400 else 404) (storeErrorStr error))
    | .ok (content, resolved) =>
        conn.respond
          { status := 200
            contentType := artifactContentType resolved.name
            extra := ascii "X-Cix-Sha256: " ++ resolved.digest ++ [carriageReturn, lineFeed]
            contentLength := some content.length
            body := if headOnly then .empty else .blob content }

/-- The DELETE branch of `dispatch`. -/
def deleteArtifact (conf : Conf) (sys : Sys) (st : Store) (conn : Conn) (req : HttpRequest)
    (name : Bytes) : Store × Conn :=
  if bearerOk req conf.pushToken = false then
    (st, conn.respond (.error 401 (ascii "push requires a bearer token")))
  else
    let withdrawn := storeUnpublish sys st name
    match withdrawn.result with
    | .ok () => (withdrawn.store, conn.respond (.plain 204))
    | .error error =>
        (withdrawn.store,
          conn.respond (.error (if error = .notFound then 404 else 400) (storeErrorStr error)))

/-- `respond_json` with a status 200. -/
def Reply.json (body : ReplyBody) : Reply := ⟨200, ascii "application/json", [], none, body⟩

def apiGc (sys : Sys) (st : Store) (conn : Conn) (dryRun : Bool) : Store × Conn :=
  match storeGc sys st dryRun with
  | (swept, none) => (swept, conn.respond (.error 500 (ascii "garbage collection failed")))
  | (swept, some report) =>
      (swept, conn.respond (.json (.gcReport dryRun report.removed report.freed)))

/-- Whether an import runs as far as the server knows, and the answer. -/
def apiImportStart (sys : Sys) (importRunning : Bool) (conn : Conn) : Bool × Conn :=
  if importRunning then
    (importRunning, conn.respond (.error 409 (ascii "an import is already running")))
  else if sys.allows .fork = false then
    (importRunning, conn.respond (.error 500 (ascii "cannot fork importer")))
  else if sys.allows .pidfdOpen = false then
    (importRunning, conn.respond (.error 500 (ascii "cannot watch importer")))
  else if sys.allows .connNew = false then
    (importRunning, conn.respond (.error 500 (ascii "out of memory")))
  else (true, conn.respond (.plain 202))

/-- The text from its last dot on. -/
def fromLastDot (path : Bytes) : Option Bytes :=
  if dot ∈ path then some (dot :: lastComponent dot path) else none

def contentTypeFor (path : Bytes) : Bytes :=
  match fromLastDot path with
  | none => ascii "application/octet-stream"
  | some ext =>
      if ext = ascii ".html" then ascii "text/html; charset=utf-8"
      else if ext = ascii ".js" then ascii "application/javascript"
      else if ext = ascii ".css" then ascii "text/css"
      else if ext = ascii ".svg" then ascii "image/svg+xml"
      else if ext = ascii ".woff2" then ascii "font/woff2"
      else if ext = ascii ".json" then ascii "application/json"
      else ascii "application/octet-stream"

def serveStatic (conf : Conf) (conn : Conn) (reqPath : Bytes) (headOnly : Bool) : Conn :=
  if [dot, dot] <:+: reqPath then conn.respond (.error 400 (ascii "bad path"))
  else
    let asset := if reqPath = [slash] then ascii "/index.html" else reqPath
    let path := conf.webRoot ++ asset
    if pathMax ≤ path.length then conn.respond (.error 400 (ascii "bad path"))
    else
      match conf.webFiles path with
      | none => conn.respond (.error 404 (ascii "no such endpoint"))
      | some content =>
          conn.respond
            { status := 200
              contentType := contentTypeFor path
              extra := []
              contentLength := some content.length
              body := if headOnly then .empty else .blob content }

def isArtifactPath (path : Bytes) : Bool := (storeSuffixOf path).isSome

/-- What a dispatched request leaves. -/
structure Dispatched where
  store : Store
  importRunning : Bool
  conn : Conn

/-- The endpoints under `/api/v1/`. -/
def dispatchApi (conf : Conf) (sys : Sys) (st : Store) (importRunning : Bool) (conn : Conn)
    (req : HttpRequest) (endpoint : Bytes) : Dispatched :=
  let answer := fun reply => (⟨st, importRunning, conn.respond reply⟩ : Dispatched)
  let operator := bearerOk req conf.pushToken
  let isGet := decide (req.method = ascii "GET")
  let isPost := decide (req.method = ascii "POST")
  if isGet && endpoint == ascii "status" then answer (.json .document)
  else if isGet && endpoint == ascii "artifacts" then answer (.json .document)
  else if isGet && endpoint == ascii "log" then
    if operator then answer (.json .document)
    else answer (.error 401 (ascii "the activity log requires a bearer token"))
  else if isGet && endpoint == ascii "import-status" then
    if operator then answer (.json .document)
    else answer (.error 401 (ascii "import status requires a bearer token"))
  else if (isPost || isGet) && endpoint == ascii "gc" then
    -- A GET asks for the dry run, behind the same token.
    if operator then
      let (swept, answered) := apiGc sys st conn isGet
      ⟨swept, importRunning, answered⟩
    else answer (.error 401 (ascii "gc requires a bearer token"))
  else if isPost && endpoint == ascii "import" then
    if operator then
      let (running, answered) := apiImportStart sys importRunning conn
      ⟨st, running, answered⟩
    else answer (.error 401 (ascii "import requires a bearer token"))
  else answer (.error 404 (ascii "no such endpoint"))

/-- The requests on an artifact path. -/
def dispatchArtifact (conf : Conf) (sys : Sys) (st : Store) (importRunning : Bool) (conn : Conn)
    (req : HttpRequest) (name : Bytes) : Dispatched :=
  if slash ∈ name then
    ⟨st, importRunning, conn.respond (.error 404 (ascii "no such artifact"))⟩
  else if req.method = ascii "GET" ∨ req.method = ascii "HEAD" then
    ⟨st, importRunning,
      serveArtifact conf st conn req name (decide (req.method = ascii "HEAD"))⟩
  else if req.method = ascii "PUT" then
    let (staged, begun) := beginUpload conf sys st conn req name
    ⟨staged, importRunning, begun⟩
  else if req.method = ascii "DELETE" then
    let (withdrawn, answered) := deleteArtifact conf sys st conn req name
    ⟨withdrawn, importRunning, answered⟩
  else ⟨st, importRunning, conn.respond (.error 405 (ascii "method not allowed"))⟩

def apiPrefix : Bytes := ascii "/api/v1/"

def dispatch (conf : Conf) (sys : Sys) (st : Store) (importRunning : Bool) (conn : Conn)
    (req : HttpRequest) : Dispatched :=
  match dispatchPath req with
  | none =>
      ⟨st, importRunning, conn.respond (.error 400 (ascii "bad percent-encoding in path"))⟩
  | some path =>
      if isArtifactPath path then
        dispatchArtifact conf sys st importRunning conn req (path.drop 1)
      else if req.method = ascii "GET" ∧ path = ascii "/MANIFEST.json" then
        ⟨st, importRunning, conn.respond (.json .document)⟩
      else if path.take apiPrefix.length = apiPrefix then
        dispatchApi conf sys st importRunning conn req (path.drop apiPrefix.length)
      else if req.method = ascii "GET" ∨ req.method = ascii "HEAD" then
        ⟨st, importRunning,
          serveStatic conf conn path (decide (req.method = ascii "HEAD"))⟩
      else ⟨st, importRunning, conn.respond (.error 404 (ascii "no such endpoint"))⟩

/-! ## What a request can do -/

/-- A connection that was answered, with anything but 201. -/
def Answered (before after : Conn) : Prop :=
  ∃ reply : Reply, reply.status ≠ 201 ∧ after = before.respond reply

theorem answered_error {status : Nat} (other : status ≠ 201) (conn : Conn) (message : Bytes) :
    Answered conn (conn.respond (.error status message)) :=
  ⟨_, other, rfl⟩

theorem answered_json (conn : Conn) (body : ReplyBody) :
    Answered conn (conn.respond (.json body)) :=
  ⟨_, by simp [Reply.json], rfl⟩

section Routing

variable {conf : Conf} {sys : Sys} {st : Store} {importRunning : Bool} {conn : Conn}
  {req : HttpRequest}

theorem serveArtifact_answered (conf : Conf) (st : Store) (conn : Conn) (req : HttpRequest)
    (name : Bytes) (headOnly : Bool) :
    Answered conn (serveArtifact conf st conn req name headOnly) := by
  unfold serveArtifact
  split
  next => exact answered_error (by simp) conn _
  next =>
    split
    next =>
      split
      next => exact answered_error (by simp) conn _
      next => exact answered_error (by split <;> simp) conn _
    next => exact ⟨_, by simp, rfl⟩

theorem serveStatic_answered (conf : Conf) (conn : Conn) (path : Bytes) (headOnly : Bool) :
    Answered conn (serveStatic conf conn path headOnly) := by
  unfold serveStatic
  split
  next => exact answered_error (by simp) conn _
  next =>
    extract_lets asset opened
    split
    next => exact answered_error (by simp) conn _
    next =>
      split
      next => exact answered_error (by simp) conn _
      next => exact ⟨_, by simp, rfl⟩

theorem deleteArtifact_store (conf : Conf) (sys : Sys) (st : Store) (conn : Conn)
    (req : HttpRequest) (name : Bytes) :
    (deleteArtifact conf sys st conn req name).1 = st ∨
      (deleteArtifact conf sys st conn req name).1 = (storeUnpublish sys st name).store := by
  unfold deleteArtifact
  split
  next => exact Or.inl rfl
  next =>
    dsimp only
    split
    next => exact Or.inr rfl
    next => exact Or.inr rfl

theorem deleteArtifact_answered (conf : Conf) (sys : Sys) (st : Store) (conn : Conn)
    (req : HttpRequest) (name : Bytes) :
    Answered conn (deleteArtifact conf sys st conn req name).2 := by
  unfold deleteArtifact
  split
  next => exact answered_error (by simp) conn _
  next =>
    dsimp only
    split
    next => exact ⟨.plain 204, by simp [Reply.plain], rfl⟩
    next => exact answered_error (by split <;> simp) conn _

theorem apiGc_answered (sys : Sys) (st : Store) (conn : Conn) (dryRun : Bool) :
    (apiGc sys st conn dryRun).1 = (storeGc sys st dryRun).1 ∧
      Answered conn (apiGc sys st conn dryRun).2 := by
  unfold apiGc
  split
  next swept split => exact ⟨by rw [split], answered_error (by simp) conn _⟩
  next swept report split => exact ⟨by rw [split], answered_json conn _⟩

theorem apiImportStart_answered (sys : Sys) (importRunning : Bool) (conn : Conn) :
    Answered conn (apiImportStart sys importRunning conn).2 := by
  unfold apiImportStart
  split
  next => exact answered_error (by simp) conn _
  split
  next => exact answered_error (by simp) conn _
  split
  next => exact answered_error (by simp) conn _
  split
  next => exact answered_error (by simp) conn _
  next => exact ⟨.plain 202, by simp [Reply.plain], rfl⟩

/-- What a dispatched request does to the store: nothing, or what the handler
of a PUT, a DELETE or the collector does. -/
inductive DispatchOutcome (conf : Conf) (sys : Sys) (st : Store) (conn : Conn)
    (req : HttpRequest) (out : Dispatched) : Prop
  | answered (store : out.store = st) (conn : Answered conn out.conn)
  | uploaded (path : Bytes) (named : dispatchPath req = some path)
      (method : req.method = ascii "PUT")
      (store : out.store = (beginUpload conf sys st conn req (path.drop 1)).1)
      (begun : out.conn = (beginUpload conf sys st conn req (path.drop 1)).2)
  | withdrawn (path : Bytes) (named : dispatchPath req = some path)
      (method : req.method = ascii "DELETE")
      (store : out.store = (storeUnpublish sys st (path.drop 1)).store)
      (conn : Answered conn out.conn)
  | collected (dryRun : Bool) (asked : req.method = ascii "POST" ∨ req.method = ascii "GET")
      (store : out.store = (storeGc sys st dryRun).1)
      (conn : Answered conn out.conn)

theorem dispatchArtifact_outcome {path : Bytes} (named : dispatchPath req = some path) :
    DispatchOutcome conf sys st conn req
      (dispatchArtifact conf sys st importRunning conn req (path.drop 1)) := by
  unfold dispatchArtifact
  split
  next => exact .answered rfl (answered_error (by simp) conn _)
  split
  next => exact .answered rfl (serveArtifact_answered conf st conn req _ _)
  split
  next method => exact .uploaded path named method rfl rfl
  split
  next method =>
    rcases deleteArtifact_store conf sys st conn req (path.drop 1) with same | withdrawn
    · exact .answered same (deleteArtifact_answered conf sys st conn req _)
    · exact .withdrawn path named method withdrawn (deleteArtifact_answered conf sys st conn req _)
  next => exact .answered rfl (answered_error (by simp) conn _)

theorem dispatchApi_outcome (conf : Conf) (sys : Sys) (st : Store) (importRunning : Bool)
    (conn : Conn) (req : HttpRequest) (endpoint : Bytes) :
    DispatchOutcome conf sys st conn req
      (dispatchApi conf sys st importRunning conn req endpoint) := by
  unfold dispatchApi
  dsimp only
  split
  next => exact .answered rfl (answered_json conn _)
  split
  next => exact .answered rfl (answered_json conn _)
  split
  next =>
    split
    next => exact .answered rfl (answered_json conn _)
    next => exact .answered rfl (answered_error (by simp) conn _)
  split
  next =>
    split
    next => exact .answered rfl (answered_json conn _)
    next => exact .answered rfl (answered_error (by simp) conn _)
  split
  next =>
    split
    next =>
      obtain ⟨store, answered⟩ := apiGc_answered sys st conn (decide (req.method = ascii "GET"))
      exact .collected _ (by simp_all) store answered
    next => exact .answered rfl (answered_error (by simp) conn _)
  split
  next =>
    split
    next => exact .answered rfl (apiImportStart_answered sys importRunning conn)
    next => exact .answered rfl (answered_error (by simp) conn _)
  next => exact .answered rfl (answered_error (by simp) conn _)

theorem dispatch_outcome (conf : Conf) (sys : Sys) (st : Store) (importRunning : Bool)
    (conn : Conn) (req : HttpRequest) :
    DispatchOutcome conf sys st conn req (dispatch conf sys st importRunning conn req) := by
  unfold dispatch
  split
  next => exact .answered rfl (answered_error (by simp) conn _)
  next path named =>
    split
    next => exact dispatchArtifact_outcome named
    split
    next => exact .answered rfl (answered_json conn _)
    split
    next => exact dispatchApi_outcome conf sys st importRunning conn req _
    split
    next => exact .answered rfl (serveStatic_answered conf conn path _)
    next => exact .answered rfl (answered_error (by simp) conn _)

end Routing

end CixCache
