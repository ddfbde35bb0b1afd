import CixCache.Lib.Traced
import CixCache.Server.Reactor

/-!
Contract: the server with a record of what its handlers do.

Owns: `Handlers`, the handlers with what is recorded of them; the one routing of requests and
events to such handlers; that without the record it is `dispatch` and the server's step; and
what it can record.

Does not own: what is recorded.
-/

namespace CixCache

open CixCache.Lib

/-- The handlers of the server with what is recorded of each, and the value each has without
the record. Nothing is recorded of a handler that is not given. -/
structure Handlers (ι : Type) where
  serveArtifact : Conf → Store → Conn → HttpRequest → Bytes → Bool → Traced ι Conn :=
    fun conf st conn req name headOnly =>
      pure (CixCache.serveArtifact conf st conn req name headOnly)
  beginUpload : Conf → Sys → Store → Conn → HttpRequest → Bytes → Traced ι (Store × Conn) :=
    fun conf sys st conn req name => pure (CixCache.beginUpload conf sys st conn req name)
  deleteArtifact : Conf → Sys → Store → Conn → HttpRequest → Bytes → Traced ι (Store × Conn) :=
    fun conf sys st conn req name => pure (CixCache.deleteArtifact conf sys st conn req name)
  apiStatus : Conf → Conn → HttpRequest → Traced ι Conn :=
    fun _ conn _ => pure (conn.respond (.json .document))
  apiLog : Conn → Traced ι Conn := fun conn => pure (conn.respond (.json .document))
  apiImportStatus : Conn → Traced ι Conn := fun conn => pure (conn.respond (.json .document))
  apiGc : Sys → Store → Conn → Bool → Traced ι (Store × Conn) :=
    fun sys st conn dryRun => pure (CixCache.apiGc sys st conn dryRun)
  apiImportStart : Sys → Bool → Conn → Traced ι (Bool × Conn) :=
    fun sys importRunning conn => pure (CixCache.apiImportStart sys importRunning conn)
  serveStatic : Conf → Conn → Bytes → Bool → Traced ι Conn :=
    fun conf conn path headOnly => pure (CixCache.serveStatic conf conn path headOnly)
  recvBody : Sys → Store → Conn → Bytes → Traced ι (Store × Conn) :=
    fun sys st conn bytes => pure (CixCache.recvBody sys st conn bytes)
  finishUpload : Sha256sum → Sys → Store → Conn → Traced ι (Store × Conn) :=
    fun sha sys st conn => pure (CixCache.finishUpload sha sys st conn)
  connClose : Sys → Store → Conn → Traced ι Store :=
    fun sys st conn => pure (CixCache.connClose sys st conn)
  serveArtifact_value : ∀ conf st conn req name headOnly,
    (serveArtifact conf st conn req name headOnly).value =
      CixCache.serveArtifact conf st conn req name headOnly := by intros; rfl
  beginUpload_value : ∀ conf sys st conn req name,
    (beginUpload conf sys st conn req name).value =
      CixCache.beginUpload conf sys st conn req name := by intros; rfl
  deleteArtifact_value : ∀ conf sys st conn req name,
    (deleteArtifact conf sys st conn req name).value =
      CixCache.deleteArtifact conf sys st conn req name := by intros; rfl
  apiStatus_value : ∀ conf conn req,
    (apiStatus conf conn req).value = conn.respond (.json .document) := by intros; rfl
  apiLog_value : ∀ conn, (apiLog conn).value = conn.respond (.json .document) := by intros; rfl
  apiImportStatus_value : ∀ conn,
    (apiImportStatus conn).value = conn.respond (.json .document) := by intros; rfl
  apiGc_value : ∀ sys st conn dryRun,
    (apiGc sys st conn dryRun).value = CixCache.apiGc sys st conn dryRun := by intros; rfl
  apiImportStart_value : ∀ sys importRunning conn,
    (apiImportStart sys importRunning conn).value =
      CixCache.apiImportStart sys importRunning conn := by intros; rfl
  serveStatic_value : ∀ conf conn path headOnly,
    (serveStatic conf conn path headOnly).value =
      CixCache.serveStatic conf conn path headOnly := by intros; rfl
  recvBody_value : ∀ sys st conn bytes,
    (recvBody sys st conn bytes).value = CixCache.recvBody sys st conn bytes := by intros; rfl
  finishUpload_value : ∀ sha sys st conn,
    (finishUpload sha sys st conn).value = CixCache.finishUpload sha sys st conn := by intros; rfl
  connClose_value : ∀ sys st conn,
    (connClose sys st conn).value = CixCache.connClose sys st conn := by intros; rfl

namespace Handlers

variable {ι : Type} (handlers : Handlers ι)

/-! ## Routing -/

def dispatchApi (conf : Conf) (sys : Sys) (st : Store) (importRunning : Bool) (conn : Conn)
    (req : HttpRequest) (endpoint : Bytes) : Traced ι Dispatched :=
  let answer := fun reply => (pure ⟨st, importRunning, conn.respond reply⟩ : Traced ι Dispatched)
  let operator := bearerOk req conf.pushToken
  let isGet := decide (req.method = ascii "GET")
  let isPost := decide (req.method = ascii "POST")
  if isGet && endpoint == ascii "status" then do
    let answered ← handlers.apiStatus conf conn req
    pure ⟨st, importRunning, answered⟩
  else if isGet && endpoint == ascii "artifacts" then answer (.json .document)
  else if isGet && endpoint == ascii "log" then
    if operator then do
      let answered ← handlers.apiLog conn
      pure ⟨st, importRunning, answered⟩
    else answer (.error 401 (ascii "the activity log requires a bearer token"))
  else if isGet && endpoint == ascii "import-status" then
    if operator then do
      let answered ← handlers.apiImportStatus conn
      pure ⟨st, importRunning, answered⟩
    else answer (.error 401 (ascii "import status requires a bearer token"))
  else if (isPost || isGet) && endpoint == ascii "gc" then
    if operator then do
      let collected ← handlers.apiGc sys st conn isGet
      pure ⟨collected.1, importRunning, collected.2⟩
    else answer (.error 401 (ascii "gc requires a bearer token"))
  else if isPost && endpoint == ascii "import" then
    if operator then do
      let started ← handlers.apiImportStart sys importRunning conn
      pure ⟨st, started.1, started.2⟩
    else answer (.error 401 (ascii "import requires a bearer token"))
  else answer (.error 404 (ascii "no such endpoint"))

def dispatchArtifact (conf : Conf) (sys : Sys) (st : Store) (importRunning : Bool) (conn : Conn)
    (req : HttpRequest) (name : Bytes) : Traced ι Dispatched :=
  if slash ∈ name then
    pure ⟨st, importRunning, conn.respond (.error 404 (ascii "no such artifact"))⟩
  else if req.method = ascii "GET" ∨ req.method = ascii "HEAD" then do
    let answered ←
      handlers.serveArtifact conf st conn req name (decide (req.method = ascii "HEAD"))
    pure ⟨st, importRunning, answered⟩
  else if req.method = ascii "PUT" then do
    let begun ← handlers.beginUpload conf sys st conn req name
    pure ⟨begun.1, importRunning, begun.2⟩
  else if req.method = ascii "DELETE" then do
    let withdrawn ← handlers.deleteArtifact conf sys st conn req name
    pure ⟨withdrawn.1, importRunning, withdrawn.2⟩
  else pure ⟨st, importRunning, conn.respond (.error 405 (ascii "method not allowed"))⟩

def dispatch (conf : Conf) (sys : Sys) (st : Store) (importRunning : Bool) (conn : Conn)
    (req : HttpRequest) : Traced ι Dispatched :=
  match dispatchPath req with
  | none =>
      pure ⟨st, importRunning, conn.respond (.error 400 (ascii "bad percent-encoding in path"))⟩
  | some path =>
      if isArtifactPath path then
        handlers.dispatchArtifact conf sys st importRunning conn req (path.drop 1)
      else if req.method = ascii "GET" ∧ path = ascii "/MANIFEST.json" then
        pure ⟨st, importRunning, conn.respond (.json .document)⟩
      else if path.take apiPrefix.length = apiPrefix then
        handlers.dispatchApi conf sys st importRunning conn req (path.drop apiPrefix.length)
      else if req.method = ascii "GET" ∨ req.method = ascii "HEAD" then do
        let answered ← handlers.serveStatic conf conn path (decide (req.method = ascii "HEAD"))
        pure ⟨st, importRunning, answered⟩
      else pure ⟨st, importRunning, conn.respond (.error 404 (ascii "no such endpoint"))⟩

def connStep (conf : Conf) (sha : Sha256sum) (sys : Sys) (st : Store) (importRunning : Bool)
    (conn : Conn) (input : Input) : Traced ι Dispatched :=
  match conn.state, input with
  | .readRequest, .request req => handlers.dispatch conf sys st importRunning conn req
  | .recvBody, .chunk bytes => do
      let received ← handlers.recvBody sys st conn bytes
      pure ⟨received.1, importRunning, received.2⟩
  | .hashing, .hashed =>
      if conn.child = .watched then do
        let done ← handlers.finishUpload sha sys st conn
        pure ⟨done.1, importRunning, done.2⟩
      else pure ⟨st, importRunning, conn⟩
  | _, _ => pure (CixCache.connStep conf sha sys st importRunning conn input)

def serverStep (conf : Conf) (sha : Sha256sum) (server : Server) (event : Sys × ServerEvent) :
    Traced ι Server :=
  match event.2 with
  | .input id input =>
      match server.conns id with
      | none => pure server
      | some conn => do
          let out ←
            handlers.connStep conf sha event.1 server.store server.importRunning conn input
          pure ⟨out.store, Function.update server.conns id (some out.conn), out.importRunning⟩
  | .close id =>
      match server.conns id with
      | none => pure server
      | some conn => do
          let store ← handlers.connClose event.1 server.store conn
          pure { server with store := store, conns := Function.update server.conns id none }
  | _ => pure (CixCache.serverStep conf sha server event)

/-! ## Without the record -/

section Values

variable {handlers} {conf : Conf} {sha : Sha256sum} {sys : Sys} {st : Store}
  {importRunning : Bool} {conn : Conn} {req : HttpRequest}

theorem dispatchApi_value (endpoint : Bytes) :
    (handlers.dispatchApi conf sys st importRunning conn req endpoint).value =
      CixCache.dispatchApi conf sys st importRunning conn req endpoint := by
  unfold dispatchApi CixCache.dispatchApi
  dsimp only
  split
  next => rw [Traced.value_bind, handlers.apiStatus_value]; rfl
  split
  next => rfl
  split
  next =>
    split
    next => rw [Traced.value_bind, handlers.apiLog_value]; rfl
    next => rfl
  split
  next =>
    split
    next => rw [Traced.value_bind, handlers.apiImportStatus_value]; rfl
    next => rfl
  split
  next =>
    split
    next => rw [Traced.value_bind, handlers.apiGc_value]; rfl
    next => rfl
  split
  next =>
    split
    next => rw [Traced.value_bind, handlers.apiImportStart_value]; rfl
    next => rfl
  next => rfl

theorem dispatchArtifact_value (name : Bytes) :
    (handlers.dispatchArtifact conf sys st importRunning conn req name).value =
      CixCache.dispatchArtifact conf sys st importRunning conn req name := by
  unfold dispatchArtifact CixCache.dispatchArtifact
  split
  next => rfl
  split
  next => rw [Traced.value_bind, handlers.serveArtifact_value]; rfl
  split
  next => rw [Traced.value_bind, handlers.beginUpload_value]; rfl
  split
  next => rw [Traced.value_bind, handlers.deleteArtifact_value]; rfl
  next => rfl

theorem dispatch_value :
    (handlers.dispatch conf sys st importRunning conn req).value =
      CixCache.dispatch conf sys st importRunning conn req := by
  unfold dispatch CixCache.dispatch
  cases dispatchPath req with
  | none => rfl
  | some path =>
      dsimp only
      split
      next => exact dispatchArtifact_value _
      split
      next => rfl
      split
      next => exact dispatchApi_value _
      split
      next => rw [Traced.value_bind, handlers.serveStatic_value]; rfl
      next => rfl

theorem connStep_value (input : Input) :
    (handlers.connStep conf sha sys st importRunning conn input).value =
      CixCache.connStep conf sha sys st importRunning conn input := by
  unfold connStep
  split
  next req waiting =>
    rw [dispatch_value, CixCache.connStep]
    exact waiting
  next bytes receiving =>
    rw [Traced.value_bind, handlers.recvBody_value, CixCache.connStep]
    · rfl
    · exact receiving
  next hashing =>
    rw [CixCache.connStep]
    · split
      next => rw [Traced.value_bind, handlers.finishUpload_value]; rfl
      next => rfl
    · exact hashing
  next => rfl

/-- Without the record a step is the server's. -/
theorem serverStep_value (server : Server) (event : Sys × ServerEvent) :
    (handlers.serverStep conf sha server event).value = CixCache.serverStep conf sha server event := by
  unfold serverStep
  split
  next id input named =>
    rw [CixCache.serverStep, named]
    dsimp only
    cases server.conns id with
    | none => rfl
    | some conn =>
        dsimp only
        rw [Traced.value_bind, connStep_value]
        rfl
  next id named =>
    rw [CixCache.serverStep, named]
    dsimp only
    cases server.conns id with
    | none => rfl
    | some conn =>
        dsimp only
        rw [Traced.value_bind, handlers.connClose_value]
        rfl
  next => rfl

end Values

/-! ## What is recorded -/

section Recorded

open Traced

variable {handlers} {allowed : ι → Prop} {conf : Conf} {sha : Sha256sum} {sys : Sys} {st : Store}
  {importRunning : Bool} {conn : Conn} {req : HttpRequest}

theorem dispatchArtifact_only
    (serves : ∀ name headOnly, Only allowed (handlers.serveArtifact conf st conn req name headOnly))
    (begins : ∀ name, Only allowed (handlers.beginUpload conf sys st conn req name))
    (deletes : ∀ name, Only allowed (handlers.deleteArtifact conf sys st conn req name))
    (name : Bytes) :
    Only allowed (handlers.dispatchArtifact conf sys st importRunning conn req name) := by
  unfold dispatchArtifact
  split
  next => exact only_pure _
  split
  next => exact (serves _ _).bind (only_pure _)
  split
  next => exact (begins _).bind (only_pure _)
  split
  next => exact (deletes _).bind (only_pure _)
  next => exact only_pure _

/-- What the handlers under `/api/v1/` record, those behind the push token with it. -/
structure ApiOnly (handlers : Handlers ι) (allowed : ι → Prop) (conf : Conf) (sys : Sys)
    (st : Store) (importRunning : Bool) (conn : Conn) (req : HttpRequest) : Prop where
  apiStatus : Only allowed (handlers.apiStatus conf conn req)
  apiLog : bearerOk req conf.pushToken = true → Only allowed (handlers.apiLog conn)
  apiImportStatus : bearerOk req conf.pushToken = true →
    Only allowed (handlers.apiImportStatus conn)
  apiGc : bearerOk req conf.pushToken = true → ∀ dryRun,
    Only allowed (handlers.apiGc sys st conn dryRun)
  apiImportStart : bearerOk req conf.pushToken = true →
    Only allowed (handlers.apiImportStart sys importRunning conn)

theorem dispatchApi_only (api : ApiOnly handlers allowed conf sys st importRunning conn req)
    (endpoint : Bytes) :
    Only allowed (handlers.dispatchApi conf sys st importRunning conn req endpoint) := by
  unfold dispatchApi
  dsimp only
  split
  next => exact api.apiStatus.bind (only_pure _)
  split
  next => exact only_pure _
  split
  next =>
    split
    next operator => exact (api.apiLog operator).bind (only_pure _)
    next => exact only_pure _
  split
  next =>
    split
    next operator => exact (api.apiImportStatus operator).bind (only_pure _)
    next => exact only_pure _
  split
  next =>
    split
    next operator => exact (api.apiGc operator _).bind (only_pure _)
    next => exact only_pure _
  split
  next =>
    split
    next operator => exact (api.apiImportStart operator).bind (only_pure _)
    next => exact only_pure _
  next => exact only_pure _

theorem dispatch_only
    (artifact : ∀ name,
      Only allowed (handlers.dispatchArtifact conf sys st importRunning conn req name))
    (api : ApiOnly handlers allowed conf sys st importRunning conn req)
    (static : ∀ path headOnly, Only allowed (handlers.serveStatic conf conn path headOnly)) :
    Only allowed (handlers.dispatch conf sys st importRunning conn req) := by
  unfold dispatch
  split
  next => exact only_pure _
  next path _ =>
    split
    next => exact artifact _
    split
    next => exact only_pure _
    split
    next => exact dispatchApi_only api _
    split
    next => exact (static _ _).bind (only_pure _)
    next => exact only_pure _

theorem connStep_only {input : Input}
    (request : ∀ req, input = .request req →
      Only allowed (handlers.dispatch conf sys st importRunning conn req))
    (receives : ∀ bytes, Only allowed (handlers.recvBody sys st conn bytes))
    (finishes : Only allowed (handlers.finishUpload sha sys st conn)) :
    Only allowed (handlers.connStep conf sha sys st importRunning conn input) := by
  unfold connStep
  split
  next req _ => exact request req rfl
  next bytes _ => exact (receives bytes).bind (only_pure _)
  next =>
    split
    next => exact finishes.bind (only_pure _)
    next => exact only_pure _
  next => exact only_pure _

theorem serverStep_only {server : Server} {event : Sys × ServerEvent}
    (inputs : ∀ id input conn, event.2 = .input id input → server.conns id = some conn →
      Only allowed
        (handlers.connStep conf sha event.1 server.store server.importRunning conn input))
    (closes : ∀ id conn, server.conns id = some conn →
      Only allowed (handlers.connClose event.1 server.store conn)) :
    Only allowed (handlers.serverStep conf sha server event) := by
  unfold serverStep
  split
  next id input woken =>
    split
    next => exact only_pure _
    next conn present => exact (inputs id input conn woken present).bind (only_pure _)
  next id _ =>
    split
    next => exact only_pure _
    next conn present => exact (closes id conn present).bind (only_pure _)
  next => exact only_pure _

end Recorded

end Handlers

end CixCache
