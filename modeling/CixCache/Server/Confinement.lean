import CixCache.Server.Handlers
import CixCache.Store.Traced

/-!
Contract: the paths that artifact requests touch.

Owns: the artifact operations of the server with the calls they make, from the
request to the end of its connection; the text of a path as the kernel gets it; and
that every such text stays inside the store.

The calls of other endpoints are not recorded: listing, collecting, importing and
the web root are no artifact operations.

Does not own: what the store's own operations call (`Store.Traced`).
-/

namespace CixCache

open CixCache.Lib

/-! ## Functions of the source -/

def storeOpenCalls (st : Store) (name : Bytes) : Calls (Except StoreError (Bytes × Resolved)) := do
  match ← storeResolveAsCalls st name with
  | .error error => pure (.error error)
  | .ok resolved =>
      match blobPath st.root resolved.digest with
      | none => pure (.error .io)
      | some path =>
          .perform (.open path)
            (match stat st.files path with
            | none => .error (if noEntry st.files 41 path then .notFound else .io)
            | some content => .ok (content, resolved))

def serveArtifactCalls (conf : Conf) (st : Store) (conn : Conn) (req : HttpRequest) (name : Bytes)
    (headOnly : Bool) : Calls Conn :=
  if bearerOk req conf.pullToken = false then
    pure (conn.respond (.error 401 (ascii "authentication required")))
  else do
    match ← storeOpenCalls st name with
    | .error error =>
        if error = .ambiguous then pure (conn.respond (.error 409 (storeErrorStr error)))
        else
          pure (conn.respond
            (.error (if error = .invalidName then 400 else 404) (storeErrorStr error)))
    | .ok (content, resolved) =>
        pure (conn.respond
          { status := 200
            contentType := artifactContentType resolved.name
            extra := ascii "X-Cix-Sha256: " ++ resolved.digest ++ [carriageReturn, lineFeed]
            contentLength := some content.length
            body := if headOnly then .empty else .blob content })

def deleteArtifactCalls (conf : Conf) (sys : Sys) (st : Store) (conn : Conn) (req : HttpRequest)
    (name : Bytes) : Calls (Store × Conn) :=
  if bearerOk req conf.pushToken = false then
    pure (st, conn.respond (.error 401 (ascii "push requires a bearer token")))
  else do
    let withdrawn ← storeUnpublishCalls sys st name
    match withdrawn.result with
    | .ok () => pure (withdrawn.store, conn.respond (.plain 204))
    | .error error =>
        pure (withdrawn.store,
          conn.respond (.error (if error = .notFound then 404 else 400) (storeErrorStr error)))

def signatureFoundCalls (st : Store) (name : Bytes) : Calls Bool :=
  match storeSignatureName name with
  | none => pure false
  | some sig => do
      match ← storeResolveCalls st sig with
      | .ok _ => pure true
      | .error _ => pure false

def startHashChildCalls (sys : Sys) (conn : Conn) : Calls Conn :=
  match conn.upPath with
  | none => pure (startHashChild sys conn)
  | some path =>
      -- Once forked, the child opens the staged file whatever the parent does next.
      if sys.allows .pipe && sys.allows .fork then .perform (.open path) (startHashChild sys conn)
      else pure (startHashChild sys conn)

def hashWhenCompleteCalls (sys : Sys) (conn : Conn) : Calls Conn :=
  if conn.upExpect ≤ conn.upReceived then startHashChildCalls sys conn else pure conn

def stageUploadCalls (sys : Sys) (st : Store) (conn : Conn) (req : HttpRequest)
    (name digest : Bytes) : Calls (Store × Conn) := do
  let (path, counted) := storeTmpPath st
  let named :=
    { conn with
      upDigest := digest, upName := name, upExpect := req.contentLength, upReceived := 0,
      upPath := some path }
  match ← Traced.perform (.create path) (create sys counted.files path) with
  | none =>
      pure (counted,
        { named with upPath := none }.respond (.error 500 (ascii "cannot stage upload")))
  | some created =>
      let opened := { named with upFd := true, state := .recvBody }
      match req.body with
      | [] => do
          let waiting ← hashWhenCompleteCalls sys opened
          pure (counted.withFiles created, waiting)
      | _ :: _ =>
          match ← Traced.perform (.write path) (append sys created path req.body) with
          | none =>
              pure (counted.withFiles created,
                opened.respond (.error 500 (ascii "cannot stage upload")))
          | some written => do
              let waiting ← hashWhenCompleteCalls sys { opened with upReceived := req.body.length }
              pure (counted.withFiles written, waiting)

def beginUploadCalls (conf : Conf) (sys : Sys) (st : Store) (conn : Conn) (req : HttpRequest)
    (name : Bytes) : Calls (Store × Conn) :=
  if bearerOk req conf.pushToken = false then
    pure (st, conn.respond (.error 401 (ascii "push requires a bearer token")))
  else if storeNameIsValid name = false then
    pure (st, conn.respond (.error 400 (ascii "invalid artifact name")))
  else if req.contentLength = 0 then
    pure (st, conn.respond (.error 411 (ascii "content-length required")))
  else if uploadMaxBytes < req.contentLength then
    pure (st, conn.respond (.error 413 (ascii "upload too large")))
  else
    match declaredDigest req with
    | none =>
        pure (st,
          conn.respond (.error 400 (ascii "X-Cix-Sha256 header required, 64 lowercase hex")))
    | some digest =>
        if storeDigestIsValid digest = false then
          pure (st,
            conn.respond (.error 400 (ascii "X-Cix-Sha256 header required, 64 lowercase hex")))
        else if storeNeedsSignature conf.policy name then do
          if ← signatureFoundCalls st name then stageUploadCalls sys st conn req name digest
          else pure (st, conn.respond (.error 409 (unsignedMessage name)))
        else stageUploadCalls sys st conn req name digest

def recvBodyCalls (sys : Sys) (st : Store) (conn : Conn) (bytes : Bytes) : Calls (Store × Conn) :=
  let take := bytes.take (conn.upExpect - conn.upReceived)
  match conn.upPath with
  | none => pure (st, conn.respond (.error 500 (ascii "short write staging upload")))
  | some path => do
      match ← Traced.perform (.write path) (append sys st.files path take) with
      | none => pure (st, conn.respond (.error 500 (ascii "short write staging upload")))
      | some written => do
          let waiting ←
            hashWhenCompleteCalls sys { conn with upReceived := conn.upReceived + take.length }
          pure (st.withFiles written, waiting)

def adoptUploadCalls (sys : Sys) (st : Store) (upPath : Path) (name digest : Bytes) :
    Calls (Store × Reply) := do
  match ← storeBlobAdoptCalls sys st upPath digest with
  | (adopted, .error error) => pure (adopted, .error 500 (storeErrorStr error))
  | (adopted, .ok ()) => do
      let done ← storePublishCalls sys adopted name digest
      pure (done.1, publishReply done.2)

def commitUploadCalls (sys : Sys) (st : Store) (upPath : Path) (name digest : Bytes) :
    Calls (Store × Reply) := do
  match ← storeResolveCalls st name with
  | .ok existing =>
      if existing ≠ digest then do
        let dropped ← unlinkCalls sys st.files upPath
        pure (st.withFiles dropped.1,
          .error 409 (ascii "already published with a different sha256"))
      else adoptUploadCalls sys st upPath name digest
  | .error .notFound => adoptUploadCalls sys st upPath name digest
  | .error error => do
      let dropped ← unlinkCalls sys st.files upPath
      pure (st.withFiles dropped.1,
        .error (if error = .ambiguous then 409 else 500) (storeErrorStr error))

def finishUploadCalls (sha : Sha256sum) (sys : Sys) (st : Store) (conn : Conn) :
    Calls (Store × Conn) :=
  let reaped := { conn with child := .none }
  match conn.upPath with
  | none => pure (st, reaped.respond (.error 500 (ascii "could not hash uploaded body")))
  | some path => do
      match ← Traced.perform (.open path) (storeHashFile sha sys st path) with
      | none => pure (st, reaped.respond (.error 500 (ascii "could not hash uploaded body")))
      | some digest =>
          if strcasecmpEq digest conn.upDigest = false then
            pure (st, reaped.respond (.error 400 (ascii "body does not match declared sha256")))
          else do
            let done ← commitUploadCalls sys st path conn.upName digest
            pure (done.1, { reaped with upPath := none }.respond done.2)

def connCloseCalls (sys : Sys) (st : Store) (conn : Conn) : Calls Store :=
  match conn.upPath with
  | none => pure st
  | some path => do
      let removed ← unlinkCalls sys st.files path
      pure (st.withFiles removed.1)

/-! ## What the operations compute -/

section Values

variable {conf : Conf} {sha : Sha256sum} {sys : Sys} {st : Store} {conn : Conn}
  {req : HttpRequest} {name digest : Bytes}

@[simp] theorem storeOpenCalls_value (st : Store) (name : Bytes) :
    (storeOpenCalls st name).value = storeOpen st name := by
  unfold storeOpenCalls storeOpen
  rw [Traced.value_bind, storeResolveAsCalls_value]
  cases storeResolveAs st name with
  | error => rfl
  | ok resolved =>
      dsimp only
      cases blobPath st.root resolved.digest <;> rfl

@[simp] theorem serveArtifactCalls_value (conf : Conf) (st : Store) (conn : Conn)
    (req : HttpRequest) (name : Bytes) (headOnly : Bool) :
    (serveArtifactCalls conf st conn req name headOnly).value =
      serveArtifact conf st conn req name headOnly := by
  unfold serveArtifactCalls serveArtifact
  split
  next => rfl
  rw [Traced.value_bind, storeOpenCalls_value]
  cases storeOpen st name with
  | error error =>
      dsimp only
      split <;> rfl
  | ok opened => rfl

@[simp] theorem deleteArtifactCalls_value (conf : Conf) (sys : Sys) (st : Store) (conn : Conn)
    (req : HttpRequest) (name : Bytes) :
    (deleteArtifactCalls conf sys st conn req name).value =
      deleteArtifact conf sys st conn req name := by
  unfold deleteArtifactCalls deleteArtifact
  split
  next => rfl
  rw [Traced.value_bind, storeUnpublishCalls_value]
  dsimp only
  cases (storeUnpublish sys st name).result <;> rfl

@[simp] theorem signatureFoundCalls_value (st : Store) (name : Bytes) :
    (signatureFoundCalls st name).value = signatureFound st name := by
  unfold signatureFoundCalls signatureFound
  cases storeSignatureName name with
  | none => rfl
  | some sig =>
      dsimp only
      rw [Traced.value_bind, storeResolveCalls_value]
      cases storeResolve st sig <;> rfl

@[simp] theorem hashWhenCompleteCalls_value (sys : Sys) (conn : Conn) :
    (hashWhenCompleteCalls sys conn).value = hashWhenComplete sys conn := by
  unfold hashWhenCompleteCalls hashWhenComplete startHashChildCalls
  split
  next =>
    cases conn.upPath with
    | none => rfl
    | some path =>
        dsimp only
        split <;> rfl
  next => rfl

@[simp] theorem stageUploadCalls_value (sys : Sys) (st : Store) (conn : Conn) (req : HttpRequest)
    (name digest : Bytes) :
    (stageUploadCalls sys st conn req name digest).value =
      stageUpload sys st conn req name digest := by
  unfold stageUploadCalls stageUpload
  dsimp only
  rw [Traced.value_bind, Traced.value_perform]
  cases create sys (storeTmpPath st).2.files (storeTmpPath st).1 with
  | none => rfl
  | some created =>
      dsimp only
      cases req.body with
      | nil =>
          dsimp only
          rw [Traced.value_bind, hashWhenCompleteCalls_value]
          rfl
      | cons first rest =>
          dsimp only
          rw [Traced.value_bind, Traced.value_perform]
          cases append sys created (storeTmpPath st).1 (first :: rest) with
          | none => rfl
          | some written =>
              dsimp only
              rw [Traced.value_bind, hashWhenCompleteCalls_value]
              rfl

@[simp] theorem beginUploadCalls_value (conf : Conf) (sys : Sys) (st : Store) (conn : Conn)
    (req : HttpRequest) (name : Bytes) :
    (beginUploadCalls conf sys st conn req name).value = beginUpload conf sys st conn req name := by
  unfold beginUploadCalls beginUpload
  split
  next => rfl
  split
  next => rfl
  split
  next => rfl
  split
  next => rfl
  cases declaredDigest req with
  | none => rfl
  | some digest =>
      dsimp only
      split
      next => rfl
      split
      next needed =>
        rw [Traced.value_bind, signatureFoundCalls_value]
        cases found : signatureFound st name with
        | true => simp
        | false => simp [needed]
      next free =>
        rw [if_neg (fun both => free both.1)]
        exact stageUploadCalls_value sys st conn req name digest

@[simp] theorem recvBodyCalls_value (sys : Sys) (st : Store) (conn : Conn) (bytes : Bytes) :
    (recvBodyCalls sys st conn bytes).value = recvBody sys st conn bytes := by
  unfold recvBodyCalls recvBody
  dsimp only
  cases conn.upPath with
  | none => rfl
  | some path =>
      dsimp only
      rw [Traced.value_bind, Traced.value_perform]
      cases append sys st.files path (bytes.take (conn.upExpect - conn.upReceived)) with
      | none => rfl
      | some written =>
          dsimp only
          rw [Traced.value_bind, hashWhenCompleteCalls_value]
          rfl

@[simp] theorem adoptUploadCalls_value (sys : Sys) (st : Store) (upPath : Path)
    (name digest : Bytes) :
    (adoptUploadCalls sys st upPath name digest).value = adoptUpload sys st upPath name digest := by
  unfold adoptUploadCalls adoptUpload
  rw [Traced.value_bind, storeBlobAdoptCalls_value]
  rcases storeBlobAdopt sys st upPath digest with ⟨adopted, result⟩
  cases result with
  | error error => rfl
  | ok done =>
      dsimp only
      rw [Traced.value_bind, storePublishCalls_value]
      rfl

@[simp] theorem commitUploadCalls_value (sys : Sys) (st : Store) (upPath : Path)
    (name digest : Bytes) :
    (commitUploadCalls sys st upPath name digest).value =
      commitUpload sys st upPath name digest := by
  unfold commitUploadCalls commitUpload
  rw [Traced.value_bind, storeResolveCalls_value]
  cases storeResolve st name with
  | ok existing =>
      dsimp only
      split
      next => rfl
      next => exact adoptUploadCalls_value sys st upPath name digest
  | error error =>
      cases error with
      | notFound => exact adoptUploadCalls_value sys st upPath name digest
      | _ => rfl

@[simp] theorem finishUploadCalls_value (sha : Sha256sum) (sys : Sys) (st : Store) (conn : Conn) :
    (finishUploadCalls sha sys st conn).value = finishUpload sha sys st conn := by
  unfold finishUploadCalls finishUpload
  dsimp only
  cases conn.upPath with
  | none => rfl
  | some path =>
      dsimp only
      rw [Traced.value_bind, Traced.value_perform]
      cases storeHashFile sha sys st path with
      | none => rfl
      | some digest =>
          dsimp only
          split
          next => rfl
          next =>
            rw [Traced.value_bind, commitUploadCalls_value]
            rfl

theorem connCloseCalls_value (sys : Sys) (st : Store) (conn : Conn) :
    (connCloseCalls sys st conn).value = connClose sys st conn := by
  unfold connCloseCalls connClose
  cases conn.upPath <;> rfl

end Values

/-- The artifact operations, each with its calls. -/
def callHandlers : Handlers FileCall where
  serveArtifact := serveArtifactCalls
  beginUpload := beginUploadCalls
  deleteArtifact := deleteArtifactCalls
  recvBody := recvBodyCalls
  finishUpload := finishUploadCalls
  connClose := connCloseCalls
  serveArtifact_value := serveArtifactCalls_value
  beginUpload_value := beginUploadCalls_value
  deleteArtifact_value := deleteArtifactCalls_value
  recvBody_value := recvBodyCalls_value
  finishUpload_value := finishUploadCalls_value
  connClose_value := connCloseCalls_value

/-- The server's step with the calls of the artifact operations. -/
def serverStepCalls (conf : Conf) (sha : Sha256sum) (server : Server) (event : Sys × ServerEvent) :
    Calls Server :=
  callHandlers.serverStep conf sha server event

/-- Without its calls, a step of the artifact operations is the server's step. -/
theorem serverStepCalls_value (conf : Conf) (sha : Sha256sum) (server : Server)
    (event : Sys × ServerEvent) :
    (serverStepCalls conf sha server event).value = serverStep conf sha server event :=
  callHandlers.serverStep_value server event

/-! ## What the operations call -/

section Confinement

variable {conf : Conf} {sha : Sha256sum} {sys : Sys} {st : Store} {conn : Conn}
  {req : HttpRequest} {name digest : Bytes}

theorem storeOpenCalls_confined (st : Store) (name : Bytes) :
    ConfinedCalls (storeOpenCalls st name) := by
  apply Traced.Only.bind (storeResolveAsCalls_confined st name)
  rw [storeResolveAsCalls_value]
  split
  next => exact Traced.only_pure _
  next resolved found =>
    obtain ⟨_, _, _, entry⟩ := storeResolveAs_published found
    split
    next => exact Traced.only_pure _
    next path located =>
      exact confined_one rfl (blobPath_confined located (published_valid entry))

theorem serveArtifactCalls_confined (conf : Conf) (st : Store) (conn : Conn) (req : HttpRequest)
    (name : Bytes) (headOnly : Bool) :
    ConfinedCalls (serveArtifactCalls conf st conn req name headOnly) := by
  unfold serveArtifactCalls
  split
  next => exact Traced.only_pure _
  apply Traced.Only.bind (storeOpenCalls_confined st name)
  split
  next => split <;> exact Traced.only_pure _
  next => exact Traced.only_pure _

theorem deleteArtifactCalls_confined (conf : Conf) (sys : Sys) (st : Store) (conn : Conn)
    (req : HttpRequest) (name : Bytes) :
    ConfinedCalls (deleteArtifactCalls conf sys st conn req name) := by
  unfold deleteArtifactCalls
  split
  next => exact Traced.only_pure _
  apply Traced.Only.bind (storeUnpublishCalls_confined sys st name)
  split <;> exact Traced.only_pure _

theorem signatureFoundCalls_confined (st : Store) (name : Bytes) :
    ConfinedCalls (signatureFoundCalls st name) := by
  unfold signatureFoundCalls
  split
  next => exact Traced.only_pure _
  next sig _ =>
    apply Traced.Only.bind (storeResolveCalls_confined st sig)
    split <;> exact Traced.only_pure _

/-- The staging file of a connection is under tmp/. -/
def Conn.Stages (conn : Conn) : Prop := ∀ path, conn.upPath = some path → path.Confined

theorem Conn.Sound.stages (sound : conn.Sound) : conn.Stages := by
  intro path owned
  obtain ⟨tmp, rfl⟩ := sound.staged path owned
  trivial

theorem hashWhenCompleteCalls_confined (staged : conn.Stages) :
    ConfinedCalls (hashWhenCompleteCalls sys conn) := by
  unfold hashWhenCompleteCalls startHashChildCalls
  split
  next =>
    split
    next => exact Traced.only_pure _
    next path owned =>
      split
      next => exact confined_one rfl (staged path owned)
      next => exact Traced.only_pure _
  next => exact Traced.only_pure _

theorem stageUploadCalls_confined (sys : Sys) (st : Store) (conn : Conn) (req : HttpRequest)
    (name digest : Bytes) : ConfinedCalls (stageUploadCalls sys st conn req name digest) := by
  have tmp : (storeTmpPath st).1.Confined := trivial
  unfold stageUploadCalls
  apply Traced.Only.bind (confined_one rfl tmp)
  split
  next => exact Traced.only_pure _
  next =>
    dsimp only
    have staged : ∀ received, Conn.Stages
        { conn with
          upDigest := digest, upName := name, upExpect := req.contentLength,
          upReceived := received, upPath := some (storeTmpPath st).1, upFd := true,
          state := .recvBody } := by
      intro received path owned
      rw [← Option.some.inj owned]
      exact tmp
    split
    next => exact (hashWhenCompleteCalls_confined (staged 0)).bind (Traced.only_pure _)
    next =>
      apply Traced.Only.bind (confined_one rfl tmp)
      split
      next => exact Traced.only_pure _
      next => exact (hashWhenCompleteCalls_confined (staged _)).bind (Traced.only_pure _)

theorem beginUploadCalls_confined (conf : Conf) (sys : Sys) (st : Store) (conn : Conn)
    (req : HttpRequest) (name : Bytes) :
    ConfinedCalls (beginUploadCalls conf sys st conn req name) := by
  unfold beginUploadCalls
  split
  next => exact Traced.only_pure _
  split
  next => exact Traced.only_pure _
  split
  next => exact Traced.only_pure _
  split
  next => exact Traced.only_pure _
  split
  next => exact Traced.only_pure _
  next digest _ =>
    have stages := stageUploadCalls_confined sys st conn req name digest
    split
    next => exact Traced.only_pure _
    split
    next =>
      apply Traced.Only.bind (signatureFoundCalls_confined st name)
      split
      next => exact stages
      next => exact Traced.only_pure _
    next => exact stages

theorem recvBodyCalls_confined (staged : conn.Stages) (bytes : Bytes) :
    ConfinedCalls (recvBodyCalls sys st conn bytes) := by
  unfold recvBodyCalls
  dsimp only
  split
  next => exact Traced.only_pure _
  next path owned =>
    apply Traced.Only.bind (confined_one rfl (staged path owned))
    split
    next => exact Traced.only_pure _
    next =>
      apply Traced.Only.bind
      · apply hashWhenCompleteCalls_confined
        exact staged
      · exact Traced.only_pure _

theorem adoptUploadCalls_confined {upPath : Path} (staged : upPath.Confined) :
    ConfinedCalls (adoptUploadCalls sys st upPath name digest) := by
  apply Traced.Only.bind (storeBlobAdoptCalls_confined staged)
  split
  next => exact Traced.only_pure _
  next => exact (storePublishCalls_confined sys _ name digest).bind (Traced.only_pure _)

theorem commitUploadCalls_confined {upPath : Path} (staged : upPath.Confined) :
    ConfinedCalls (commitUploadCalls sys st upPath name digest) := by
  apply Traced.Only.bind (storeResolveCalls_confined st name)
  split
  next =>
    split
    next => exact (unlinkCalls_confined _ staged).bind (Traced.only_pure _)
    next => exact adoptUploadCalls_confined staged
  next => exact adoptUploadCalls_confined staged
  next => exact (unlinkCalls_confined _ staged).bind (Traced.only_pure _)

theorem finishUploadCalls_confined (staged : conn.Stages) :
    ConfinedCalls (finishUploadCalls sha sys st conn) := by
  unfold finishUploadCalls
  dsimp only
  split
  next => exact Traced.only_pure _
  next path owned =>
    have confined := staged path owned
    apply Traced.Only.bind (confined_one rfl confined)
    split
    next => exact Traced.only_pure _
    next =>
      split
      next => exact Traced.only_pure _
      next => exact (commitUploadCalls_confined confined).bind (Traced.only_pure _)

theorem connCloseCalls_confined (staged : conn.Stages) :
    ConfinedCalls (connCloseCalls sys st conn) := by
  unfold connCloseCalls
  split
  next => exact Traced.only_pure _
  next path owned => exact (unlinkCalls_confined _ (staged path owned)).bind (Traced.only_pure _)

theorem dispatchCalls_confined (conf : Conf) (sys : Sys) (st : Store) (importRunning : Bool)
    (conn : Conn) (req : HttpRequest) :
    ConfinedCalls (callHandlers.dispatch conf sys st importRunning conn req) := by
  apply Handlers.dispatch_only
  · apply Handlers.dispatchArtifact_only
    · exact serveArtifactCalls_confined conf st conn req
    · exact beginUploadCalls_confined conf sys st conn req
    · exact deleteArtifactCalls_confined conf sys st conn req
  · constructor <;> intros <;> exact Traced.only_pure _
  · intro path headOnly
    exact Traced.only_pure _

theorem serverStepCalls_confined {server : Server} (sound : server.Sound)
    (event : Sys × ServerEvent) : ConfinedCalls (serverStepCalls conf sha server event) := by
  apply Handlers.serverStep_only
  · intro id input conn _ present
    have staged := (sound id conn present).stages
    apply Handlers.connStep_only
    · intro req _
      exact dispatchCalls_confined conf _ _ _ conn req
    · exact recvBodyCalls_confined staged
    · exact finishUploadCalls_confined staged
  · intro id conn present
    exact connCloseCalls_confined (sound id conn present).stages

end Confinement

/-! ## Paths as the kernel gets them -/

def TmpName.text : TmpName → Bytes
  | .up pid counter => ascii ".up." ++ printed pid ++ dot :: printed counter
  | .pub pid counter => ascii ".pub." ++ printed pid ++ dot :: printed counter

/-- The text `snprintf` renders for a path. -/
def Path.text (root : Root) : Path → Bytes
  | .packages name => root.text ++ ascii "/packages/" ++ name
  | .blobs digest => root.text ++ ascii "/blobs/" ++ digest
  | .tmp name => root.text ++ ascii "/tmp/" ++ name.text

/-- The texts of paths that stay inside the store. -/
inductive InStore (root : Root) : Bytes → Prop
  | entry (c : Bytes) (component : Component c) :
      InStore root (root.text ++ ascii "/packages/" ++ c)
  | blob (d : Bytes) (length : d.length = 64) (hex : ∀ c ∈ d, isHexLower c = true) :
      InStore root (root.text ++ ascii "/blobs/" ++ d)
  | generated (name : TmpName) (component : Component name.text) :
      InStore root (root.text ++ ascii "/tmp/" ++ name.text)

/-- Two numbers behind a literal that is itself a component are one. -/
theorem component_numbered {front : Bytes} (plain : Component front) (long : 2 < front.length)
    (pid counter : Nat) : Component (front ++ printed pid ++ dot :: printed counter) := by
  have member : ∀ c ∈ front ++ printed pid ++ dot :: printed counter,
      c ∈ front ∨ isDigit c = true ∨ c = dot := by
    intro c inside
    simp only [List.mem_append, List.mem_cons] at inside
    rcases inside with (literal | number) | point | number
    · exact Or.inl literal
    · exact Or.inr (Or.inl (printed_digits pid c number))
    · exact Or.inr (Or.inr point)
    · exact Or.inr (Or.inl (printed_digits counter c number))
  have longer : 2 < (front ++ printed pid ++ dot :: printed counter).length := by
    simp only [List.length_append]
    omega
  constructor
  · intro empty
    rw [empty] at longer
    contradiction
  · intro inside
    rcases member slash inside with literal | digit | point
    · exact plain.slashFree literal
    · exact absurd digit (by decide)
    · exact absurd point (by decide)
  · intro inside
    rcases member 0 inside with literal | digit | point
    · exact plain.nulFree literal
    · exact absurd digit (by decide)
    · exact absurd point (by decide)
  · intro self
    rw [self] at longer
    contradiction
  · intro parent
    rw [parent] at longer
    contradiction

theorem component_tmpName (name : TmpName) : Component name.text := by
  have up : Component (ascii ".up.") := by constructor <;> decide
  have pub : Component (ascii ".pub.") := by constructor <;> decide
  cases name with
  | up pid counter => exact component_numbered up (by decide) pid counter
  | pub pid counter => exact component_numbered pub (by decide) pid counter

theorem Path.Confined.inStore {path : Path} (confined : path.Confined) (root : Root) :
    InStore root (path.text root) := by
  cases path with
  | packages name => exact .entry name confined
  | blobs digest =>
      exact .blob digest (storeDigestIsValid_length confined) (storeDigestIsValid_hex confined)
  | tmp name => exact .generated name (component_tmpName name)

/-- Whatever happened before, every path the next event's artifact operation takes
is a single name in packages/, a digest in blobs/, or a generated name in tmp/. -/
theorem artifact_paths_in_store (conf : Conf) (sha : Sha256sum) (st : Store)
    (history : List (Sys × ServerEvent)) (event : Sys × ServerEvent) :
    let server := run (serverStep conf sha) (.start st) history
    ∀ call ∈ (serverStepCalls conf sha server event).events, ∀ path ∈ call.paths,
      InStore server.store.root (path.text server.store.root) := by
  intro server call performed path taken
  have sound : server.Sound := run_sound conf sha (Server.sound_start st) history
  have confined : ConfinedCalls (serverStepCalls conf sha server event) :=
    serverStepCalls_confined sound event
  exact (confined call performed path taken).inStore server.store.root

/-- `GET /a-1-1.tar.gz`, which is published for one architecture. -/
def bareRequest : Input :=
  .request ⟨ascii "GET", ascii "/a-1-1.tar.gz", 0, [], []⟩

def stampedStore : Store :=
  Store.holding [(ascii "a-1-1-x86_64.tar.gz", List.replicate 64 97)]
    [(List.replicate 64 97, ascii "a")]

/-- The probe of an architecture that is answered reads inside packages/. -/
theorem probe_in_store :
    InStore Root.standard (Path.text Root.standard (.packages (ascii "a-1-1-x86_64.tar.gz"))) := by
  exact artifact_paths_in_store .sample .sample stampedStore
    [(Sys.succeeding fun _ => none, .accept 1)] (Sys.succeeding fun _ => none, .input 1 bareRequest)
    (.readlink (.packages (ascii "a-1-1-x86_64.tar.gz"))) (by decide +kernel) _ (by decide +kernel)

end CixCache
