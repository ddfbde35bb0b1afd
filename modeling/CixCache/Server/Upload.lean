import CixCache.Server.Http
import CixCache.Store.Publish

/-!
Contract: the push path, from the headers of a PUT to its answer.

Owns: connections as the push path uses them, replies, `beginUpload` with the
signature gate, the staging of body bytes, the start of the hash child, and
`finishUpload` with its commit; and what each of them can do to packages/,
blobs/ and tmp/.

Does not own: routing, other endpoints, the event loop.
-/

namespace CixCache

/-! ## Replies and connections -/

inductive ReplyBody where
  | empty
  | error (message : Bytes)
  | blob (content : Bytes)
  | gcReport (dryRun : Bool) (removed freed : Nat)
  | document
deriving DecidableEq, Repr

/-- A response that was begun; `document` stands for the bodies of pages and
listings. -/
structure Reply where
  status : Nat
  contentType : Bytes
  extra : Bytes
  contentLength : Option Nat
  body : ReplyBody
deriving DecidableEq, Repr

/-- `respond_error` -/
def Reply.error (status : Nat) (message : Bytes) : Reply :=
  ⟨status, ascii "application/json", [], none, .error message⟩

/-- `begin_response` with an empty JSON body. -/
def Reply.plain (status : Nat) : Reply := ⟨status, ascii "application/json", [], some 0, .empty⟩

inductive ConnState where
  | readRequest
  | recvBody
  | hashing
  | sending (reply : Reply)
deriving DecidableEq, Repr

/-- The hash child of a connection, and whether the loop watches it. -/
inductive HashChild where
  | none
  | watched
  | unwatched
deriving DecidableEq, Repr

/-- What `struct conn` holds of an upload. -/
structure Conn where
  state : ConnState
  upFd : Bool
  upPath : Option Path
  upDigest : Bytes
  upName : Bytes
  upExpect : Nat
  upReceived : Nat
  child : HashChild
deriving DecidableEq, Repr

/-- A connection as `accept_loop` makes it. -/
def Conn.fresh : Conn := ⟨.readRequest, false, none, [], [], 0, 0, .none⟩

def Conn.respond (conn : Conn) (reply : Reply) : Conn := { conn with state := .sending reply }

@[simp] theorem Conn.respond_state (conn : Conn) (reply : Reply) :
    (conn.respond reply).state = .sending reply := rfl

@[simp] theorem Conn.respond_upPath (conn : Conn) (reply : Reply) :
    (conn.respond reply).upPath = conn.upPath := rfl

/-- The status of the answer, once one was begun. -/
def Conn.status (conn : Conn) : Option Nat :=
  match conn.state with
  | .sending reply => some reply.status
  | _ => none

/-- What routing reads of the configuration; `webFiles` is what opening a path
under the web root reads, `none` when that is not a regular file. -/
structure Conf where
  pushToken : Bytes
  pullToken : Bytes
  policy : SignaturePolicy
  webRoot : Bytes
  webFiles : Bytes → Option Bytes

/-! ## Functions of the source -/

/-- UPLOAD_MAX_BYTES -/
def uploadMaxBytes : Nat := 16 * 1024 * 1024 * 1024

/-- The lookup of `begin_upload`: the signature a name needs resolves. -/
def signatureFound (st : Store) (name : Bytes) : Bool :=
  match storeSignatureName name with
  | none => false
  | some sig =>
      match storeResolve st sig with
      | .ok _ => true
      | .error _ => false

/-- `"publish %s first -- %s may not be unsigned here"`; of a signature's name that does not
fit its array the beginning is printed. -/
def unsignedMessage (name : Bytes) : Bytes :=
  snprintf (storeNameMax + 64)
    (ascii "publish " ++ snprintf storeNameMax (name ++ storeSigExt) ++ ascii " first -- " ++
      (storeSuffixOf name).getD [] ++ ascii " may not be unsigned here")

def startHashChild (sys : Sys) (conn : Conn) : Conn :=
  let closed := { conn with upFd := false }
  if sys.allows .pipe = false then closed.respond (.error 500 (ascii "cannot hash upload"))
  else if sys.allows .fork = false then closed.respond (.error 500 (ascii "cannot hash upload"))
  else if sys.allows .pidfdOpen = false then
    closed.respond (.error 500 (ascii "cannot watch hash child"))
  else if sys.allows .connNew = false then closed.respond (.error 500 (ascii "out of memory"))
  else if sys.allows .epollAdd = false then
    { closed with child := .unwatched }.respond (.error 500 (ascii "cannot watch hash child"))
  else { closed with child := .watched, state := .hashing }

/-- `if (cc->up_received >= cc->up_expect) start_hash_child(cc)` -/
def hashWhenComplete (sys : Sys) (conn : Conn) : Conn :=
  if conn.upExpect ≤ conn.upReceived then startHashChild sys conn else conn

/-- The staging part of `begin_upload`, once every check has passed. -/
def stageUpload (sys : Sys) (st : Store) (conn : Conn) (req : HttpRequest) (name digest : Bytes) :
    Store × Conn :=
  let (path, counted) := storeTmpPath st
  let named :=
    { conn with
      upDigest := digest, upName := name, upExpect := req.contentLength, upReceived := 0,
      upPath := some path }
  match create sys counted.files path with
  | none =>
      (counted, { named with upPath := none }.respond (.error 500 (ascii "cannot stage upload")))
  | some created =>
      let opened := { named with upFd := true, state := .recvBody }
      -- Body bytes that rode in with the headers are already buffered.
      match req.body with
      | [] =>
          (counted.withFiles created, hashWhenComplete sys opened)
      | _ :: _ =>
          match append sys created path req.body with
          | none =>
              (counted.withFiles created,
                opened.respond (.error 500 (ascii "cannot stage upload")))
          | some written =>
              (counted.withFiles written,
                hashWhenComplete sys { opened with upReceived := req.body.length })

/-- The header that declares a digest, as `begin_upload` reads it. -/
def declaredDigest (req : HttpRequest) : Option Bytes :=
  (httpFindHeader req.headers (ascii "X-Cix-Sha256") (storeSha256HexLen + 1 + 8)).map cString

def beginUpload (conf : Conf) (sys : Sys) (st : Store) (conn : Conn) (req : HttpRequest)
    (name : Bytes) : Store × Conn :=
  if bearerOk req conf.pushToken = false then
    (st, conn.respond (.error 401 (ascii "push requires a bearer token")))
  else if storeNameIsValid name = false then
    (st, conn.respond (.error 400 (ascii "invalid artifact name")))
  else if req.contentLength = 0 then
    (st, conn.respond (.error 411 (ascii "content-length required")))
  else if uploadMaxBytes < req.contentLength then
    (st, conn.respond (.error 413 (ascii "upload too large")))
  else
    match declaredDigest req with
    | none =>
        (st, conn.respond (.error 400 (ascii "X-Cix-Sha256 header required, 64 lowercase hex")))
    | some digest =>
        if storeDigestIsValid digest = false then
          (st, conn.respond (.error 400 (ascii "X-Cix-Sha256 header required, 64 lowercase hex")))
        else if storeNeedsSignature conf.policy name ∧ signatureFound st name = false then
          (st, conn.respond (.error 409 (unsignedMessage name)))
        else stageUpload sys st conn req name digest

/-- The CONN_RECV_BODY branch of `handle_read`. -/
def recvBody (sys : Sys) (st : Store) (conn : Conn) (bytes : Bytes) : Store × Conn :=
  let take := bytes.take (conn.upExpect - conn.upReceived)
  match conn.upPath with
  | none => (st, conn.respond (.error 500 (ascii "short write staging upload")))
  | some path =>
      match append sys st.files path take with
      | none => (st, conn.respond (.error 500 (ascii "short write staging upload")))
      | some written =>
          (st.withFiles written,
            hashWhenComplete sys { conn with upReceived := conn.upReceived + take.length })

/-- `store_error_str` behind the status `finish_upload` gives a refused publish. -/
def publishReply : StoreResult → Reply
  | .ok () => .plain 201
  | .error .conflict => .error 409 (ascii "already published with a different sha256")
  | .error .ambiguous => .error 409 (storeErrorStr .ambiguous)
  | .error error => .error 500 (storeErrorStr error)

/-- Adopt the staged file and publish the name. -/
def adoptUpload (sys : Sys) (st : Store) (upPath : Path) (name digest : Bytes) : Store × Reply :=
  match storeBlobAdopt sys st upPath digest with
  | (adopted, .error error) => (adopted, .error 500 (storeErrorStr error))
  | (adopted, .ok ()) =>
      let (done, result) := storePublish sys adopted name digest
      (done, publishReply result)

/-- The end of `finish_upload`, once the body hashes to what was declared. -/
def commitUpload (sys : Sys) (st : Store) (upPath : Path) (name digest : Bytes) : Store × Reply :=
  -- Ask whether this name will be refused before adopting the body.
  match storeResolve st name with
  | .ok existing =>
      if existing ≠ digest then
        (st.withFiles (unlink sys st.files upPath).1,
          .error 409 (ascii "already published with a different sha256"))
      else adoptUpload sys st upPath name digest
  | .error .notFound => adoptUpload sys st upPath name digest
  | .error error =>
      (st.withFiles (unlink sys st.files upPath).1,
        .error (if error = .ambiguous then 409 else 500) (storeErrorStr error))

def finishUpload (sha : Sha256sum) (sys : Sys) (st : Store) (conn : Conn) : Store × Conn :=
  let reaped := { conn with child := .none }
  match conn.upPath with
  | none => (st, reaped.respond (.error 500 (ascii "could not hash uploaded body")))
  | some path =>
      match storeHashFile sha sys st path with
      | none => (st, reaped.respond (.error 500 (ascii "could not hash uploaded body")))
      | some digest =>
          if strcasecmpEq digest conn.upDigest = false then
            (st, reaped.respond (.error 400 (ascii "body does not match declared sha256")))
          else
            let (done, reply) := commitUpload sys st path conn.upName digest
            (done, { reaped with upPath := none }.respond reply)

/-! ## Declared digests -/

/-- A valid digest is in lower case already. -/
theorem map_toLower_of_valid {digest : Bytes} (valid : storeDigestIsValid digest = true) :
    digest.map toLower = digest := by
  have fixed : ∀ c ∈ digest, toLower c = c := by
    intro c member
    have hex := storeDigestIsValid_hex valid c member
    unfold toLower
    rw [if_neg]
    intro upper
    simp only [isHexLower, isDigit, isUpper, Bool.or_eq_true, Bool.and_eq_true,
      decide_eq_true_eq] at hex upper
    have low := UInt8.le_iff_toNat_le.mp upper.1
    have high := UInt8.le_iff_toNat_le.mp upper.2
    rcases hex with digit | letter
    · have bound := UInt8.le_iff_toNat_le.mp digit.2
      simp at low bound
      omega
    · have bound := UInt8.le_iff_toNat_le.mp letter.1
      simp at high bound
      omega
  exact (List.map_congr_left fixed).trans (List.map_id _)

theorem eq_of_strcasecmpEq {left right : Bytes} (leftValid : storeDigestIsValid left = true)
    (rightValid : storeDigestIsValid right = true) (same : strcasecmpEq left right = true) :
    left = right := by
  unfold strcasecmpEq at same
  rw [map_toLower_of_valid leftValid, map_toLower_of_valid rightValid] at same
  exact beq_iff_eq.mp same

theorem storeHashFile_some {sha : Sha256sum} {sys : Sys} {st : Store} {path : Path}
    {digest : Bytes} (hashed : storeHashFile sha sys st path = some digest) :
    storeDigestIsValid digest = true ∧
      ∃ content, stat st.files path = some content ∧ sha.digest content = digest := by
  unfold storeHashFile at hashed
  split at hashed
  next =>
    split at hashed
    next => contradiction
    next content read =>
      split at hashed
      next valid =>
        obtain rfl := Option.some.inj hashed
        exact ⟨valid, content, read, rfl⟩
      next => contradiction
  next => contradiction

/-! ## Uploads in flight -/

/-- The body is being received or hashed. -/
def Conn.InFlight (conn : Conn) : Prop := conn.state = .recvBody ∨ conn.state = .hashing

/-- What every step keeps of a connection: a path it owns is under tmp/, and a
digest it carries is one. -/
structure Conn.Sound (conn : Conn) : Prop where
  staged : ∀ path, conn.upPath = some path → ∃ tmp, path = .tmp tmp
  declared : conn.InFlight → storeDigestIsValid conn.upDigest = true

theorem Conn.sound_fresh : Conn.fresh.Sound where
  staged := by
    intro path owned
    contradiction
  declared := by
    intro flying
    rcases flying with receiving | hashing
    · contradiction
    · contradiction

theorem Conn.Sound.respond {conn : Conn} (sound : conn.Sound) (reply : Reply) :
    (conn.respond reply).Sound where
  staged := sound.staged
  declared := by
    intro flying
    rcases flying with receiving | hashing
    · contradiction
    · contradiction

section Push

variable {conf : Conf} {sha : Sha256sum} {sys : Sys} {st : Store} {conn : Conn}
  {req : HttpRequest} {name digest : Bytes}

/-- A connection goes on with the same upload, or answers 500. -/
structure Continues (before after : Conn) : Prop where
  path : after.upPath = before.upPath
  name : after.upName = before.upName
  digest : after.upDigest = before.upDigest
  state : after.InFlight ∨ ∃ reply, reply.status = 500 ∧ after.state = .sending reply

theorem Continues.sound {before after : Conn} (continues : Continues before after)
    (staged : ∀ path, before.upPath = some path → ∃ tmp, path = .tmp tmp)
    (declared : storeDigestIsValid before.upDigest = true) : after.Sound where
  staged := by
    rw [continues.path]
    exact staged
  declared := by
    intro _
    rw [continues.digest]
    exact declared

theorem Continues.of_eq {before middle after : Conn} (continues : Continues middle after)
    (path : middle.upPath = before.upPath) (name : middle.upName = before.upName)
    (digest : middle.upDigest = before.upDigest) : Continues before after :=
  ⟨continues.path.trans path, continues.name.trans name, continues.digest.trans digest,
    continues.state⟩

theorem continues_startHashChild (sys : Sys) (conn : Conn) :
    Continues conn (startHashChild sys conn) := by
  have failed : ∀ after : Conn, after.upPath = conn.upPath → after.upName = conn.upName →
      after.upDigest = conn.upDigest → ∀ message, Continues conn (after.respond (.error 500 message)) :=
    fun after path name digest message => ⟨path, name, digest, Or.inr ⟨_, rfl, rfl⟩⟩
  unfold startHashChild
  dsimp only
  split
  next => apply failed <;> rfl
  split
  next => apply failed <;> rfl
  split
  next => apply failed <;> rfl
  split
  next => apply failed <;> rfl
  split
  next => apply failed <;> rfl
  next => exact ⟨rfl, rfl, rfl, Or.inl (Or.inr rfl)⟩

theorem continues_hashWhenComplete (sys : Sys) (flying : conn.InFlight) :
    Continues conn (hashWhenComplete sys conn) := by
  unfold hashWhenComplete
  split
  next => exact continues_startHashChild sys conn
  next => exact ⟨rfl, rfl, rfl, Or.inl flying⟩

theorem startHashChild_of_succeeds (succeeds : sys.Succeeds) (conn : Conn) :
    startHashChild sys conn =
      { conn with upFd := false, child := .watched, state := .hashing } := by
  unfold startHashChild
  simp [succeeds _]

theorem stageUpload_packages (sys : Sys) (st : Store) (conn : Conn) (req : HttpRequest)
    (name digest : Bytes) :
    packagesOf (stageUpload sys st conn req name digest).1.files = packagesOf st.files ∧
      blobsOf (stageUpload sys st conn req name digest).1.files = blobsOf st.files := by
  unfold stageUpload storeTmpPath
  dsimp only
  split
  next => exact ⟨rfl, rfl⟩
  next created made =>
    obtain rfl := create_eq_some made
    split
    next => simp
    next =>
      split
      next => simp
      next written appended =>
        obtain ⟨_, _, rfl⟩ := append_eq_some appended
        simp

/-- A body that is staged goes on, or is answered 500. -/
theorem stageUpload_conn (sys : Sys) (st : Store) (conn : Conn) (req : HttpRequest)
    (name digest : Bytes) :
    ∃ path, Continues { conn with upPath := path, upName := name, upDigest := digest }
        (stageUpload sys st conn req name digest).2 ∧
      ∀ owned, path = some owned → owned = .tmp (.up st.pid st.tmpCounter) := by
  unfold stageUpload storeTmpPath
  dsimp only
  split
  next =>
    refine ⟨none, ⟨rfl, rfl, rfl, Or.inr ⟨.error 500 _, rfl, rfl⟩⟩, ?_⟩
    intro owned none
    contradiction
  next =>
    refine ⟨some (.tmp (.up st.pid st.tmpCounter)), ?_, fun owned same => (Option.some.inj same).symm⟩
    split
    next => exact (continues_hashWhenComplete sys (Or.inl rfl)).of_eq rfl rfl rfl
    next =>
      split
      next => exact ⟨rfl, rfl, rfl, Or.inr ⟨.error 500 _, rfl, rfl⟩⟩
      next => exact (continues_hashWhenComplete sys (Or.inl rfl)).of_eq rfl rfl rfl

/-- The checks of a PUT refuse it, or its body is staged. -/
inductive BeginOutcome (conf : Conf) (sys : Sys) (st : Store) (conn : Conn) (req : HttpRequest)
    (name : Bytes) (out : Store × Conn) : Prop
  | refused (reply : Reply) (status : reply.status ≠ 201) (same : out = (st, conn.respond reply))
  | staged (digest : Bytes) (declared : declaredDigest req = some digest)
      (digestValid : storeDigestIsValid digest = true) (nameValid : storeNameIsValid name = true)
      (positive : 0 < req.contentLength)
      (signed : storeNeedsSignature conf.policy name = true → signatureFound st name = true)
      (same : out = stageUpload sys st conn req name digest)

theorem BeginOutcome.error {out : Store × Conn} {status : Nat} {message : Bytes}
    (other : status ≠ 201) (same : out = (st, conn.respond (.error status message))) :
    BeginOutcome conf sys st conn req name out :=
  .refused _ other same

theorem beginUpload_outcome (conf : Conf) (sys : Sys) (st : Store) (conn : Conn)
    (req : HttpRequest) (name : Bytes) :
    BeginOutcome conf sys st conn req name (beginUpload conf sys st conn req name) := by
  unfold beginUpload
  split
  next => exact .error (by simp) rfl
  split
  next => exact .error (by simp) rfl
  next nameValid =>
    split
    next => exact .error (by simp) rfl
    next empty =>
      split
      next => exact .error (by simp) rfl
      next =>
        split
        next => exact .error (by simp) rfl
        next digest declared =>
          split
          next => exact .error (by simp) rfl
          next digestValid =>
            split
            next => exact .error (by simp) rfl
            next signed =>
              refine .staged digest declared (by simpa using digestValid)
                (by simpa using nameValid) (Nat.pos_of_ne_zero empty) ?_ rfl
              intro needs
              simpa [needs] using signed

/-- Without the signature it needs, a PUT is refused. -/
theorem beginUpload_unsigned (sys : Sys) (conn : Conn) (req : HttpRequest)
    (needs : storeNeedsSignature conf.policy name = true)
    (missing : signatureFound st name = false) :
    ∃ reply, reply.status ≠ 201 ∧
      beginUpload conf sys st conn req name = (st, conn.respond reply) := by
  cases beginUpload_outcome conf sys st conn req name with
  | refused reply status same => exact ⟨reply, status, same⟩
  | staged digest declared digestValid nameValid positive signed same =>
      have found := signed needs
      rw [missing] at found
      contradiction

theorem recvBody_files (sound : conn.Sound) (sys : Sys) (st : Store) (bytes : Bytes) :
    packagesOf (recvBody sys st conn bytes).1.files = packagesOf st.files ∧
      blobsOf (recvBody sys st conn bytes).1.files = blobsOf st.files := by
  unfold recvBody
  dsimp only
  split
  next => exact ⟨rfl, rfl⟩
  next path owned =>
    obtain ⟨tmp, rfl⟩ := sound.staged path owned
    split
    next => exact ⟨rfl, rfl⟩
    next written appended =>
      obtain ⟨_, _, rfl⟩ := append_eq_some appended
      simp

theorem recvBody_conn (flying : conn.InFlight) (sys : Sys) (st : Store) (bytes : Bytes) :
    Continues conn (recvBody sys st conn bytes).2 := by
  unfold recvBody
  dsimp only
  split
  next => exact ⟨rfl, rfl, rfl, Or.inr ⟨.error 500 _, rfl, rfl⟩⟩
  next =>
    split
    next => exact ⟨rfl, rfl, rfl, Or.inr ⟨.error 500 _, rfl, rfl⟩⟩
    next =>
      refine (continues_hashWhenComplete sys ?_).of_eq rfl rfl rfl
      exact flying

theorem publishReply_created {result : StoreResult} :
    (publishReply result).status = 201 ↔ result = .ok () := by
  cases result with
  | ok _ => simp [publishReply, Reply.plain]
  | error error => cases error <;> simp [publishReply, Reply.error]

/-- What a commit does to packages/. It answers 201 when the name meant the
digest already, or when it is linked. -/
inductive CommitOutcome (st : Store) (name digest : Bytes) (out : Store × Reply) : Prop
  | refused (status : out.2.status ≠ 201)
      (packages : packagesOf out.1.files = packagesOf st.files)
  | kept (status : out.2.status = 201) (resolved : storeResolve st name = .ok digest)
      (packages : packagesOf out.1.files = packagesOf st.files)
  | linked (canonical : Bytes) (status : out.2.status = 201)
      (form : canonicalForm name = some canonical) (valid : storeDigestIsValid digest = true)
      (free : storeResolve st name = .error .notFound)
      (packages : packagesOf out.1.files =
        Function.update (packagesOf st.files) canonical (some (.symlink (blobTarget digest))))

theorem adoptUpload_outcome (sys : Sys) (st : Store) (tmp : TmpName) (name digest : Bytes) :
    CommitOutcome st name digest (adoptUpload sys st (.tmp tmp) name digest) := by
  have untouched := storeBlobAdopt_tmp_packages sys st tmp digest
  unfold adoptUpload
  split
  next adopted error split =>
    rw [split] at untouched
    exact .refused (by simp [Reply.error]) untouched
  next adopted split =>
    rw [split] at untouched
    dsimp only at untouched ⊢
    have resolves := storeResolve_congr untouched name
    cases storePublish_outcome sys adopted name digest with
    | kept packages ok =>
        by_cases created : (storePublish sys adopted name digest).2 = .ok ()
        · rw [resolves] at ok
          exact .kept (publishReply_created.mpr created) (ok created) (packages.trans untouched)
        · exact .refused (mt publishReply_created.mp created) (packages.trans untouched)
    | linked canonical form valid present free ok packages =>
        rw [resolves] at free
        rw [untouched] at packages
        exact .linked canonical (publishReply_created.mpr ok) form valid free packages

theorem commitUpload_outcome (sys : Sys) (st : Store) (tmp : TmpName) (name digest : Bytes) :
    CommitOutcome st name digest (commitUpload sys st (.tmp tmp) name digest) := by
  unfold commitUpload
  split
  next =>
    split
    next => exact .refused (by simp [Reply.error]) (packagesOf_unlink_tmp tmp)
    next => exact adoptUpload_outcome sys st tmp name digest
  next => exact adoptUpload_outcome sys st tmp name digest
  next =>
    refine .refused ?_ (packagesOf_unlink_tmp tmp)
    show (if _ then 409 else 500) ≠ 201
    split <;> simp

/-- A name answered with 201 resolves to the digest that was committed. -/
theorem CommitOutcome.resolves {out : Store × Reply} (outcome : CommitOutcome st name digest out)
    (created : out.2.status = 201) : storeResolve out.1 name = .ok digest := by
  cases outcome with
  | refused status _ => exact absurd created status
  | kept _ resolved packages => rw [storeResolve_congr packages, resolved]
  | linked canonical _ form valid free packages =>
      exact storeResolve_linked form valid free packages

/-- The hash child's verdict refuses the body, or the upload is committed. -/
inductive FinishOutcome (sha : Sha256sum) (sys : Sys) (st : Store) (conn : Conn)
    (out : Store × Conn) : Prop
  | failed (reply : Reply) (status : reply.status ≠ 201)
      (same : out = (st, { conn with child := .none }.respond reply))
  | committed (path : Path) (digest : Bytes) (owned : conn.upPath = some path)
      (hashed : storeHashFile sha sys st path = some digest)
      (declared : strcasecmpEq digest conn.upDigest = true)
      (same : out = ((commitUpload sys st path conn.upName digest).1,
        { conn with child := .none, upPath := none }.respond
          (commitUpload sys st path conn.upName digest).2))

theorem finishUpload_outcome (sha : Sha256sum) (sys : Sys) (st : Store) (conn : Conn) :
    FinishOutcome sha sys st conn (finishUpload sha sys st conn) := by
  unfold finishUpload
  split
  next => exact .failed (.error 500 _) (by simp [Reply.error]) rfl
  next path owned =>
    split
    next => exact .failed (.error 500 _) (by simp [Reply.error]) rfl
    next digest hashed =>
      split
      next => exact .failed (.error 400 _) (by simp [Reply.error]) rfl
      next declared => exact .committed path digest owned hashed (by simpa using declared) rfl

end Push

end CixCache
