import CixCache.Lib.Run
import CixCache.Server.Dispatch

/-!
Contract: the reactor as a machine over connections and one store.

Owns: `Server`, the events the loop handles one at a time, `serverStep`, and the
two ways an event can matter to the store: what a step on one connection does,
and that every other connection stays.

An event a connection's state does not wait for changes nothing. The importer
is a process of its own: here only the flag that it runs.

Does not own: sockets, buffers of a response, timeouts (a timeout is a `close`).
-/

namespace CixCache

open CixCache.Lib

structure Server where
  store : Store
  conns : Nat → Option Conn
  importRunning : Bool

/-- A server that has accepted nothing yet. -/
def Server.start (st : Store) : Server := ⟨st, fun _ => none, false⟩

/-- What the loop can be woken for on a connection. `overlong` and `malformed`
are header blocks that `http_conn_feed` and `http_conn_try_parse` refuse. -/
inductive Input where
  | request (req : HttpRequest)
  | overlong
  | malformed
  | chunk (bytes : Bytes)
  | hashed
deriving DecidableEq

inductive ServerEvent where
  | accept (id : Nat)
  | input (id : Nat) (input : Input)
  | close (id : Nat)
  | importExit
deriving DecidableEq

/-- The connection an event is on. -/
def ServerEvent.target : ServerEvent → Option Nat
  | .accept id => some id
  | .input id _ => some id
  | .close id => some id
  | .importExit => none

/-- The end of a connection: its staging file goes with it. -/
def connClose (sys : Sys) (st : Store) (conn : Conn) : Store :=
  match conn.upPath with
  | none => st
  | some path => st.withFiles (unlink sys st.files path).1

/-- One event on one connection. -/
def connStep (conf : Conf) (sha : Sha256sum) (sys : Sys) (st : Store) (importRunning : Bool)
    (conn : Conn) (input : Input) : Dispatched :=
  match conn.state, input with
  | .readRequest, .request req => dispatch conf sys st importRunning conn req
  | .readRequest, .overlong =>
      ⟨st, importRunning, conn.respond (.error 413 (ascii "request headers too large"))⟩
  | .readRequest, .malformed =>
      ⟨st, importRunning, conn.respond (.error 400 (ascii "malformed request"))⟩
  | .recvBody, .chunk bytes =>
      let (written, received) := recvBody sys st conn bytes
      ⟨written, importRunning, received⟩
  | .hashing, .hashed =>
      if conn.child = .watched then
        let (done, answered) := finishUpload sha sys st conn
        ⟨done, importRunning, answered⟩
      else ⟨st, importRunning, conn⟩
  | _, _ => ⟨st, importRunning, conn⟩

def serverStep (conf : Conf) (sha : Sha256sum) (server : Server) (event : Sys × ServerEvent) :
    Server :=
  match event.2 with
  | .accept id =>
      match server.conns id with
      | some _ => server
      | none => { server with conns := Function.update server.conns id (some .fresh) }
  | .input id input =>
      match server.conns id with
      | none => server
      | some conn =>
          let out := connStep conf sha event.1 server.store server.importRunning conn input
          ⟨out.store, Function.update server.conns id (some out.conn), out.importRunning⟩
  | .close id =>
      match server.conns id with
      | none => server
      | some conn =>
          { server with
            store := connClose event.1 server.store conn
            conns := Function.update server.conns id none }
  | .importExit => { server with importRunning := false }

/-! ## Steps of one connection -/

section Connection

variable {conf : Conf} {sha : Sha256sum} {sys : Sys} {st : Store} {importRunning : Bool}
  {conn : Conn} {input : Input}

/-- What an event on a connection comes to. -/
inductive ConnOutcome (conf : Conf) (sha : Sha256sum) (sys : Sys) (st : Store) (conn : Conn)
    (input : Input) (out : Dispatched) : Prop
  | idle (store : out.store = st) (same : out.conn = conn)
  | answered (store : out.store = st) (reply : Answered conn out.conn)
  | dispatched (req : HttpRequest) (requested : input = .request req)
      (state : conn.state = .readRequest) (outcome : DispatchOutcome conf sys st conn req out)
  | received (bytes : Bytes) (state : conn.state = .recvBody)
      (store : out.store = (recvBody sys st conn bytes).1)
      (wrote : out.conn = (recvBody sys st conn bytes).2)
  | finished (state : conn.state = .hashing)
      (store : out.store = (finishUpload sha sys st conn).1)
      (done : out.conn = (finishUpload sha sys st conn).2)

theorem connStep_outcome (conf : Conf) (sha : Sha256sum) (sys : Sys) (st : Store)
    (importRunning : Bool) (conn : Conn) (input : Input) :
    ConnOutcome conf sha sys st conn input
      (connStep conf sha sys st importRunning conn input) := by
  unfold connStep
  split
  next req state => exact .dispatched req rfl state (dispatch_outcome conf sys st _ conn req)
  next => exact .answered rfl (answered_error (by simp) conn _)
  next => exact .answered rfl (answered_error (by simp) conn _)
  next bytes state => exact .received bytes state rfl rfl
  next state =>
    split
    next => exact .finished state rfl rfl
    next => exact .idle rfl rfl
  next => exact .idle rfl rfl

theorem Answered.sound {before after : Conn} (answered : Answered before after)
    (sound : before.Sound) : after.Sound := by
  obtain ⟨reply, _, rfl⟩ := answered
  exact sound.respond reply

theorem stageUpload_sound {req : HttpRequest} {digest : Bytes} (name : Bytes)
    (valid : storeDigestIsValid digest = true) :
    (stageUpload sys st conn req name digest).2.Sound := by
  obtain ⟨path, continues, owned⟩ := stageUpload_conn sys st conn req name digest
  apply continues.sound
  · intro staged same
    exact ⟨_, owned staged same⟩
  · exact valid

theorem finishUpload_sound (sound : conn.Sound) : (finishUpload sha sys st conn).2.Sound := by
  cases finishUpload_outcome sha sys st conn with
  | failed reply status same =>
      rw [same]
      constructor
      · exact sound.staged
      · intro flying
        rcases flying with receiving | hashing <;> contradiction
  | committed path digest owned hashed declared same =>
      rw [same]
      constructor
      · intro path none
        contradiction
      · intro flying
        rcases flying with receiving | hashing <;> contradiction

theorem connStep_sound (sound : conn.Sound) :
    (connStep conf sha sys st importRunning conn input).conn.Sound := by
  cases connStep_outcome conf sha sys st importRunning conn input with
  | idle store same =>
      rw [same]
      exact sound
  | answered store reply => exact reply.sound sound
  | dispatched req requested state outcome =>
      cases outcome with
      | answered store reply => exact reply.sound sound
      | withdrawn path named method store reply => exact reply.sound sound
      | collected dryRun asked store reply => exact reply.sound sound
      | uploaded path named method store begun =>
          cases beginUpload_outcome conf sys st conn req (path.drop 1) with
          | refused reply status same =>
              rw [begun, same]
              exact sound.respond reply
          | staged digest declared digestValid nameValid positive signed same =>
              rw [begun, same]
              exact stageUpload_sound _ digestValid
  | received bytes state store wrote =>
      rw [wrote]
      have flying : conn.InFlight := Or.inl state
      exact (recvBody_conn flying sys st bytes).sound sound.staged (sound.declared flying)
  | finished state store done =>
      rw [done]
      exact finishUpload_sound sound

end Connection

/-! ## Steps of the server -/

/-- Every connection is sound. -/
def Server.Sound (server : Server) : Prop :=
  ∀ id conn, server.conns id = some conn → conn.Sound

theorem Server.sound_start (st : Store) : (Server.start st).Sound := by
  intro id conn present
  contradiction

section Reactor

variable {conf : Conf} {sha : Sha256sum} {server : Server} {event : Sys × ServerEvent}

theorem Server.Sound.update (sound : server.Sound) {id : Nat} {slot : Option Conn}
    (fits : ∀ conn, slot = some conn → conn.Sound) :
    ∀ other conn, Function.update server.conns id slot other = some conn → conn.Sound := by
  intro other conn present
  by_cases same : other = id
  · rw [same, Function.update_self] at present
    exact fits conn present
  · rw [Function.update_of_ne same] at present
    exact sound other conn present

theorem serverStep_sound (sound : server.Sound) : (serverStep conf sha server event).Sound := by
  unfold serverStep
  split
  next id _ =>
    split
    next => exact sound
    next =>
      apply sound.update
      intro conn same
      rw [← Option.some.inj same]
      exact Conn.sound_fresh
  next id input _ =>
    split
    next => exact sound
    next conn present =>
      apply sound.update
      intro after same
      rw [← Option.some.inj same]
      exact connStep_sound (sound id conn present)
  next id =>
    split
    next => exact sound
    next =>
      apply sound.update
      intro conn none
      contradiction
  next => exact sound

theorem run_sound (conf : Conf) (sha : Sha256sum) {server : Server} (sound : server.Sound)
    (events : List (Sys × ServerEvent)) : (run (serverStep conf sha) server events).Sound := by
  have along : Along (fun _ _ => True) (serverStep conf sha) server events :=
    along_of_forall fun _ _ _ => trivial
  exact run_invariant (motive := Server.Sound) (fun _ _ held _ => serverStep_sound held) sound along

/-- What a step of the server does to packages/: nothing, a withdrawal by a
DELETE, or one new link by a commit. -/
inductive StepEffect (conf : Conf) (sha : Sha256sum) (server : Server)
    (event : Sys × ServerEvent) : Prop
  | kept (packages : packagesOf (serverStep conf sha server event).store.files =
      packagesOf server.store.files)
  | withdrawn (id : Nat) (req : HttpRequest) (path : Bytes)
      (requested : event.2 = .input id (.request req)) (method : req.method = ascii "DELETE")
      (named : dispatchPath req = some path)
      (store : (serverStep conf sha server event).store =
        (storeUnpublish event.1 server.store (path.drop 1)).store)
  | linked (id : Nat) (conn : Conn) (canonical digest : Bytes)
      (present : server.conns id = some conn) (state : conn.state = .hashing)
      (form : canonicalForm conn.upName = some canonical)
      (valid : storeDigestIsValid digest = true)
      (free : storeResolve server.store conn.upName = .error .notFound)
      (packages : packagesOf (serverStep conf sha server event).store.files =
        Function.update (packagesOf server.store.files) canonical
          (some (.symlink (blobTarget digest))))

theorem connClose_packages {conn : Conn} (sound : conn.Sound) (sys : Sys) (st : Store) :
    packagesOf (connClose sys st conn).files = packagesOf st.files := by
  unfold connClose
  split
  next => rfl
  next path owned =>
    obtain ⟨tmp, rfl⟩ := sound.staged path owned
    exact packagesOf_unlink_tmp tmp

theorem serverStep_input (conf : Conf) (sha : Sha256sum) {id : Nat} {input : Input} {conn : Conn}
    (woken : event.2 = .input id input) (present : server.conns id = some conn) :
    serverStep conf sha server event =
      ⟨(connStep conf sha event.1 server.store server.importRunning conn input).store,
        Function.update server.conns id
          (some (connStep conf sha event.1 server.store server.importRunning conn input).conn),
        (connStep conf sha event.1 server.store server.importRunning conn input).importRunning⟩ := by
  unfold serverStep
  rw [woken]
  dsimp only
  rw [present]

/-- Every other connection stays. -/
theorem serverStep_conns_of_ne {id : Nat} (other : event.2.target ≠ some id) :
    (serverStep conf sha server event).conns id = server.conns id := by
  obtain ⟨sys, woken⟩ := event
  unfold serverStep
  cases woken with
  | importExit => rfl
  | accept target =>
      have different : id ≠ target := fun same => other (by rw [same]; rfl)
      dsimp only
      split
      next => rfl
      next => exact Function.update_of_ne different _ _
  | close target =>
      have different : id ≠ target := fun same => other (by rw [same]; rfl)
      dsimp only
      split
      next => rfl
      next => exact Function.update_of_ne different _ _
  | input target input =>
      have different : id ≠ target := fun same => other (by rw [same]; rfl)
      dsimp only
      split
      next => rfl
      next => exact Function.update_of_ne different _ _

theorem serverStep_effect (conf : Conf) (sha : Sha256sum) (sound : server.Sound)
    (event : Sys × ServerEvent) :
    StepEffect conf sha server event := by
  obtain ⟨sys, woken⟩ := event
  cases woken with
  | accept id =>
      apply StepEffect.kept
      unfold serverStep
      dsimp only
      split <;> rfl
  | importExit => exact .kept rfl
  | close id =>
      apply StepEffect.kept
      unfold serverStep
      dsimp only
      split
      next => rfl
      next conn present => exact connClose_packages (sound id conn present) sys server.store
  | input id input =>
      cases present : server.conns id with
      | none =>
          apply StepEffect.kept
          unfold serverStep
          dsimp only
          rw [present]
      | some conn =>
          have woken : (sys, ServerEvent.input id input).2 = .input id input := rfl
          have stepped := serverStep_input conf sha woken present
          have connSound := sound id conn present
          cases connStep_outcome conf sha sys server.store server.importRunning conn input with
          | idle store same =>
              apply StepEffect.kept
              rw [stepped, store]
          | answered store reply =>
              apply StepEffect.kept
              rw [stepped, store]
          | dispatched req requested state outcome =>
              cases outcome with
              | answered store reply =>
                  apply StepEffect.kept
                  rw [stepped, store]
              | withdrawn path named method store reply =>
                  apply StepEffect.withdrawn id req path (by rw [requested]) method named
                  rw [stepped, store]
              | collected dryRun asked store reply =>
                  apply StepEffect.kept
                  rw [stepped, store]
                  exact storeGc_packages sys server.store dryRun
              | uploaded path named method store begun =>
                  apply StepEffect.kept
                  rw [stepped, store]
                  cases beginUpload_outcome conf sys server.store conn req (path.drop 1) with
                  | refused reply status same => rw [same]
                  | staged digest declared digestValid nameValid positive signed same =>
                      rw [same]
                      exact (stageUpload_packages ..).1
          | received bytes state store wrote =>
              apply StepEffect.kept
              rw [stepped, store]
              exact (recvBody_files connSound sys server.store bytes).1
          | finished state store done =>
              cases finishUpload_outcome sha sys server.store conn with
              | failed reply status same =>
                  apply StepEffect.kept
                  rw [stepped, store, same]
              | committed path digest owned hashed declared same =>
                  obtain ⟨tmp, rfl⟩ := connSound.staged path owned
                  rw [same] at store
                  cases commitUpload_outcome sys server.store tmp conn.upName digest with
                  | refused status packages =>
                      apply StepEffect.kept
                      rw [stepped, store, packages]
                  | kept status resolved packages =>
                      apply StepEffect.kept
                      rw [stepped, store, packages]
                  | linked canonical status form valid free packages =>
                      apply StepEffect.linked id conn canonical digest present state form valid free
                      rw [stepped, store, packages]

/-- The event answers 201 to the PUT of a name that declared a digest. -/
def Created (conf : Conf) (sha : Sha256sum) (server : Server) (event : Sys × ServerEvent)
    (name digest : Bytes) : Prop :=
  ∃ id conn answered, server.conns id = some conn ∧ conn.status = none ∧
    (serverStep conf sha server event).conns id = some answered ∧ answered.status = some 201 ∧
    answered.upName = name ∧ answered.upDigest = digest

theorem created_of_answers {conf : Conf} {sha : Sha256sum} {server : Server}
    {event : Sys × ServerEvent} (id : Nat) {name digest : Bytes}
    (before : (server.conns id).map Conn.status = some none)
    (after : ((serverStep conf sha server event).conns id).map
      (fun conn => (conn.status, conn.upName, conn.upDigest)) = some (some 201, name, digest)) :
    Created conf sha server event name digest := by
  obtain ⟨conn, present, unanswered⟩ := Option.map_eq_some_iff.mp before
  obtain ⟨answered, there, facts⟩ := Option.map_eq_some_iff.mp after
  obtain ⟨status, named, declared⟩ := Prod.mk.inj facts |>.imp_right Prod.mk.inj
  exact ⟨id, conn, answered, present, unanswered, there, status, named, declared⟩

/-- The commit that answers 201. -/
structure Commits (sha : Sha256sum) (sys : Sys) (st : Store) (conn : Conn) (tmp : TmpName)
    (after : Store) : Prop where
  state : conn.state = .hashing
  owned : conn.upPath = some (.tmp tmp)
  hashed : storeHashFile sha sys st (.tmp tmp) = some conn.upDigest
  store : after = (commitUpload sys st (.tmp tmp) conn.upName conn.upDigest).1
  status : (commitUpload sys st (.tmp tmp) conn.upName conn.upDigest).2.status = 201

theorem Answered.not_created {before after : Conn} (answered : Answered before after) :
    after.status ≠ some 201 := by
  obtain ⟨reply, other, rfl⟩ := answered
  intro same
  exact other (Option.some.inj same)

theorem Continues.not_created {before after : Conn} (continues : Continues before after) :
    after.status ≠ some 201 := by
  unfold Conn.status
  rcases continues.state with flying | ⟨reply, status, same⟩
  · rcases flying with receiving | hashing
    · rw [receiving]
      simp
    · rw [hashing]
      simp
  · rw [same]
    simp [status]

/-- Only a commit answers 201. -/
theorem connStep_created {sys : Sys} {st : Store} {importRunning : Bool} {conn : Conn}
    {input : Input} (sound : conn.Sound) (unanswered : conn.status = none)
    (created : (connStep conf sha sys st importRunning conn input).conn.status = some 201) :
    (∃ tmp, Commits sha sys st conn tmp
        (connStep conf sha sys st importRunning conn input).store) ∧
      (connStep conf sha sys st importRunning conn input).conn.upName = conn.upName ∧
      (connStep conf sha sys st importRunning conn input).conn.upDigest = conn.upDigest := by
  cases connStep_outcome conf sha sys st importRunning conn input with
  | idle store same =>
      rw [same, unanswered] at created
      contradiction
  | answered store answer => exact absurd created answer.not_created
  | dispatched req requested state outcome =>
      cases outcome with
      | answered store answer => exact absurd created answer.not_created
      | withdrawn path named method store answer => exact absurd created answer.not_created
      | collected dryRun asked store answer => exact absurd created answer.not_created
      | uploaded path named method store begun =>
          rw [begun] at created
          cases beginUpload_outcome conf sys st conn req (path.drop 1) with
          | refused refusal other same =>
              rw [same] at created
              exact absurd (Option.some.inj created) other
          | staged digest declared digestValid nameValid positive signed same =>
              obtain ⟨_, continues, _⟩ := stageUpload_conn sys st conn req (path.drop 1) digest
              rw [same] at created
              exact absurd created continues.not_created
  | received bytes state store wrote =>
      rw [wrote] at created
      exact absurd created (recvBody_conn (Or.inl state) sys st bytes).not_created
  | finished state store done =>
      cases finishUpload_outcome sha sys st conn with
      | failed refusal other same =>
          rw [done, same] at created
          exact absurd (Option.some.inj created) other
      | committed path digest owned hashed declared same =>
          obtain ⟨tmp, rfl⟩ := sound.staged path owned
          have equal : digest = conn.upDigest :=
            eq_of_strcasecmpEq (storeHashFile_some hashed).1 (sound.declared (Or.inr state)) declared
          rw [equal] at hashed same
          rw [done, same] at created
          refine ⟨⟨tmp, state, owned, hashed, by rw [store, same], Option.some.inj created⟩, ?_, ?_⟩
          · rw [done, same]
            rfl
          · rw [done, same]
            rfl

theorem Created.committed (sound : server.Sound) {name digest : Bytes}
    (created : Created conf sha server event name digest) :
    ∃ id conn tmp, server.conns id = some conn ∧ conn.upName = name ∧ conn.upDigest = digest ∧
      Commits sha event.1 server.store conn tmp (serverStep conf sha server event).store := by
  obtain ⟨id, conn, answered, present, unanswered, after, status, rfl, rfl⟩ := created
  -- The event is on this connection: another would have left it unanswered.
  have target : event.2.target = some id := by
    by_contra other
    rw [serverStep_conns_of_ne other, present] at after
    rw [Option.some.inj after, status] at unanswered
    contradiction
  obtain ⟨sys, woken⟩ := event
  cases woken with
  | accept other =>
      obtain rfl := Option.some.inj target
      have same : serverStep conf sha server (sys, .accept other) = server := by
        unfold serverStep
        dsimp only
        rw [present]
      rw [same, present] at after
      rw [Option.some.inj after, status] at unanswered
      contradiction
  | importExit => contradiction
  | close other =>
      obtain rfl := Option.some.inj target
      unfold serverStep at after
      dsimp only at after
      rw [present] at after
      dsimp only at after
      rw [Function.update_self] at after
      contradiction
  | input other input =>
      obtain rfl := Option.some.inj target
      have woken : (sys, ServerEvent.input other input).2 = .input other input := rfl
      rw [serverStep_input conf sha woken present] at after ⊢
      dsimp only at after
      rw [Function.update_self] at after
      obtain rfl := Option.some.inj after
      obtain ⟨⟨tmp, commits⟩, name, digest⟩ :=
        connStep_created (sound other conn present) unanswered status
      exact ⟨other, conn, tmp, present, name.symm, digest.symm, commits⟩

end Reactor

/-! ### Sample requests -/

/-- An installation without tokens, under the initial policy. -/
def Conf.sample : Conf where
  pushToken := []
  pullToken := []
  policy := initialPolicy
  webRoot := ascii "/usr/share/cix-cache/web"
  webFiles := fun _ => none

def putRequest (name declared body : Bytes) : HttpRequest where
  method := ascii "PUT"
  path := slash :: name
  contentLength := body.length
  headers :=
    ascii "PUT /" ++ name ++ ascii " HTTP/1.1\r\nX-Cix-Sha256: " ++ declared ++ ascii "\r\n"
  body := body

def deleteRequest (name : Bytes) : HttpRequest where
  method := ascii "DELETE"
  path := slash :: name
  contentLength := 0
  headers := ascii "DELETE /" ++ name ++ ascii " HTTP/1.1\r\n"
  body := []

/-- The same events with every call succeeding. -/
def calmly (events : List ServerEvent) : List (Sys × ServerEvent) :=
  events.map fun event => (Sys.succeeding fun _ => none, event)

/-- A PUT whose body comes with its headers, to its answer. -/
def putEvents (id : Nat) (name body : Bytes) : List ServerEvent :=
  [.accept id, .input id (.request (putRequest name (Sha256sum.sample.digest body) body)),
    .input id .hashed]

end CixCache
