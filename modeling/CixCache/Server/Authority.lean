import CixCache.Server.Handlers
import CixCache.Server.Reading

/-!
Contract: what the push token guards.

Owns: `Privilege`, what only the holder of the push token may learn or start, and
the routing of requests with the privileges they are given; `Wire`, the reactor over
connections that are read from; and what requests without the token come to.

Does not own: what a request with the token does.
-/

namespace CixCache

open CixCache.Lib

/-! ## Functions of the source -/

/-- What a response can disclose, and the importer that a request can start. -/
inductive Privilege where
  | activityLog
  | importStatus
  | gcReport
  | storeRoot
  | importer
deriving DecidableEq

abbrev Privileged := Traced Privilege

/-- `api_status`: where the store lives is told to an operator only. -/
def apiStatusPrivileged (conf : Conf) (conn : Conn) (req : HttpRequest) : Privileged Conn :=
  if bearerOk req conf.pushToken then .perform .storeRoot (conn.respond (.json .document))
  else pure (conn.respond (.json .document))

def apiLogPrivileged (conn : Conn) : Privileged Conn :=
  .perform .activityLog (conn.respond (.json .document))

def apiImportStatusPrivileged (conn : Conn) : Privileged Conn :=
  .perform .importStatus (conn.respond (.json .document))

def apiGcPrivileged (sys : Sys) (st : Store) (conn : Conn) (dryRun : Bool) :
    Privileged (Store × Conn) :=
  match storeGc sys st dryRun with
  | (swept, none) => pure (swept, conn.respond (.error 500 (ascii "garbage collection failed")))
  | (swept, some report) =>
      .perform .gcReport
        (swept, conn.respond (.json (.gcReport dryRun report.removed report.freed)))

def apiImportStartPrivileged (sys : Sys) (importRunning : Bool) (conn : Conn) :
    Privileged (Bool × Conn) :=
  if importRunning then pure (apiImportStart sys importRunning conn)
  else if sys.allows .fork = false then pure (apiImportStart sys importRunning conn)
  -- The forked child imports whether or not the parent comes to watch it.
  else .perform .importer (apiImportStart sys importRunning conn)

/-- The handlers with the privileges they give. -/
def privilegeHandlers : Handlers Privilege where
  apiStatus := apiStatusPrivileged
  apiLog := apiLogPrivileged
  apiImportStatus := apiImportStatusPrivileged
  apiGc := apiGcPrivileged
  apiImportStart := apiImportStartPrivileged
  apiStatus_value := by
    intro conf conn req
    unfold apiStatusPrivileged
    split <;> rfl
  apiGc_value := by
    intro sys st conn dryRun
    unfold apiGcPrivileged apiGc
    rcases storeGc sys st dryRun with ⟨swept, report⟩
    cases report <;> rfl
  apiImportStart_value := by
    intro sys importRunning conn
    unfold apiImportStartPrivileged
    split
    next => rfl
    next => split <;> rfl

def serverStepPrivileged (conf : Conf) (sha : Sha256sum) (server : Server)
    (event : Sys × ServerEvent) : Privileged Server :=
  privilegeHandlers.serverStep conf sha server event

/-! ## The reactor over reads -/

/-- The reactor and the buffers of its connections. -/
structure Wire where
  server : Server
  https : Nat → HttpConn

inductive WireEvent where
  | accept (id : Nat)
  | read (id : Nat) (bytes : Bytes)
  | hashed (id : Nat)
  | close (id : Nat)
  | importExit
deriving DecidableEq

/-- The buffers after an event, and what the reactor is woken with. -/
def Wire.feed (wire : Wire) : WireEvent → (Nat → HttpConn) × Option ServerEvent
  | .accept id =>
      match wire.server.conns id with
      | some _ => (wire.https, none)
      | none => (Function.update wire.https id .init, some (.accept id))
  | .read id bytes =>
      match wire.server.conns id with
      | none => (wire.https, none)
      | some conn =>
          let (http, input) := handleRead (wire.https id) conn.state bytes
          (Function.update wire.https id http, input.map (.input id))
  | .hashed id => (wire.https, some (.input id .hashed))
  | .close id => (wire.https, some (.close id))
  | .importExit => (wire.https, some .importExit)

def wireStep (conf : Conf) (sha : Sha256sum) (wire : Wire) (event : Sys × WireEvent) : Wire :=
  match wire.feed event.2 with
  | (https, none) => ⟨wire.server, https⟩
  | (https, some woken) => ⟨serverStep conf sha wire.server (event.1, woken), https⟩

def wireStepPrivileged (conf : Conf) (sha : Sha256sum) (wire : Wire) (event : Sys × WireEvent) :
    Privileged Wire :=
  match wire.feed event.2 with
  | (https, none) => pure ⟨wire.server, https⟩
  | (https, some woken) => do
      let server ← serverStepPrivileged conf sha wire.server (event.1, woken)
      pure ⟨server, https⟩

/-- Without the privileges it gives, a step over reads is the reactor's. -/
theorem wireStepPrivileged_value (conf : Conf) (sha : Sha256sum) (wire : Wire)
    (event : Sys × WireEvent) :
    (wireStepPrivileged conf sha wire event).value = wireStep conf sha wire event := by
  unfold wireStepPrivileged wireStep
  rcases wire.feed event.2 with ⟨https, woken⟩
  cases woken with
  | none => rfl
  | some woken =>
      dsimp only
      rw [Traced.value_bind, serverStepPrivileged, privilegeHandlers.serverStep_value]
      rfl

/-! ## Headers -/

theorem trimBlanks_within (text : Bytes) : trimBlanks text <:+: text := by
  have trailing : trimBlanks text <+: text.dropWhile isBlank := by
    unfold trimBlanks
    rw [← List.reverse_suffix, List.reverse_reverse]
    exact List.dropWhile_suffix _
  exact trailing.isInfix.trans (List.dropWhile_suffix _).isInfix

theorem findHeaderLine_within {name : Bytes} {outSize fuel : Nat} {text value : Bytes}
    (found : findHeaderLine name outSize fuel text = some value) : value <:+: text := by
  induction fuel generalizing text with
  | zero => contradiction
  | succ fuel inductionHypothesis =>
      cases text with
      | nil => contradiction
      | cons c rest =>
          have later : ((c :: rest).dropWhile fun c => c ≠ carriageReturn).drop 2 <:+: c :: rest :=
            ((List.drop_suffix _ _).trans (List.dropWhile_suffix _)).isInfix
          unfold findHeaderLine at found
          dsimp only at found
          split at found
          next =>
            split at found
            next =>
              split at found
              next => contradiction
              next =>
                rw [← Option.some.inj found]
                apply (trimBlanks_within _).trans
                apply ((List.drop_suffix _ _).trans (List.dropWhile_suffix _)).isInfix.trans
                exact (List.takeWhile_prefix _).isInfix
            next => exact (inductionHypothesis found).trans later
          next => exact (inductionHypothesis found).trans later

theorem skipRequestLine_suffix {text lines : Bytes} (skipped : skipRequestLine text = some lines) :
    lines <:+ text := by
  induction text with
  | nil => contradiction
  | cons first rest inductionHypothesis =>
      cases rest with
      | nil => contradiction
      | cons second tail =>
          rw [skipRequestLine] at skipped
          split at skipped
          next =>
            rw [← Option.some.inj skipped]
            exact (List.suffix_cons second tail).trans (List.suffix_cons first _)
          next => exact (inductionHypothesis skipped).trans (List.suffix_cons first _)

/-- A header value is a part of the header block. -/
theorem httpFindHeader_within {headers name value : Bytes} {outSize : Nat}
    (found : httpFindHeader headers name outSize = some value) : value <:+: headers := by
  unfold httpFindHeader at found
  split at found
  next => contradiction
  next lines skipped =>
    exact (findHeaderLine_within found).trans (skipRequestLine_suffix skipped).isInfix

/-- Without the token somewhere in the headers there is no authorisation. -/
theorem bearerOk_tokenless {req : HttpRequest} {token : Bytes} (configured : token ≠ [])
    (absent : ¬ token <:+: req.headers) : bearerOk req token = false := by
  unfold bearerOk
  rw [if_neg configured]
  split
  next => rfl
  next header found =>
    dsimp only
    rw [beq_eq_false_iff_ne]
    intro same
    apply absent
    have value : cString header <:+: req.headers :=
      (List.takeWhile_prefix _).isInfix.trans (httpFindHeader_within found)
    rw [← same]
    split
    next => exact (List.drop_suffix _ _).isInfix.trans value
    next => exact value

/-! ## Requests without the token -/

/-- No upload is in progress, down to a staging file that a closing connection
would remove, and no import runs. -/
structure Server.Quiet (server : Server) : Prop where
  uploads : ∀ id conn, server.conns id = some conn → ¬ conn.InFlight ∧ conn.upPath = none
  importer : server.importRunning = false

/-- The header block of a connection, once it is complete. -/
def HttpConn.headerBlock (http : HttpConn) : Option Bytes :=
  http.headersEnd.map fun headersEnd => http.buf.take headersEnd

/-- The header block a read completes does not contain the push token. -/
def Tokenless (conf : Conf) (wire : Wire) (event : Sys × WireEvent) : Prop :=
  ∀ id bytes, event.2 = .read id bytes →
    ∀ block, (httpConnFeed (wire.https id) bytes).1.headerBlock = some block →
      ¬ conf.pushToken <:+: block

/-- An event whose request, if it is one, is not authorised. -/
def Unauthorised (conf : Conf) (event : ServerEvent) : Prop :=
  ∀ id req, event = .input id (.request req) → bearerOk req conf.pushToken = false

section Unauthorised

variable {conf : Conf} {sha : Sha256sum} {sys : Sys} {st : Store} {importRunning : Bool}
  {conn : Conn} {req : HttpRequest}

/-- A request is answered and changes nothing else. -/
structure OnlyAnswers (st : Store) (importRunning : Bool) (conn : Conn) (out : Dispatched) : Prop where
  store : out.store = st
  importer : out.importRunning = importRunning
  answered : ∃ reply, out.conn = conn.respond reply

theorem onlyAnswers_respond (reply : Reply) :
    OnlyAnswers st importRunning conn ⟨st, importRunning, conn.respond reply⟩ :=
  ⟨rfl, rfl, reply, rfl⟩

theorem dispatchArtifact_unauthorised (name : Bytes)
    (denied : bearerOk req conf.pushToken = false) :
    OnlyAnswers st importRunning conn
      (dispatchArtifact conf sys st importRunning conn req name) := by
  unfold dispatchArtifact
  split
  next => exact onlyAnswers_respond _
  split
  next =>
    have served : Answered conn
        (serveArtifact conf st conn req name (decide (req.method = ascii "HEAD"))) :=
      serveArtifact_answered conf st conn req name _
    obtain ⟨reply, _, answered⟩ := served
    exact ⟨rfl, rfl, reply, answered⟩
  split
  next =>
    rw [beginUpload, if_pos denied]
    exact onlyAnswers_respond _
  split
  next =>
    rw [deleteArtifact, if_pos denied]
    exact onlyAnswers_respond _
  next => exact onlyAnswers_respond _

theorem dispatchApi_unauthorised (endpoint : Bytes) (denied : bearerOk req conf.pushToken = false) :
    OnlyAnswers st importRunning conn
      (dispatchApi conf sys st importRunning conn req endpoint) := by
  have closed : ¬ bearerOk req conf.pushToken = true := by simp [denied]
  unfold dispatchApi
  simp only [if_neg closed]
  split
  next => exact onlyAnswers_respond _
  split
  next => exact onlyAnswers_respond _
  split
  next => exact onlyAnswers_respond _
  split
  next => exact onlyAnswers_respond _
  split
  next => exact onlyAnswers_respond _
  split
  next => exact onlyAnswers_respond _
  next => exact onlyAnswers_respond _

theorem dispatch_unauthorised (denied : bearerOk req conf.pushToken = false) :
    OnlyAnswers st importRunning conn (dispatch conf sys st importRunning conn req) := by
  unfold dispatch
  split
  next => exact onlyAnswers_respond _
  next path named =>
    split
    next => exact dispatchArtifact_unauthorised _ denied
    split
    next => exact onlyAnswers_respond _
    split
    next => exact dispatchApi_unauthorised _ denied
    split
    next =>
      have served : Answered conn
          (serveStatic conf conn path (decide (req.method = ascii "HEAD"))) :=
        serveStatic_answered conf conn path _
      obtain ⟨reply, _, answered⟩ := served
      exact ⟨rfl, rfl, reply, answered⟩
    next => exact onlyAnswers_respond _

/-- Nothing is disclosed without the token. -/
theorem dispatchPrivileged_unauthorised (denied : bearerOk req conf.pushToken = false) :
    Traced.Only (fun _ => False)
      (privilegeHandlers.dispatch conf sys st importRunning conn req) := by
  have closed : ¬ bearerOk req conf.pushToken = true := by simp [denied]
  apply Handlers.dispatch_only
  · intro name
    apply Handlers.dispatchArtifact_only <;> intros <;> exact Traced.only_pure _
  · constructor
    case apiStatus =>
      show Traced.Only _ (apiStatusPrivileged conf conn req)
      rw [apiStatusPrivileged, if_neg closed]
      exact Traced.only_pure _
    all_goals intro operator
    all_goals exact absurd operator closed
  · intro path headOnly
    exact Traced.only_pure _

/-- What an event on a connection without an upload comes to. -/
theorem connStep_unauthorised {input : Input} (idle : ¬ conn.InFlight)
    (denied : ∀ req, input = .request req → bearerOk req conf.pushToken = false)
    (sha : Sha256sum) (sys : Sys) (st : Store) (importRunning : Bool) :
    let out := connStep conf sha sys st importRunning conn input
    out.store = st ∧ out.importRunning = importRunning ∧
      (out.conn = conn ∨ ∃ reply, out.conn = conn.respond reply) := by
  unfold connStep
  split
  next req waiting =>
    have answers : OnlyAnswers st importRunning conn
        (dispatch conf sys st importRunning conn req) := dispatch_unauthorised (denied req rfl)
    exact ⟨answers.store, answers.importer, Or.inr answers.answered⟩
  next => exact ⟨rfl, rfl, Or.inr ⟨_, rfl⟩⟩
  next => exact ⟨rfl, rfl, Or.inr ⟨_, rfl⟩⟩
  next receiving => exact absurd (Or.inl receiving) idle
  next hashing => exact absurd (Or.inr hashing) idle
  next => exact ⟨rfl, rfl, Or.inl rfl⟩

end Unauthorised

section Runs

variable {conf : Conf} {sha : Sha256sum}

theorem Server.Quiet.update {server : Server} (quiet : server.Quiet) {id : Nat} {slot : Option Conn}
    (idle : ∀ conn, slot = some conn → ¬ conn.InFlight ∧ conn.upPath = none) :
    ∀ other conn, Function.update server.conns id slot other = some conn →
      ¬ conn.InFlight ∧ conn.upPath = none := by
  intro other conn present
  by_cases same : other = id
  · rw [same, Function.update_self] at present
    exact idle conn present
  · rw [Function.update_of_ne same] at present
    exact quiet.uploads other conn present

/-- A quiet reactor that is woken without authorisation stays quiet and keeps its
store. -/
theorem serverStep_unauthorised {server : Server} (quiet : server.Quiet)
    {event : Sys × ServerEvent} (denied : Unauthorised conf event.2) :
    (serverStep conf sha server event).store = server.store ∧
      (serverStep conf sha server event).Quiet := by
  unfold serverStep
  split
  next id _ =>
    split
    next => exact ⟨rfl, quiet⟩
    next =>
      refine ⟨rfl, quiet.update ?_, quiet.importer⟩
      intro conn same
      rw [← Option.some.inj same]
      refine ⟨?_, rfl⟩
      rintro (receiving | hashing) <;> contradiction
  next id input woken =>
    split
    next => exact ⟨rfl, quiet⟩
    next conn present =>
      obtain ⟨idle, unstaged⟩ := quiet.uploads id conn present
      have denies : ∀ req, input = .request req → bearerOk req conf.pushToken = false :=
        fun req same => denied id req (by rw [woken, same])
      have step := connStep_unauthorised idle denies
      obtain ⟨store, importer, out⟩ :=
        step sha event.1 server.store server.importRunning
      refine ⟨store, quiet.update ?_, importer.trans quiet.importer⟩
      intro after same
      rw [← Option.some.inj same]
      rcases out with stays | answered
      · rw [stays]
        exact ⟨idle, unstaged⟩
      · obtain ⟨reply, answer⟩ := answered
        rw [answer]
        refine ⟨?_, unstaged⟩
        rintro (receiving | hashing) <;> contradiction
  next id _ =>
    split
    next => exact ⟨rfl, quiet⟩
    next conn present =>
      have unstaged := (quiet.uploads id conn present).2
      refine ⟨?_, quiet.update (by intro other none; contradiction), quiet.importer⟩
      show connClose event.1 server.store conn = server.store
      rw [connClose, unstaged]
  next => exact ⟨rfl, quiet.uploads, rfl⟩

theorem serverStepPrivileged_unauthorised {server : Server} {event : Sys × ServerEvent}
    (denied : Unauthorised conf event.2) :
    Traced.Only (fun _ => False) (serverStepPrivileged conf sha server event) := by
  apply Handlers.serverStep_only
  · intro id input conn woken _
    apply Handlers.connStep_only
    · intro req same
      exact dispatchPrivileged_unauthorised (denied id req (by rw [woken, same]))
    · intro bytes
      exact Traced.only_pure _
    · exact Traced.only_pure _
  · intro id conn _
    exact Traced.only_pure _

/-- A parsed request's headers are a part of the header block. -/
theorem headers_of_parsed {http : HttpConn} {req : HttpRequest}
    (parsed : httpConnTryParse http = .complete req) :
    ∃ block, http.headerBlock = some block ∧ req.headers <:+: block := by
  unfold httpConnTryParse at parsed
  split at parsed
  next => contradiction
  next headersEnd complete =>
    refine ⟨http.buf.take headersEnd, by rw [HttpConn.headerBlock, complete]; rfl, ?_⟩
    have earlier : http.buf.take (headersEnd - 4) <+: http.buf.take headersEnd :=
      List.take_prefix_take_left (by omega)
    split at parsed
    next => contradiction
    next =>
      split at parsed
      next => contradiction
      next =>
        dsimp only at parsed
        split at parsed
        next => contradiction
        next =>
          rw [← Parsed.complete.inj parsed]
          exact earlier.isInfix

/-- A request is read off the header block that the read completes. -/
theorem handleRead_request {http : HttpConn} {state : ConnState} {bytes : Bytes}
    {req : HttpRequest} (read : (handleRead http state bytes).2 = some (.request req)) :
    ∃ block, (httpConnFeed http bytes).1.headerBlock = some block ∧ req.headers <:+: block := by
  unfold handleRead at read
  split at read
  next => simp at read
  next =>
    split at read
    next => simp at read
    next fed fits =>
      split at read
      next => simp at read
      next => simp at read
      next other parsed =>
        have same : other = req := by simpa using read
        rw [fits]
        exact same ▸ headers_of_parsed parsed
  next => simp at read

/-- A read that completes no header block with the token wakes the reactor with
nothing authorised. -/
theorem feed_unauthorised (configured : conf.pushToken ≠ []) {wire : Wire}
    {event : Sys × WireEvent} (tokenless : Tokenless conf wire event) {https : Nat → HttpConn}
    {woken : ServerEvent} (fed : wire.feed event.2 = (https, some woken)) :
    Unauthorised conf woken := by
  intro id req same
  rw [same] at fed
  unfold Wire.feed at fed
  split at fed
  next other _ => split at fed <;> simp at fed
  next other bytes isRead =>
    split at fed
    next => simp at fed
    next conn present =>
      have delivered : (handleRead (wire.https other) conn.state bytes).2.map (.input other) =
          some (ServerEvent.input id (.request req)) := congrArg Prod.snd fed
      obtain ⟨input, read, isInput⟩ := Option.map_eq_some_iff.mp delivered
      injection isInput with sameId isRequest
      rw [isRequest] at read
      obtain ⟨block, complete, headers⟩ := handleRead_request read
      apply bearerOk_tokenless configured
      intro inside
      exact tokenless other bytes isRead block complete (inside.trans headers)
  next => simp at fed
  next => simp at fed
  next => simp at fed

/-- One step without the token. -/
theorem wireStep_tokenless (sha : Sha256sum) (configured : conf.pushToken ≠ []) {wire : Wire}
    (quiet : wire.server.Quiet) {event : Sys × WireEvent} (tokenless : Tokenless conf wire event) :
    (wireStep conf sha wire event).server.store = wire.server.store ∧
      (wireStep conf sha wire event).server.Quiet ∧
      Traced.Only (fun _ => False) (wireStepPrivileged conf sha wire event) := by
  unfold wireStep wireStepPrivileged
  split
  next => exact ⟨rfl, quiet, Traced.only_pure _⟩
  next https woken fed =>
    have denied : Unauthorised conf (event.1, woken).2 := feed_unauthorised configured tokenless fed
    obtain ⟨store, stays⟩ := serverStep_unauthorised quiet denied
    exact ⟨store, stays, (serverStepPrivileged_unauthorised denied).bind (Traced.only_pure _)⟩

/-- From a quiet state, requests without the push token in their header blocks leave
the store as it is at every point of the run, start no importer, and are told nothing
that the token guards. -/
theorem tokenless_run_harmless (conf : Conf) (sha : Sha256sum) (configured : conf.pushToken ≠ [])
    (wire : Wire) (quiet : wire.server.Quiet) (events : List (Sys × WireEvent))
    (tokenless : Along (Tokenless conf) (wireStep conf sha) wire events) :
    (∀ seen, seen <+: events →
        (run (wireStep conf sha) wire seen).server.store = wire.server.store ∧
          (run (wireStep conf sha) wire seen).server.importRunning = false) ∧
      (Traced.steps (wireStepPrivileged conf sha) wire events).events = [] := by
  have keeps : ∀ now event,
      now.server.store = wire.server.store ∧ now.server.Quiet → Tokenless conf now event →
        (wireStep conf sha now event).server.store = wire.server.store ∧
          (wireStep conf sha now event).server.Quiet := by
    intro now event held without
    obtain ⟨store, stays, _⟩ := wireStep_tokenless sha configured held.2 without
    exact ⟨store.trans held.1, stays⟩
  have start : wire.server.store = wire.server.store ∧ wire.server.Quiet := ⟨rfl, quiet⟩
  constructor
  · intro seen shorter
    obtain ⟨rest, rfl⟩ := shorter
    have along := (along_append.mp tokenless).1
    have reached := run_invariant keeps start along
    exact ⟨reached.1, reached.2.importer⟩
  · have values : (fun state event => (wireStepPrivileged conf sha state event).value) =
        wireStep conf sha := by
      funext state event
      exact wireStepPrivileged_value conf sha state event
    have silent : ∀ now event,
        now.server.store = wire.server.store ∧ now.server.Quiet → Tokenless conf now event →
          Traced.Only (fun _ => False) (wireStepPrivileged conf sha now event) := by
      intro now event held without
      exact (wireStep_tokenless sha configured held.2 without).2.2
    have keepsValue : ∀ now event,
        now.server.store = wire.server.store ∧ now.server.Quiet → Tokenless conf now event →
          (wireStepPrivileged conf sha now event).value.server.store = wire.server.store ∧
            (wireStepPrivileged conf sha now event).value.server.Quiet := by
      intro now event held without
      rw [wireStepPrivileged_value]
      exact keeps now event held without
    have whole := Traced.steps_only keepsValue silent start (values ▸ tokenless)
    exact List.eq_nil_iff_forall_not_mem.mpr whole

end Runs

/-- A configuration with a push token. -/
def Conf.guarded : Conf := { Conf.sample with pushToken := ascii "token" }

def Wire.start (st : Store) : Wire := ⟨.start st, fun _ => .init⟩

theorem Server.quiet_start (st : Store) : (Server.start st).Quiet := by
  constructor
  · intro id conn present
    contradiction
  · rfl

/-- `GET /api/v1/gc` without a token, on one connection. -/
def openGc : List (Sys × WireEvent) :=
  [(Sys.succeeding fun _ => none, .accept 1),
    (Sys.succeeding fun _ => none, .read 1 (ascii "GET /api/v1/gc HTTP/1.1" ++ blankLine))]

theorem openGc_harmless :
    (Traced.steps (wireStepPrivileged .guarded .sample) (.start (Store.holding [] [])) openGc).events =
      [] := by
  have block : (httpConnFeed ((wireStep .guarded .sample (.start (Store.holding [] []))
      (Sys.succeeding fun _ => none, .accept 1)).https 1)
        (ascii "GET /api/v1/gc HTTP/1.1" ++ blankLine)).1.headerBlock =
      some (ascii "GET /api/v1/gc HTTP/1.1" ++ blankLine) := by
    decide +kernel
  apply (tokenless_run_harmless .guarded .sample (by decide) (.start (Store.holding [] []))
    (Server.quiet_start _) openGc _).2
  refine ⟨?_, ?_, trivial⟩
  · intro id bytes isRead
    contradiction
  · intro id bytes isRead other complete
    cases isRead
    rw [block] at complete
    rw [← Option.some.inj complete]
    decide +kernel

end CixCache
