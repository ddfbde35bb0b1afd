import CixCache.Lib.Run
import CixCache.Server.Respond

/-!
Contract: the handlers of the reactor and its loop.

Owns: `startHashChild`, `beginUpload` behind its checks, `apiImportStart`, `dispatch`,
`handleRead`, `handleWrite`, `acceptLoop`, `finishUpload` and `sweepTimeouts` on the
records; `dispatchEvent`, the body of the loop over a batch; `Step` and `step`; which
batches `epoll_wait` can report.

A list of answers to the calls of a loop ends where the handler returns. The machine
stands still once freed memory was used: nothing is known of what follows.

Does not own: what holds in every run.
-/

namespace CixCache

open CixCache.Lib

/-! ## Assignments to a record -/

namespace Record

/-- A request begins to be dispatched. -/
def reset (cc : Record) : Record := cc.headOnlySet false

/-- Bytes were read. -/
def heard (cc : Record) (now : Int) : Record := { cc with lastMs := now }

def fed (cc : Record) (http : HttpConn) : Record := { cc with http := http }

/-- What is staged, and where. -/
def naming (cc : Record) (path : Path) (name digest : Bytes) (expect : Nat) : Record :=
  { cc with upDigest := digest, upName := name, upExpect := expect, upReceived := 0,
            upPath := some path }

def unstaged (cc : Record) : Record := { cc with upPath := none }

/-- The staging file is open. -/
def receiving (cc : Record) : Record := { cc with upFd := true, state := .recvBody }

def received (cc : Record) (total : Nat) : Record := { cc with upReceived := total }

/-- The staging file is complete. -/
def complete (cc : Record) : Record := { cc with upFd := false }

/-- The connection waits for its hash child. -/
def hashing (cc : Record) (child : Ptr) (pid : Nat) (now : Int) : Record :=
  { cc with child := some child, childPid := some pid, childOut := true, state := .hashing,
            lastMs := now }

/-- The hash child was waited for. -/
def reaped (cc : Record) : Record := { cc with childOut := false, childPid := none }

def watching (cc : Record) (pid : Nat) : Record := { cc with childPid := some pid }

end Record

namespace Reactor

/-! ## Uploads -/

/-- `fork` for `sha256sum`; the process is the number before the next one. -/
def forkHasher (r : Reactor) : Reactor :=
  r.withLog { r.log with
    nextPid := r.log.nextPid + 1
    hashers := r.log.nextPid :: r.log.hashers }

/-- `fork` for the importer. -/
def forkImporter (r : Reactor) : Reactor :=
  r.withLog { r.log with
    nextPid := r.log.nextPid + 1
    importers := r.log.nextPid :: r.log.importers }

/-- The record of the hash child, linked with the connection. -/
def pairHashChild (r : Reactor) (a : CallResults) (p : Ptr) (pid : Nat) : Reactor :=
  let child := r.fresh
  let created := (r.connNew .hashChild a.now).modify child fun cc => cc.ownedBy (some p)
  created.modify p fun cc => cc.hashing child pid a.now

/-- The steps of `start_hash_child` behind its allocation and before its last call. -/
def linkHashChild (r : Reactor) (a : CallResults) (p : Ptr) (pid : Nat) : Reactor :=
  (r.pairHashChild a p pid).epollSet a p .quiet

def startHashChild (r : Reactor) (a : CallResults) (p : Ptr) : Reactor :=
  let closed := r.modify p Record.complete
  if a.sys.allows .pipe = false then closed.respond a p (.error 500 (ascii "cannot hash upload"))
  else if a.sys.allows .fork = false then
    closed.respond a p (.error 500 (ascii "cannot hash upload"))
  else
    let pid := closed.log.nextPid
    let forked := closed.forkHasher
    if a.opensPidfd .hashChild = false then
      (forked.waitpid pid).respond a p (.error 500 (ascii "cannot watch hash child"))
    else if a.allocates .hashChild = false then
      (forked.waitpid pid).respond a p (.error 500 (ascii "out of memory"))
    else
      let child := forked.fresh
      let linked := forked.linkHashChild a p pid
      if a.registers .hashChild then linked.epollAdd child .input
      else linked.respond a p (.error 500 (ascii "cannot watch hash child"))

/-- `if (cc->up_received >= cc->up_expect) start_hash_child(cc)` -/
def hashWhenComplete (r : Reactor) (a : CallResults) (p : Ptr) : Reactor :=
  if (r.heap p).upExpect ≤ (r.heap p).upReceived then r.startHashChild a p else r

/-- A staging file was created for a connection. -/
def created (r : Reactor) (p : Ptr) (path : Path) : Reactor :=
  r.withLog { r.log with staged := (p, path) :: r.log.staged }

@[simp] theorem created_heap (r : Reactor) (p : Ptr) (path : Path) :
    (r.created p path).heap = r.heap :=
  rfl

/-- The part of `begin_upload` behind its checks. -/
def stageUpload (r : Reactor) (a : CallResults) (p : Ptr) (req : HttpRequest)
    (name digest : Bytes) : Reactor :=
  let (path, counted) := storeTmpPath r.store
  let named := (r.withStore counted).modify p fun cc =>
    cc.naming path name digest req.contentLength
  match create a.sys counted.files path with
  | none =>
      (named.modify p Record.unstaged).respond a p (.error 500 (ascii "cannot stage upload"))
  | some made =>
      let opened := ((named.withStore (counted.withFiles made)).created p path).modify p
        Record.receiving
      -- Body bytes that rode in with the headers are already buffered.
      match req.body with
      | [] => opened.hashWhenComplete a p
      | _ :: _ =>
          match append a.sys made path req.body with
          | none => opened.respond a p (.error 500 (ascii "cannot stage upload"))
          | some written =>
              ((opened.withStore (counted.withFiles written)).modify p fun cc =>
                cc.received req.body.length).hashWhenComplete a p

/-! ## Imports -/

def withImportRunning (r : Reactor) (running : Bool) : Reactor :=
  { r with importRunning := running }

/-- The record of the importer. -/
def trackImporter (r : Reactor) (a : CallResults) (pid : Nat) : Reactor :=
  (r.connNew .importChild a.now).modify r.fresh fun cc => cc.watching pid

/-- The steps of `api_import_start` behind its allocation and before its answer: whether
the record could be registered changes nothing else. -/
def watchImporter (r : Reactor) (a : CallResults) (pid : Nat) : Reactor :=
  let tracked := r.trackImporter a pid
  let watched := if a.registers .importChild then tracked.epollAdd r.fresh .input else tracked
  watched.withImportRunning true

def apiImportStart (r : Reactor) (a : CallResults) (p : Ptr) : Reactor :=
  if r.importRunning then r.respond a p (.error 409 (ascii "an import is already running"))
  else if a.sys.allows .fork = false then
    r.respond a p (.error 500 (ascii "cannot fork importer"))
  else
    let pid := r.log.nextPid
    let forked := r.forkImporter
    if a.opensPidfd .importChild = false then
      forked.respond a p (.error 500 (ascii "cannot watch importer"))
    else if a.allocates .importChild = false then
      forked.respond a p (.error 500 (ascii "out of memory"))
    else (forked.watchImporter a pid).respond a p (.plain 202)

/-! ## Reading and writing -/

def dispatch (conf : Conf) (r : Reactor) (a : CallResults) (p : Ptr) (req : HttpRequest) :
    Reactor :=
  let reset := r.modify p Record.reset
  let (st, routed) := route conf a reset.store req
  match routed with
  | .respond response => (reset.withStore st).respond a p response
  | .upload name digest => (reset.withStore st).stageUpload a p req name digest
  | .importer => (reset.withStore st).apiImportStart a p

end Reactor

/-- What `read` answers; no bytes are the end of the stream. `grows` says whether the
buffer of the header block could be enlarged. -/
inductive ReadOutcome where
  | data (bytes : Bytes) (grows : Bool)
  | tryAgain
  | interrupted
  | failed

/-- What `accept4` answers. -/
inductive Accepted where
  | accepted (a : CallResults)
  | tryAgain
  | interrupted
  | failed

/-- Adding body bytes to the staging file; the store after it. -/
def stagedWrite (sys : Sys) (st : Store) (cc : Record) (bytes : Bytes) : Option Store :=
  if cc.upFd then
    match cc.upPath with
    | none => none
    | some path => (append sys st.files path bytes).map st.withFiles
  else none

namespace Reactor

/-- A turn of `handle_read` in CONN_RECV_BODY, and whether the loop goes on. -/
def receiveBody (r : Reactor) (a : CallResults) (p : Ptr) (bytes : Bytes) : Reactor × Bool :=
  let cc := r.heap p
  let taken := bytes.take (cc.upExpect - cc.upReceived)
  match stagedWrite a.sys r.store cc taken with
  | none => (r.respond a p (.error 500 (ascii "short write staging upload")), false)
  | some written =>
      let total := cc.upReceived + taken.length
      let received := (r.withStore written).modify p fun cc => cc.received total
      if cc.upExpect ≤ total then (received.startHashChild a p, false) else (received, true)

/-- A turn of `handle_read` in any other state. -/
def receiveHead (conf : Conf) (r : Reactor) (a : CallResults) (p : Ptr) (bytes : Bytes)
    (grows : Bool) : Reactor × Bool :=
  if grows = false then (r.respond a p (.error 413 (ascii "request headers too large")), false)
  else
    let fed := httpConnFeed (r.heap p).http bytes
    let r := r.modify p fun cc => cc.fed fed.1
    if fed.2 = false then (r.respond a p (.error 413 (ascii "request headers too large")), false)
    else
      match httpConnTryParse fed.1 with
      | .malformed => (r.respond a p (.error 400 (ascii "malformed request")), false)
      | .needMore => (r, true)
      | .complete req => (r.dispatch conf a p req, false)

def receive (conf : Conf) (r : Reactor) (a : CallResults) (p : Ptr) (bytes : Bytes)
    (grows : Bool) : Reactor × Bool :=
  if (r.heap p).state = .recvBody then r.receiveBody a p bytes
  else r.receiveHead conf a p bytes grows

def handleRead (conf : Conf) (p : Ptr) : List (ReadOutcome × CallResults) → Reactor → Reactor
  | [], r => r
  | (.tryAgain, _) :: _, r => r
  | (.interrupted, _) :: rest, r => handleRead conf p rest r
  | (.failed, a) :: _, r => r.connClose a.sys p
  | (.data bytes grows, a) :: rest, r =>
      if bytes = [] then r.connClose a.sys p
      else
        let turn := (r.modify p fun cc => cc.heard a.now).receive conf a p bytes grows
        if turn.2 then handleRead conf p rest turn.1 else turn.1

end Reactor

/-! ### The sending half of a record -/

def ConnPhase.sending : ConnPhase → SendState
  | .sendHeader => .sendHeader
  | .sendBody => .sendBody
  | _ => .readRequest

/-- The fields a response is sent from. -/
def Record.sender (cc : Record) : Sender where
  state := cc.state.sending
  hdr := cc.hdr
  hdrOff := cc.hdrOff
  headOnly := cc.headOnly
  blob := cc.blob
  bodyOff := cc.bodyOff
  bodyLen := cc.bodyLen
  outBuf := cc.outBuf
  outOff := cc.outOff
  sent := []

/-- The record after a turn of `handle_write` that wrote and did not close it. -/
def Record.sentBy (cc : Record) (sent : Sender) (now : Int) : Record :=
  { cc with
    state := if sent.state = .sendBody then .sendBody else cc.state
    hdrOff := sent.hdrOff
    bodyOff := sent.bodyOff
    outOff := sent.outOff
    lastMs := now }

namespace Reactor

def handleWrite (sys : Sys) (now : Int) (p : Ptr) : List Written → Reactor → Reactor
  | [], r => r
  | answer :: rest, r =>
      let turn := (r.heap p).sender.handleWrite answer
      if turn.state = .dead then r.connClose sys p
      else
        match answer with
        | .wrote _ => handleWrite sys now p rest (r.modify p fun cc => cc.sentBy turn now)
        | .interrupted => handleWrite sys now p rest r
        | .tryAgain | .failed => r

def acceptLoop : List Accepted → Reactor → Reactor
  | [], r => r
  | .tryAgain :: _, r => r
  | .interrupted :: rest, r => acceptLoop rest r
  | .failed :: _, r => r
  | .accepted a :: rest, r =>
      if a.allocates .client = false then acceptLoop rest r
      else
        let p := r.fresh
        let made := r.connNew .client a.now
        if a.registers .client then acceptLoop rest (made.epollAdd p .input)
        else acceptLoop rest (made.connClose a.sys p)

/-! ## The end of a hash -/

/-- `store_blob_adopt` of the staging file; without one there is nothing to rename. -/
def adoptStaged (sys : Sys) (st : Store) (upPath : Option Path) (digest : Bytes) :
    Store × StoreResult :=
  match upPath with
  | some path => storeBlobAdopt sys st path digest
  | none =>
      match blobPath st.root digest with
      | none => (st, .error .io)
      | some path => if (stat st.files path).isSome then (st, .ok ()) else (st, .error .io)

/-- The answer to what `store_publish` comes to. -/
def publishResponse : StoreResult → Response
  | .ok () => .plain 201
  | .error .conflict => .error 409 (ascii "already published with a different sha256")
  | .error .ambiguous => .error 409 (storeErrorStr .ambiguous)
  | .error reason => .error 500 (storeErrorStr reason)

/-- Adopt the staged file and publish the name. -/
def adoptUpload (sys : Sys) (st : Store) (upPath : Option Path) (name digest : Bytes) :
    Store × Response :=
  match adoptStaged sys st upPath digest with
  | (adopted, .error reason) => (adopted, .error 500 (storeErrorStr reason))
  | (adopted, .ok ()) =>
      let (done, result) := storePublish sys adopted name digest
      (done, publishResponse result)

/-- The end of `finish_upload`, once the body hashes to what was declared. -/
def commitUpload (sys : Sys) (st : Store) (upPath : Option Path) (name digest : Bytes) :
    Store × Response :=
  -- Ask whether this name will be refused before adopting the body.
  match storeResolve st name with
  | .ok existing =>
      if existing ≠ digest then
        (unlinkStaged sys st upPath,
          .error 409 (ascii "already published with a different sha256"))
      else adoptUpload sys st upPath name digest
  | .error .notFound => adoptUpload sys st upPath name digest
  | .error reason =>
      (unlinkStaged sys st upPath,
        .error (if reason = .ambiguous then 409 else 500) (storeErrorStr reason))

/-- The first part of `finish_upload`: the child is waited for and its pipe closed. -/
def reapHashChild (r : Reactor) (p : Ptr) : Reactor :=
  let reaped :=
    match (r.heap p).childPid with
    | none => r
    | some pid => r.waitpid pid
  reaped.modify p Record.reaped

/-- `finish_upload`; `output` is what the process wrote. -/
def finishUpload (r : Reactor) (a : CallResults) (p : Ptr) (output : Bytes) : Reactor :=
  let got := if (r.heap p).childOut then output.take 127 else []
  let digest := got.take storeSha256HexLen
  let reaped := r.reapHashChild p
  let cc := reaped.heap p
  if got.length < storeSha256HexLen ∨ storeDigestIsValid digest = false then
    reaped.respond a p (.error 500 (ascii "could not hash uploaded body"))
  else if strcasecmpEq digest cc.upDigest = false then
    reaped.respond a p (.error 400 (ascii "body does not match declared sha256"))
  else
    let (done, response) := commitUpload a.sys reaped.store cc.upPath cc.upName digest
    ((reaped.withStore done).modify p Record.unstaged).respond a p response

/-! ## Timeouts -/

/-- IDLE_TIMEOUT_MS and XFER_TIMEOUT_MS -/
def idleTimeoutMs : Int := 60000
def xferTimeoutMs : Int := 300000

end Reactor

def ConnPhase.limit : ConnPhase → Int
  | .sendBody | .recvBody | .hashing => Reactor.xferTimeoutMs
  | .readRequest | .sendHeader => Reactor.idleTimeoutMs

namespace Reactor

/-- The test of the sweep on a record. -/
def Stalled (cc : Record) (now : Int) : Prop :=
  cc.kind = .client ∧ cc.state.limit < now - cc.lastMs

instance (cc : Record) (now : Int) : Decidable (Stalled cc now) :=
  inferInstanceAs (Decidable (_ ∧ _))

/-- The loop of `sweep_timeouts` from a record on. The link is read before the record
may be closed. -/
def sweepFrom (sys : Sys) (now : Int) : Nat → Option Ptr → Reactor → Reactor
  | 0, _, r => r
  | _ + 1, none, r => r
  | bound + 1, some p, r =>
      let next := (r.heap p).next
      if Stalled (r.heap p) now then sweepFrom sys now bound next (r.connClose sys p)
      else sweepFrom sys now bound next r

/-- The records whose link the loop reads, each with its kind at that moment. -/
def sweepVisits (sys : Sys) (now : Int) : Nat → Option Ptr → Reactor → List (Ptr × ConnKind)
  | 0, _, _ => []
  | _ + 1, none, _ => []
  | bound + 1, some p, r =>
      let next := (r.heap p).next
      (p, (r.heap p).kind) ::
        if Stalled (r.heap p) now then sweepVisits sys now bound next (r.connClose sys p)
        else sweepVisits sys now bound next r

def sweepTimeouts (r : Reactor) (sys : Sys) (now : Int) : Reactor :=
  sweepFrom sys now r.fresh r.conns r

end Reactor

/-! ## The loop -/

/-- What the calls made for one event answer. -/
structure EventCalls where
  reads : List (ReadOutcome × CallResults)
  writes : List Written
  accepts : List Accepted
  output : Bytes
  answers : CallResults

/-- `wait` is a return of `epoll_wait`, `event` handles the next record of its batch,
`finish` is the sweep behind it. `outside` are other processes working on the tree. -/
inductive Step where
  | wait (batch : List (Ptr × Ready))
  | event (calls : EventCalls)
  | finish (sys : Sys) (now : Int)
  | outside (files : Files)

namespace Reactor

/-- CONN_HASH_CHILD: the hash is over. -/
def hashChildEvent (r : Reactor) (a : CallResults) (p : Ptr) (output : Bytes) : Reactor :=
  let owner := (r.heap p).owner
  let disowned := r.modify p fun cc => cc.ownedBy none
  match owner with
  | none => disowned.connClose a.sys p
  | some o =>
      let closed := ((disowned.enter o).modify o Record.childless).connClose a.sys p
      closed.finishUpload a o output

/-- CONN_IMPORT_CHILD: the importer is over. -/
def importChildEvent (r : Reactor) (sys : Sys) (p : Ptr) : Reactor :=
  let waited :=
    match (r.heap p).childPid with
    | none => r
    | some pid => r.waitpid pid
  (waited.withImportRunning false).connClose sys p

/-- CONN_CLIENT -/
def clientEvent (conf : Conf) (r : Reactor) (p : Ptr) (ready : Ready) (calls : EventCalls) :
    Reactor :=
  let a := calls.answers
  if ready.hangup then r.connClose a.sys p
  else
    let read := if ready.readable then handleRead conf p calls.reads (r.enter p) else r
    if (read.heap p).kind ≠ .dead ∧ ready.writable then
      handleWrite a.sys a.now p calls.writes (read.enter p)
    else read

/-- The body of the loop over a batch. -/
def dispatchEvent (conf : Conf) (r : Reactor) (p : Ptr) (ready : Ready) (calls : EventCalls) :
    Reactor :=
  let r := r.touch p
  match (r.heap p).kind with
  | .dead => r
  | .listener => acceptLoop calls.accepts (r.enter p)
  | .hashChild => r.hashChildEvent calls.answers p calls.output
  | .importChild => r.importChildEvent calls.answers.sys p
  | .client => r.clientEvent conf p ready calls

/-- The tree other processes leave; the staging names of this process are its own. -/
def disturbed (st : Store) (files : Files) : Files
  | .tmp (.up pid counter) =>
      if pid = st.pid then st.files (.tmp (.up pid counter)) else files (.tmp (.up pid counter))
  | path => files path

def step (conf : Conf) (r : Reactor) (s : Step) : Reactor :=
  if r.log.fault then r
  else
    match s with
    | .wait batch => if r.waiting then { r with waiting := false, batch := batch } else r
    | .event calls =>
        match r.batch with
        | [] => r
        | (p, ready) :: rest => dispatchEvent conf { r with batch := rest } p ready calls
    | .finish sys now =>
        if r.waiting = false ∧ r.batch = [] then
          { (r.sweepTimeouts sys now).drainPendingFree with waiting := true }
        else r
    | .outside files => r.withStore (r.store.withFiles (disturbed r.store files))

/-- The loop behind the registration of the listener. -/
def start (st : Store) (now : Int) : Reactor where
  heap := fun _ => Record.new .listener now
  allocated := fun p => decide (p = 0)
  fresh := 1
  conns := some 0
  pendingFree := none
  interest := fun p => if p = 0 then some .input else none
  store := st
  importRunning := false
  waiting := true
  batch := []
  log := ⟨0, [], [], [], fun _ => 0, [], false, false⟩

/-- An event that `epoll_wait` can report. -/
def Reports (r : Reactor) (event : Ptr × Ready) : Prop :=
  match r.interest event.1 with
  | none => False
  | some interest =>
      (event.2.readable = true → interest.readable = true) ∧
        (event.2.writable = true → interest.writable = true)

instance (r : Reactor) (event : Ptr × Ready) : Decidable (r.Reports event) := by
  unfold Reports
  split <;> infer_instance

/-- MAX_EVENTS -/
def maxEvents : Nat := 64

/-- A batch holds a registered record at most once. -/
def Legal (r : Reactor) : Step → Prop
  | .wait batch =>
      batch.length ≤ maxEvents ∧ (batch.map Prod.fst).Nodup ∧ ∀ event ∈ batch, r.Reports event
  | _ => True

instance (r : Reactor) : (s : Step) → Decidable (r.Legal s)
  | .wait _ => inferInstanceAs (Decidable (_ ∧ _ ∧ _))
  | .event _ => isTrue trivial
  | .finish _ _ => isTrue trivial
  | .outside _ => isTrue trivial

end Reactor

end CixCache
