import CixCache.Lib.Simulation
import CixCache.Server.Immutability
import CixCache.Server.Steady

/-!
Contract: which server the records of the event loop stand for.

Owns: `Record.Shows`, the connection a record stands for; `Reactor.Views`, the server a
reactor stands for; `Pending`, the same while one connection is handled; and that a response
of the loop is one of the server.

Where a static asset could not be read the loop answers 500 in the place of the page; every
other response has the header and the body of the server's reply, but for the bytes of a JSON
document, which neither side fixes.

Does not own: what the handlers do before they respond.
-/

namespace CixCache

open CixCache.Lib

/-! ## The connection a record stands for -/

/-- A header announces a status. -/
def Announces (hdr : Bytes) (status : Nat) : Prop :=
  ∃ contentType contentLength extra,
    httpFormatHeader status contentType contentLength extra = some hdr

/-- The status a response is begun with. -/
def Response.status : Response → Nat
  | .error status _ => status
  | .plain status => status
  | _ => 200

theorem Response.reply_status (response : Response) : response.reply.status = response.status := by
  cases response <;> rfl

/-- A response stands for a reply: for its own, or, when it says that an asset could not be
read, for the page. -/
def StandsFor (response : Response) (reply : Reply) : Prop :=
  response.reply = reply ∨ ∃ message contentType content,
    response = .error 500 message ∧ reply = (Response.page contentType content).reply

namespace Record

/-- The header and the body that a response is sent with. -/
def Carries (cc : Record) : Response → Prop
  | .error status message =>
      httpFormatHeader status (ascii "application/json") (errorBody message).length [] =
        some cc.hdr ∧ cc.outBuf = some (errorBody message)
  | .json _ => ∃ text, cc.outBuf = some text ∧
      httpFormatHeader 200 (ascii "application/json") text.length [] = some cc.hdr
  | .page contentType content =>
      httpFormatHeader 200 contentType content.length [] = some cc.hdr ∧ cc.outBuf = some content
  | .bare contentType extra contentLength =>
      httpFormatHeader 200 contentType contentLength extra = some cc.hdr ∧ cc.headOnly = true
  | .blob contentType extra content =>
      httpFormatHeader 200 contentType content.length extra = some cc.hdr ∧
        cc.blob = some content ∧ cc.headOnly = false
  | .plain status => httpFormatHeader status (ascii "application/json") 0 [] = some cc.hdr

theorem Carries.announces {cc : Record} {response : Response} (carried : cc.Carries response) :
    Announces cc.hdr response.status := by
  cases response with
  | error => exact ⟨_, _, _, carried.1⟩
  | json =>
      obtain ⟨text, _, begun⟩ := carried
      exact ⟨_, _, _, begun⟩
  | page => exact ⟨_, _, _, carried.1⟩
  | bare => exact ⟨_, _, _, carried.1⟩
  | blob => exact ⟨_, _, _, carried.1⟩
  | plain => exact ⟨_, _, _, carried⟩

/-- The upload of a record and of a connection are the same, and it has a staging file. -/
structure SameUpload (cc : Record) (conn : Conn) : Prop where
  staged : cc.upPath.isSome
  digest : conn.upDigest = cc.upDigest
  name : conn.upName = cc.upName
  expect : conn.upExpect = cc.upExpect
  received : conn.upReceived = cc.upReceived

/-- What a client's record shows of its connection. -/
inductive Shows (cc : Record) (conn : Conn) : Prop
  | reads (phase : cc.state = .readRequest) (state : conn.state = .readRequest)
      (path : conn.upPath = cc.upPath)
  | receives (phase : cc.state = .recvBody) (state : conn.state = .recvBody)
      (path : conn.upPath = cc.upPath) (upload : SameUpload cc conn) (opened : cc.upFd = true)
  | hashes (phase : cc.state = .hashing) (state : conn.state = .hashing)
      (path : conn.upPath = cc.upPath) (upload : SameUpload cc conn)
      (watched : conn.child = .watched) (output : cc.childOut = true)
  | sends (phase : cc.state.Sends) {reply : Reply} (state : conn.state = .sending reply)
      (path : conn.upPath = cc.upPath) {response : Response} (carried : cc.Carries response)
      (same : StandsFor response reply)

end Record

/-- What a connection has no part of: the header block, the clock and the list. -/
theorem Record.Shows.aside {cc : Record} {conn : Conn} (shows : cc.Shows conn) (http : HttpConn)
    (now : Int) (link : Option Ptr) :
    { cc with http := http, lastMs := now, next := link }.Shows conn := by
  cases shows with
  | reads phase state path => exact .reads phase state path
  | receives phase state path upload opened =>
      exact .receives phase state path ⟨upload.1, upload.2, upload.3, upload.4, upload.5⟩ opened
  | hashes phase state path upload watched output =>
      exact .hashes phase state path ⟨upload.1, upload.2, upload.3, upload.4, upload.5⟩ watched
        output
  | @sends phase _ state path response carried same =>
      have still : { cc with http := http, lastMs := now, next := link }.Carries response := by
        cases response <;> exact carried
      exact .sends phase state path still same

theorem Record.Shows.linkTo {cc : Record} {conn : Conn} (shows : cc.Shows conn)
    (link : Option Ptr) : (cc.linkTo link).Shows conn :=
  shows.aside cc.http cc.lastMs link

theorem Record.Shows.path {cc : Record} {conn : Conn} (shows : cc.Shows conn) :
    conn.upPath = cc.upPath := by
  cases shows with
  | reads _ _ path => exact path
  | receives _ _ path _ _ => exact path
  | hashes _ _ path _ _ _ => exact path
  | sends _ _ path _ _ => exact path

namespace Reactor

def IsClient (r : Reactor) (p : Ptr) : Prop := r.Live p ∧ (r.heap p).kind = .client

/-- The server a reactor stands for: the same store, and a connection for every client. -/
structure Views (r : Reactor) (server : Server) : Prop where
  store : server.store = r.store
  importing : server.importRunning = r.importRunning
  clients : ∀ p, r.IsClient p → ∃ conn, server.conns p = some conn ∧ (r.heap p).Shows conn
  others : ∀ p, ¬ r.IsClient p → server.conns p = none

/-- The clients but `p` stay as they are. -/
structure Beside (p : Ptr) (r after : Reactor) : Prop where
  clients : ∀ q, q ≠ p → (after.IsClient q ↔ r.IsClient q)
  shown : ∀ q, q ≠ p → r.IsClient q → ∃ link, after.heap q = (r.heap q).linkTo link

/-- The server while `p` is handled: its connection was answered already. -/
structure Pending (p : Ptr) (r : Reactor) (server : Server) (conn : Conn) : Prop where
  store : server.store = r.store
  importing : server.importRunning = r.importRunning
  clients : ∀ q, q ≠ p → r.IsClient q →
    ∃ conn, server.conns q = some conn ∧ (r.heap q).Shows conn
  others : ∀ q, q ≠ p → ¬ r.IsClient q → server.conns q = none
  own : server.conns p = some conn
  path : conn.upPath = (r.heap p).upPath

section Views

variable {r mid after : Reactor} {p q : Ptr} {server : Server} {conn : Conn} {sys : Sys}
  {a : CallResults} {conf : Conf} {sha : Sha256sum}

theorem Beside.refl (p : Ptr) (r : Reactor) : Beside p r r :=
  ⟨fun _ _ => Iff.rfl, fun q _ _ => ⟨(r.heap q).next, rfl⟩⟩

theorem Beside.trans (first : Beside p r mid) (second : Beside p mid after) :
    Beside p r after where
  clients q different := (second.clients q different).trans (first.clients q different)
  shown q different client := by
    obtain ⟨link, same⟩ := first.shown q different client
    obtain ⟨other, again⟩ := second.shown q different ((first.clients q different).mpr client)
    refine ⟨other, ?_⟩
    rw [again, same]
    rfl

/-- Assignments to the handled record, and whatever is not a record. -/
theorem beside_of_heap (others : ∀ q, q ≠ p → after.heap q = r.heap q)
    (allocated : after.allocated = r.allocated) : Beside p r after where
  clients q different := by
    unfold IsClient Live
    rw [others q different, allocated]
  shown q different _ := ⟨(r.heap q).next, by rw [others q different]; rfl⟩

theorem beside_modify (r : Reactor) (p : Ptr) (change : Record → Record) :
    Beside p r (r.modify p change) :=
  beside_of_heap (fun _ different => modify_of_ne r change different) rfl

/-- What the handled record does not take part in. -/
theorem Pending.beside (pending : Pending p r server conn) (beside : Beside p r after)
    (store : after.store = r.store) (importing : after.importRunning = r.importRunning)
    (path : (after.heap p).upPath = (r.heap p).upPath) : Pending p after server conn where
  store := pending.store.trans store.symm
  importing := pending.importing.trans importing.symm
  clients q different client := by
    have was := (beside.clients q different).mp client
    obtain ⟨link, same⟩ := beside.shown q different was
    obtain ⟨other, found, shows⟩ := pending.clients q different was
    exact ⟨other, found, same ▸ shows.linkTo link⟩
  others q different outside :=
    pending.others q different (mt (beside.clients q different).mpr outside)
  own := pending.own
  path := pending.path.trans path.symm

/-- The handled record shows its connection again. -/
theorem Pending.settle (pending : Pending p r server conn) (client : r.IsClient p)
    (shows : (r.heap p).Shows conn) : Views r server where
  store := pending.store
  importing := pending.importing
  clients q isClient := by
    by_cases own : q = p
    · rw [own]
      exact ⟨conn, pending.own, shows⟩
    · exact pending.clients q own isClient
  others q outside := by
    by_cases own : q = p
    · exact absurd client (own ▸ outside)
    · exact pending.others q own outside

theorem Views.pending (views : Views r server) (client : r.IsClient p)
    (own : server.conns p = some conn) : Pending p r server conn where
  store := views.store
  importing := views.importing
  clients q _ := views.clients q
  others q _ := views.others q
  own := own
  path := by
    obtain ⟨other, found, shows⟩ := views.clients p client
    rw [own] at found
    rw [Option.some.inj found]
    exact shows.path

/-- An event of a connection changes the store, the importer and that connection. -/
theorem Views.input (views : Views r server) (own : server.conns p = some conn)
    {input : Input} {out : Dispatched}
    (turn : connStep conf sha sys r.store r.importRunning conn input = out)
    (beside : Beside p r after) (store : out.store = after.store)
    (importing : out.importRunning = after.importRunning)
    (path : out.conn.upPath = (after.heap p).upPath) :
    Pending p after (serverStep conf sha server (sys, .input p input)) out.conn := by
  have stepped : serverStep conf sha server (sys, .input p input) =
      ⟨out.store, Function.update server.conns p (some out.conn), out.importRunning⟩ := by
    have woken : (sys, ServerEvent.input p input).2 = .input p input := rfl
    rw [serverStep_input conf sha woken own, views.store, views.importing]
    dsimp only
    rw [turn]
  rw [stepped]
  refine ⟨store, importing, ?_, ?_, Function.update_self _ _ _, path⟩
  · intro q different client
    have was := (beside.clients q different).mp client
    obtain ⟨link, same⟩ := beside.shown q different was
    obtain ⟨other, found, shows⟩ := views.clients q was
    refine ⟨other, (Function.update_of_ne different _ _).trans found, ?_⟩
    rw [same]
    exact shows.linkTo link
  · intro q different outside
    exact (Function.update_of_ne different _ _).trans
      (views.others q (mt (beside.clients q different).mpr outside))

theorem Serving.isClient (serving : Serving p r) : r.IsClient p :=
  ⟨serving.alive, serving.client⟩

theorem Serving.removed (serving : Serving p r) (sys : Sys) :
    Removed r sys p ((r.heap p).child.toList ++ [p]) (r.connClose sys p) :=
  connClose_removed serving.consistent serving.alive
    (serving.consistent.client_ownerless serving.alive serving.client)

/-- Closing a client closes its hash child with it, and nothing else. -/
theorem Serving.beside_connClose (serving : Serving p r) (sys : Sys) :
    Beside p r (r.connClose sys p) ∧ ¬ (r.connClose sys p).IsClient p := by
  have removed := serving.removed sys
  have spared : ∀ q, q ≠ p → r.IsClient q → q ∉ (r.heap p).child.toList ++ [p] := by
    intro q different isClient member
    rcases List.mem_append.mp member with isChild | isSelf
    · have hash :=
        (serving.consistent.child p q serving.alive (Option.mem_toList.mp isChild)).2.2.1
      rw [isClient.2] at hash
      contradiction
    · exact different (List.mem_singleton.mp isSelf)
  refine ⟨⟨?_, ?_⟩, ?_⟩
  · intro q different
    constructor
    · intro isClient
      obtain ⟨was, outside⟩ := removed.live.mp isClient.1
      obtain ⟨link, same⟩ := removed.others q outside
      refine ⟨was, ?_⟩
      rw [← isClient.2, same]
      rfl
    · intro isClient
      have outside := spared q different isClient
      obtain ⟨link, same⟩ := removed.others q outside
      refine ⟨removed.live.mpr ⟨isClient.1, outside⟩, ?_⟩
      rw [same]
      exact isClient.2
  · intro q different isClient
    exact removed.others q (spared q different isClient)
  · intro isClient
    exact (removed.live.mp isClient.1).2 (List.mem_append_right _ List.mem_cons_self)

/-- A client is closed on both sides. -/
theorem Pending.closes (pending : Pending p r server conn) (serving : Serving p r) (sys : Sys) :
    Views (r.connClose sys p) (serverStep conf sha server (sys, .close p)) := by
  obtain ⟨beside, gone⟩ := serving.beside_connClose sys
  have removed := serving.removed sys
  have stepped : serverStep conf sha server (sys, .close p) =
      { server with
        store := CixCache.connClose sys server.store conn
        conns := Function.update server.conns p none } := by
    unfold serverStep
    dsimp only
    rw [pending.own]
  have unlinked : CixCache.connClose sys r.store conn =
      unlinkStaged sys r.store (r.heap p).upPath := by
    show unlinkStaged sys r.store conn.upPath = _
    rw [pending.path]
  rw [stepped]
  refine ⟨?_, pending.importing.trans removed.importRunning.symm, ?_, ?_⟩
  · show CixCache.connClose sys server.store conn = _
    rw [pending.store, unlinked, removed.store]
  · intro q isClient
    have different : q ≠ p := fun same => gone (same ▸ isClient)
    have was := (beside.clients q different).mp isClient
    obtain ⟨link, same⟩ := beside.shown q different was
    obtain ⟨other, found, shows⟩ := pending.clients q different was
    refine ⟨other, (Function.update_of_ne different _ _).trans found, ?_⟩
    rw [same]
    exact shows.linkTo link
  · intro q outside
    by_cases own : q = p
    · rw [own]
      exact Function.update_self _ _ _
    · exact (Function.update_of_ne own _ _).trans
        (pending.others q own (mt (beside.clients q own).mpr outside))

/-- Setting a registration leaves everything else alone. -/
theorem epollSet_state (r : Reactor) (a : CallResults) (p : Ptr) (events : Interest) :
    (r.epollSet a p events).store = r.store ∧
      (r.epollSet a p events).importRunning = r.importRunning := by
  unfold epollSet
  split <;> exact ⟨rfl, rfl⟩

/-- A response is begun on a client that was answered. -/
theorem Pending.sendHeader (pending : Pending p r server conn) (client : r.IsClient p)
    {reply : Reply} (answered : conn.state = .sending reply) {response : Response} {text : Bytes}
    (carried : ((r.heap p).sending text a.now).Carries response)
    (same : StandsFor response reply) : Views (r.sendHeader a p text) server := by
  have record := sendHeader_self r a p text
  have allocated : (r.sendHeader a p text).allocated = r.allocated := (epollSet_fields _ a p _).1
  have state := epollSet_state ((r.modify p fun cc => cc.sending text a.now).began p) a p .output
  have sent : Pending p (r.sendHeader a p text) server conn := by
    apply pending.beside (beside_of_heap (fun q different => sendHeader_of_ne different) allocated)
      state.1 state.2
    rw [record]
    rfl
  have still : (r.sendHeader a p text).IsClient p := by
    unfold IsClient Live
    rw [allocated, record]
    exact client
  apply sent.settle still
  rw [record]
  exact .sends (Or.inl rfl) answered pending.path carried same

end Views

/-! ## Responses -/

end Reactor

/-- An assignment to fields that tie a record to nothing. -/
def Record.Untied (change : Record → Record) : Prop :=
  ∀ cc, (change cc).kind = cc.kind ∧ (change cc).state = cc.state ∧ (change cc).next = cc.next ∧
    (change cc).owner = cc.owner ∧ (change cc).child = cc.child ∧
      (change cc).childPid = cc.childPid ∧ (change cc).upPath = cc.upPath

/-- The request an event brings, with its connection. -/
def requestIn (event : Sys × ServerEvent) : Option (Nat × HttpRequest) :=
  match event.2 with
  | .input id (.request req) => some (id, req)
  | _ => none

namespace Reactor

section Responding

variable {r mid after : Reactor} {p q : Ptr} {server : Server} {conn : Conn} {sys : Sys}
  {a : CallResults} {conf : Conf} {sha : Sha256sum}

/-- Fields change that tie the record to nothing, and a response is begun or the connection
closed. -/
inductive Begins (a : CallResults) (p : Ptr) (r : Reactor) (response : Response) : Reactor → Prop
  | sends (change : Record → Record) (untied : Record.Untied change) (text : Bytes)
      (carried : ∀ cc, ((change cc).sending text a.now).Carries response) :
      Begins a p r response ((r.modify p change).sendHeader a p text)
  | closes (change : Record → Record) (untied : Record.Untied change) :
      Begins a p r response ((r.modify p change).connClose a.sys p)

theorem beginResponse_begins (r : Reactor) (a : CallResults) (p : Ptr)
    (change : Record → Record) (untied : Record.Untied change) {response : Response}
    (status : Nat) (contentType extra : Bytes) (contentLength : Nat)
    (carried : ∀ text, httpFormatHeader status contentType contentLength extra = some text →
      ∀ cc, ((change cc).sending text a.now).Carries response) :
    Begins a p r response
      ((r.modify p change).beginResponse a p status contentType extra contentLength) := by
  unfold beginResponse
  split
  next => exact .closes change untied
  next text formatted => exact .sends change untied text (carried text formatted)

theorem modify_id (r : Reactor) (p : Ptr) : r.modify p id = r := by
  unfold modify
  rw [id, Function.update_eq_self]

theorem respond_begins (r : Reactor) (a : CallResults) (p : Ptr) (response : Response) :
    Begins a p r response (r.respond a p response) := by
  have unchanged : Begins a p r response (r.connClose a.sys p) := by
    have closed : Begins a p r response ((r.modify p id).connClose a.sys p) :=
      .closes id fun _ => ⟨rfl, rfl, rfl, rfl, rfl, rfl, rfl⟩
    rw [modify_id] at closed
    exact closed
  have buffers : ∀ status contentType body,
      (∀ text, httpFormatHeader status contentType body.length [] = some text →
        ∀ cc, ((Record.buffered cc body).sending text a.now).Carries response) →
      Begins a p r response (r.respondBuffer a p status contentType body) := by
    intro status contentType body carried
    unfold respondBuffer
    exact beginResponse_begins r a p (fun cc => cc.buffered body)
      (fun _ => ⟨rfl, rfl, rfl, rfl, rfl, rfl, rfl⟩) _ _ _ _ carried
  unfold respond
  cases response with
  | error status message =>
      dsimp only [respondError]
      split
      next => exact buffers _ _ _ fun text begun cc => ⟨begun, rfl⟩
      next => exact unchanged
  | json body =>
      dsimp only [respondJson]
      split
      next => exact buffers _ _ _ fun text begun cc => ⟨_, rfl, begun⟩
      next => exact unchanged
  | page contentType content => exact buffers _ _ _ fun text begun cc => ⟨begun, rfl⟩
  | bare contentType extra contentLength =>
      exact beginResponse_begins r a p (fun cc => cc.headOnlySet true)
        (fun _ => ⟨rfl, rfl, rfl, rfl, rfl, rfl, rfl⟩) _ _ _ _ fun text begun cc => ⟨begun, rfl⟩
  | blob contentType extra content =>
      exact beginResponse_begins r a p (fun cc => cc.streaming content)
        (fun _ => ⟨rfl, rfl, rfl, rfl, rfl, rfl, rfl⟩) _ _ _ _
        fun text begun cc => ⟨begun, rfl, rfl⟩
  | plain status =>
      have begun : Begins a p r (.plain status)
          ((r.modify p id).beginResponse a p status (ascii "application/json") [] 0) :=
        beginResponse_begins r a p id (fun _ => ⟨rfl, rfl, rfl, rfl, rfl, rfl, rfl⟩) _ _ _ _
          fun text begun cc => begun
      rw [modify_id] at begun
      exact begun

theorem untied_modify {change : Record → Record} (untied : Record.Untied change)
    (serving : Serving p r) : Serving p (r.modify p change) :=
  (local_modify r p change untied).serving serving

/-- A client that was answered shows it, or is closed on both sides. -/
theorem Begins.matched {response : Response} (begins : Begins a p r response after)
    (pending : Pending p r server conn) (serving : Serving p r) {reply : Reply}
    (answered : conn.state = .sending reply) (same : StandsFor response reply) :
    Matched Views (serverStep conf sha) requestIn [] after server := by
  have changed : ∀ change : Record → Record, Record.Untied change →
      Pending p (r.modify p change) server conn := by
    intro change untied
    apply pending.beside (beside_modify r p change) rfl rfl
    rw [modify_self]
    exact (untied _).2.2.2.2.2.2
  cases begins with
  | sends change untied text carried =>
      have carries : (((r.modify p change).heap p).sending text a.now).Carries response := by
        rw [modify_self]
        exact carried _
      exact Matched.here ((changed change untied).sendHeader (untied_modify untied serving).isClient
        answered carries same)
  | closes change untied =>
      exact Matched.silent rfl (Matched.here
        ((changed change untied).closes (untied_modify untied serving) a.sys))

/-- A response on a client whose connection was answered with a reply it stands for. -/
theorem Pending.respond (pending : Pending p r server conn) (serving : Serving p r)
    (a : CallResults) (response : Response) {reply : Reply} (answered : conn.state = .sending reply)
    (same : StandsFor response reply) :
    Matched Views (serverStep conf sha) requestIn [] (r.respond a p response) server :=
  (respond_begins r a p response).matched pending serving answered same

end Responding

end Reactor

end CixCache
