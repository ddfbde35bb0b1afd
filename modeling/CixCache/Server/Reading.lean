import CixCache.Server.Parse
import CixCache.Server.Reactor

/-!
Contract: a connection as its reads come in.

Owns: `handleRead`, what one read makes of the connection's buffer and of the
reactor; `Session`, a connection that is read from with nothing else going on; and
when the staged body of an upload does not depend on how the stream was cut.

Does not own: parsing (`Server.Parse`), or what the reactor does (`Server.Reactor`).
-/

namespace CixCache

open CixCache.Lib

/-! ## Reads -/

/-- One read of `handle_read`: the buffer, and what the reactor is woken with. -/
def handleRead (http : HttpConn) (state : ConnState) (bytes : Bytes) : HttpConn × Option Input :=
  match state with
  | .recvBody => (http, some (.chunk bytes))
  | .readRequest =>
      match httpConnFeed http bytes with
      | (fed, false) => (fed, some .overlong)
      | (fed, true) =>
          match httpConnTryParse fed with
          | .needMore => (fed, none)
          | .malformed => (fed, some .malformed)
          | .complete req => (fed, some (.request req))
  | _ => (http, none)

/-- A connection and the store it works on. -/
structure Session where
  http : HttpConn
  out : Dispatched

/-- A connection that was just accepted. -/
def Session.fresh (st : Store) (importRunning : Bool) : Session :=
  ⟨.init, ⟨st, importRunning, .fresh⟩⟩

def readStep (conf : Conf) (sha : Sha256sum) (sys : Sys) (session : Session) (bytes : Bytes) :
    Session :=
  match handleRead session.http session.out.conn.state bytes with
  | (http, none) => ⟨http, session.out⟩
  | (http, some input) =>
      ⟨http, connStep conf sha sys session.out.store session.out.importRunning session.out.conn
        input⟩

/-! ## The body of an upload -/

/-- The body bytes that arrive in the read that completes a header block of which
so many bytes are still to come. -/
def rideIn : Nat → List Bytes → Nat
  | _, [] => 0
  | owed, read :: rest =>
      if read.length < owed then rideIn (owed - read.length) rest else read.length - owed

/-- The header block is that of a PUT the server takes the body of. -/
def Accepts (conf : Conf) (sys : Sys) (st : Store) (importRunning : Bool) (req : HttpRequest) :
    Prop :=
  (dispatch conf sys st importRunning .fresh { req with body := [] }).conn.state = .recvBody

/-- The staged file holds exactly this body and waits to be hashed. -/
structure Session.Stages (session : Session) (body : Bytes) : Prop where
  state : session.out.conn.state = .hashing
  received : session.out.conn.upReceived = body.length
  staged : ∃ path, session.out.conn.upPath = some path ∧
    session.out.store.files path = some (.regular body)

/-- The status of the answer once the hash child reports. -/
def Session.answer (conf : Conf) (sha : Sha256sum) (sys : Sys) (session : Session) : Option Nat :=
  (connStep conf sha sys session.out.store session.out.importRunning session.out.conn
    .hashed).conn.status

/-- A complete header block, within the cap, and the request it is parsed to. -/
structure HeaderBlock (block : Bytes) (req : HttpRequest) : Prop where
  blank : memmem blankLine block = some (block.length - 4)
  small : block.length ≤ httpMaxHeaders
  parsed : blockVerdict block = .complete req

section Staging

variable {conf : Conf} {sha : Sha256sum} {sys : Sys} {st : Store} {importRunning : Bool}
  {conn : Conn} {req : HttpRequest} {name digest : Bytes} {http : HttpConn}

/-- A PUT is refused for its headers, or staged, whatever came with them. -/
theorem beginUpload_body (conf : Conf) (sys : Sys) (st : Store) (conn : Conn) (req : HttpRequest)
    (name : Bytes) :
    (∃ digest, ∀ body, beginUpload conf sys st conn { req with body := body } name =
      stageUpload sys st conn { req with body := body } name digest) ∨
    ∃ reply, ∀ body, beginUpload conf sys st conn { req with body := body } name =
      (st, conn.respond reply) := by
  have bearer : ∀ body, bearerOk { req with body := body } conf.pushToken =
      bearerOk req conf.pushToken := fun _ => rfl
  have declared : ∀ body, declaredDigest { req with body := body } = declaredDigest req :=
    fun _ => rfl
  unfold beginUpload
  simp only [bearer, declared]
  split
  next => exact Or.inr ⟨_, fun _ => rfl⟩
  next =>
    split
    next => exact Or.inr ⟨_, fun _ => rfl⟩
    next =>
      split
      next => exact Or.inr ⟨_, fun _ => rfl⟩
      next =>
        split
        next => exact Or.inr ⟨_, fun _ => rfl⟩
        next =>
          split
          next => exact Or.inr ⟨_, fun _ => rfl⟩
          next digest _ =>
            split
            next => exact Or.inr ⟨_, fun _ => rfl⟩
            next =>
              split
              next => exact Or.inr ⟨_, fun _ => rfl⟩
              next => exact Or.inl ⟨digest, fun _ => rfl⟩

theorem dispatch_put (conf : Conf) (sys : Sys) (st : Store) (importRunning : Bool) (conn : Conn)
    {path : Bytes} (method : req.method = ascii "PUT") (named : dispatchPath req = some path) :
    dispatch conf sys st importRunning conn req =
      if isArtifactPath path then
        if slash ∈ path.drop 1 then
          ⟨st, importRunning, conn.respond (.error 404 (ascii "no such artifact"))⟩
        else
          ⟨(beginUpload conf sys st conn req (path.drop 1)).1, importRunning,
            (beginUpload conf sys st conn req (path.drop 1)).2⟩
      else ⟨st, importRunning, conn.respond (.error 404 (ascii "no such endpoint"))⟩ := by
  have notGet : ascii "PUT" ≠ ascii "GET" := by decide
  have notHead : ascii "PUT" ≠ ascii "HEAD" := by decide
  have notPost : ascii "PUT" ≠ ascii "POST" := by decide
  rw [dispatch, named]
  dsimp only
  split
  next =>
    rw [dispatchArtifact]
    split
    next => rfl
    next =>
      rw [method, if_neg (by simp [notGet, notHead])]
  next =>
    rw [method, if_neg (by simp [notGet])]
    split
    next => simp [dispatchApi, method, notGet, notPost]
    next => rw [if_neg (by simp [notGet, notHead])]

/-- An accepted PUT is staged under its name with whatever body bytes came with
its headers. -/
theorem Accepts.stages (accepts : Accepts conf sys st importRunning req) :
    ∃ name digest, ∀ body,
      dispatch conf sys st importRunning .fresh { req with body := body } =
        ⟨(stageUpload sys st .fresh { req with body := body } name digest).1, importRunning,
          (stageUpload sys st .fresh { req with body := body } name digest).2⟩ := by
  have refuses : ∀ {out : Conn}, Answered .fresh out → out.state ≠ .recvBody := by
    rintro out ⟨reply, _, rfl⟩
    simp
  unfold Accepts at accepts
  cases dispatch_outcome conf sys st importRunning .fresh { req with body := [] } with
  | answered store reply => exact absurd accepts (refuses reply)
  | withdrawn path named method store reply => exact absurd accepts (refuses reply)
  | collected dryRun asked store reply => exact absurd accepts (refuses reply)
  | uploaded path named method store begun =>
      have routes : ∀ body, _ := fun body =>
        dispatch_put conf sys st importRunning .fresh
          (show HttpRequest.method { req with body := body } = ascii "PUT" from method) named
      rw [routes] at accepts
      split at accepts
      next artifact =>
        split at accepts
        next => contradiction
        next plain =>
          simp only [routes, if_pos artifact, if_neg plain]
          rcases beginUpload_body conf sys st .fresh req (path.drop 1) with
            ⟨digest, staged⟩ | ⟨reply, refused⟩
          · exact ⟨path.drop 1, digest, fun body => by rw [staged]⟩
          · rw [refused] at accepts
            contradiction
      next => contradiction

/-- The connection of an upload that has staged so many bytes. -/
def Conn.staging (path : Path) (name digest : Bytes) (expect received : Nat) : Conn :=
  { Conn.fresh with
    state := .recvBody, upFd := true, upPath := some path, upDigest := digest, upName := name,
    upExpect := expect, upReceived := received }

/-- The session of an upload that has staged these bytes. -/
def Session.staging (http : HttpConn) (sys : Sys) (st : Store) (importRunning : Bool) (path : Path)
    (name digest : Bytes) (expect : Nat) (written : Bytes) : Session :=
  ⟨http, st.withFiles (Function.update st.files path (some (.regular written))), importRunning,
    hashWhenComplete sys (.staging path name digest expect written.length)⟩

theorem hashWhenComplete_hashing (succeeds : sys.Succeeds) (complete : conn.upExpect ≤ conn.upReceived) :
    hashWhenComplete sys conn = { conn with upFd := false, child := .watched, state := .hashing } := by
  unfold hashWhenComplete startHashChild
  rw [if_pos complete]
  simp [succeeds .pipe, succeeds .fork, succeeds .pidfdOpen, succeeds .connNew, succeeds .epollAdd]

/-- Staging writes what came with the headers. -/
theorem stageUpload_staging (succeeds : sys.Succeeds) (http : HttpConn) (importRunning : Bool)
    (req : HttpRequest) :
    Session.mk http ⟨(stageUpload sys st .fresh req name digest).1, importRunning,
        (stageUpload sys st .fresh req name digest).2⟩ =
      .staging http sys (storeTmpPath st).2 importRunning (storeTmpPath st).1 name digest
        req.contentLength req.body := by
  unfold stageUpload storeTmpPath
  dsimp only
  have made : create sys st.files (.tmp (.up st.pid st.tmpCounter)) =
      some (Function.update st.files (.tmp (.up st.pid st.tmpCounter)) (some (.regular []))) := by
    simp [create, succeeds _]
  rw [made]
  dsimp only
  cases body : req.body with
  | nil => rfl
  | cons head tail =>
      have wrote : append sys
          (Function.update st.files (.tmp (.up st.pid st.tmpCounter)) (some (.regular [])))
          (.tmp (.up st.pid st.tmpCounter)) (head :: tail) =
            some (Function.update st.files (.tmp (.up st.pid st.tmpCounter))
              (some (.regular (head :: tail)))) := by
        simp [append, succeeds _]
      dsimp only
      rw [wrote]
      rfl

/-- The reads after the headers write what is left of the body, and no more. -/
theorem readStep_staging (succeeds : sys.Succeeds) (path : Path) (expect : Nat)
    (written bytes : Bytes) :
    readStep conf sha sys (.staging http sys st importRunning path name digest expect written)
        bytes =
      .staging http sys st importRunning path name digest expect
        (written ++ bytes.take (expect - written.length)) := by
  by_cases complete : expect ≤ written.length
  · have none_left : expect - written.length = 0 := by omega
    have hashing : hashWhenComplete sys (Conn.staging path name digest expect written.length) = _ :=
      hashWhenComplete_hashing succeeds complete
    rw [none_left, List.take_zero, List.append_nil]
    unfold readStep Session.staging
    rw [hashing]
    rfl
  · have receiving : hashWhenComplete sys (Conn.staging path name digest expect written.length) =
        Conn.staging path name digest expect written.length := by
      unfold hashWhenComplete
      exact if_neg complete
    unfold readStep Session.staging
    rw [receiving]
    dsimp only [handleRead, Conn.staging, connStep, recvBody]
    have wrote : append sys
        (st.withFiles (Function.update st.files path (some (.regular written)))).files path
          (bytes.take (expect - written.length)) =
            some (Function.update st.files path
              (some (.regular (written ++ bytes.take (expect - written.length))))) := by
      simp [append, succeeds _]
    rw [wrote]
    dsimp only
    rw [List.length_append]
    rfl

theorem run_staging (succeeds : sys.Succeeds) (path : Path) (expect : Nat) (written : Bytes)
    (reads : List Bytes) :
    run (readStep conf sha sys) (.staging http sys st importRunning path name digest expect written)
        reads =
      .staging http sys st importRunning path name digest expect
        (written ++ reads.flatten.take (expect - written.length)) := by
  induction reads generalizing written with
  | nil => simp
  | cons read rest inductionHypothesis =>
      rw [run_cons, readStep_staging succeeds, inductionHypothesis, List.append_assoc,
        List.flatten_cons, List.take_append, List.length_append, List.length_take]
      congr 4
      omega

/-- Up to the end of its header block a stream is only buffered; the read that
completes the block is dispatched with the body bytes it brings. -/
theorem run_block (conf : Conf) (sha : Sha256sum) (sys : Sys) (st : Store) (importRunning : Bool)
    {block body seen : Bytes} {reads : List Bytes} (header : HeaderBlock block req)
    (early : seen.length < block.length) (stream : seen ++ reads.flatten = block ++ body) :
    ∃ (before : HttpConn) (rest : List Bytes) (brought : Bytes),
      run (readStep conf sha sys) ⟨⟨seen, none⟩, ⟨st, importRunning, .fresh⟩⟩ reads =
        run (readStep conf sha sys)
          ⟨before, dispatch conf sys st importRunning .fresh { req with body := brought }⟩ rest ∧
      brought ++ rest.flatten = body ∧
      brought.length = rideIn (block.length - seen.length) reads := by
  induction reads generalizing seen with
  | nil =>
      have lengths := congrArg List.length stream
      rw [List.flatten_nil, List.append_nil, List.length_append] at lengths
      omega
  | cons read rest inductionHypothesis =>
      rw [List.flatten_cons, ← List.append_assoc] at stream
      have whole : memmem blankLine (block ++ body) = some (block.length - 4) :=
        memmem_append header.blank body
      have bound : block.length - 4 + 4 ≤ block.length := memmem_bound header.blank
      rw [run_cons]
      by_cases owed : read.length < block.length - seen.length
      · have absent : memmem blankLine (seen ++ read) = none := by
          by_contra found
          obtain ⟨offset, found⟩ := Option.ne_none_iff_exists'.mp found
          have inside : offset + 4 ≤ (seen ++ read).length := memmem_bound found
          have same := memmem_append found rest.flatten
          rw [stream, whole] at same
          have offsets := Option.some.inj same
          rw [List.length_append] at inside
          omega
        have buffered : readStep conf sha sys
            ⟨⟨seen, none⟩, ⟨st, importRunning, .fresh⟩⟩ read =
              ⟨⟨seen ++ read, none⟩, ⟨st, importRunning, .fresh⟩⟩ := by
          have fits : (seen ++ read).length ≤ httpMaxHeaders := by
            have small := header.small
            rw [List.length_append]
            omega
          unfold readStep handleRead
          dsimp only [Conn.fresh]
          rw [httpConnFeed_unterminated absent, decide_eq_true fits]
          rfl
        rw [buffered, rideIn, if_pos owed]
        have shorter : (seen ++ read).length < block.length := by
          rw [List.length_append]
          omega
        obtain ⟨before, later, brought, ran, body, length⟩ :=
          inductionHypothesis shorter stream
        refine ⟨before, later, brought, ran, body, ?_⟩
        rw [length, List.length_append]
        congr 1
        omega
      · have lengths := congrArg List.length stream
        have arrived : block.length ≤ (seen ++ read).length := by
          rw [List.length_append]
          omega
        have start : (seen ++ read).take block.length = block := by
          have cut := congrArg (List.take block.length) stream
          rw [List.take_append_of_le_length arrived, List.take_append_of_le_length (Nat.le_refl _),
            List.take_length] at cut
          exact cut
        have split : seen ++ read = block ++ (seen ++ read).drop block.length := by
          conv_lhs => rw [← List.take_append_drop block.length (seen ++ read), start]
        have found : memmem blankLine (seen ++ read) = some (block.length - 4) := by
          rw [split]
          exact memmem_append header.blank _
        have ends : block.length - 4 + 4 = block.length := by omega
        refine ⟨⟨seen ++ read, some block.length⟩, rest, (seen ++ read).drop block.length, ?_, ?_, ?_⟩
        · congr 1
          unfold readStep handleRead
          dsimp only [Conn.fresh]
          rw [httpConnFeed_terminated found, ends, decide_eq_true header.small]
          dsimp only
          rw [httpConnTryParse_block arrived, start, header.parsed]
          rfl
        · have cut := congrArg (List.drop block.length) stream
          rw [List.drop_append_of_le_length arrived, List.drop_append_of_le_length (Nat.le_refl _),
            List.drop_length, List.nil_append] at cut
          exact cut
        · rw [rideIn, if_neg owed, List.length_drop, List.length_append]
          omega

/-- Where an accepted upload stands when its reads are over. -/
theorem run_upload (sha : Sha256sum) (succeeds : sys.Succeeds) {block body : Bytes} (header : HeaderBlock block req)
    (accepts : Accepts conf sys st importRunning req) :
    ∃ name digest, ∀ reads : List Bytes, reads.flatten = block ++ body →
      rideIn block.length reads ≤ body.length ∧
      ∃ before, run (readStep conf sha sys) (.fresh st importRunning) reads =
        .staging before sys (storeTmpPath st).2 importRunning (storeTmpPath st).1 name digest
          req.contentLength (body.take (max (rideIn block.length reads) req.contentLength)) := by
  obtain ⟨name, digest, staged⟩ := accepts.stages
  refine ⟨name, digest, ?_⟩
  intro reads stream
  have some_block : ([] : Bytes).length < block.length := by
    have bound : block.length - 4 + 4 ≤ block.length := memmem_bound header.blank
    rw [List.length_nil]
    omega
  obtain ⟨before, rest, brought, ran, whole, length⟩ :=
    run_block conf sha sys st importRunning header some_block stream
  rw [List.length_nil, Nat.sub_zero] at length
  have inside : rideIn block.length reads ≤ body.length := by
    rw [← length, ← whole, List.length_append]
    omega
  refine ⟨inside, before, ?_⟩
  show run (readStep conf sha sys) ⟨⟨[], none⟩, ⟨st, importRunning, .fresh⟩⟩ reads = _
  rw [ran, staged, stageUpload_staging succeeds, run_staging succeeds]
  congr 1
  rw [← whole, ← length, List.take_append]
  congr 1
  · exact (List.take_of_length_le (Nat.le_max_left _ _)).symm
  · congr 1
    dsimp only
    omega

/-- However the stream of an accepted PUT is cut into reads, the staged file holds
exactly its body if and only if the read that completes the header block brings no
more than the body; and all such cuts are answered alike. -/
theorem stages_iff (succeeds : sys.Succeeds) {block body : Bytes} (header : HeaderBlock block req)
    (accepts : Accepts conf sys st importRunning req) (enough : req.contentLength ≤ body.length) :
    (∀ reads : List Bytes, reads.flatten = block ++ body →
      ((run (readStep conf sha sys) (.fresh st importRunning) reads).Stages
          (body.take req.contentLength) ↔
        rideIn block.length reads ≤ req.contentLength)) ∧
    ∀ reads others : List Bytes, reads.flatten = block ++ body → others.flatten = block ++ body →
      rideIn block.length reads ≤ req.contentLength →
      rideIn block.length others ≤ req.contentLength → ∀ later,
        (run (readStep conf sha sys) (.fresh st importRunning) reads).answer conf sha later =
          (run (readStep conf sha sys) (.fresh st importRunning) others).answer conf sha later := by
  obtain ⟨name, digest, uploads⟩ := run_upload sha succeeds header accepts
  constructor
  · intro reads stream
    obtain ⟨inside, before, ran⟩ := uploads reads stream
    have length : (body.take req.contentLength).length = req.contentLength := by
      rw [List.length_take]
      omega
    rw [ran]
    constructor
    · intro stages
      by_contra more
      rw [Nat.not_le] at more
      have received := stages.received
      rw [Nat.max_eq_left (Nat.le_of_lt more)] at received
      have long : (body.take (rideIn block.length reads)).length = rideIn block.length reads := by
        rw [List.length_take]
        omega
      have hashing : hashWhenComplete sys (Conn.staging (storeTmpPath st).1 name digest
          req.contentLength (body.take (rideIn block.length reads)).length) = _ :=
        hashWhenComplete_hashing succeeds (by rw [long]; exact Nat.le_of_lt more)
      rw [Session.staging, hashing] at received
      have same : (body.take (rideIn block.length reads)).length =
          (body.take req.contentLength).length := received
      omega
    · intro few
      rw [Nat.max_eq_right few]
      have hashing : hashWhenComplete sys (Conn.staging (storeTmpPath st).1 name digest
          req.contentLength (body.take req.contentLength).length) = _ :=
        hashWhenComplete_hashing succeeds (by rw [length]; exact Nat.le_refl _)
      unfold Session.staging
      rw [hashing]
      exact ⟨rfl, rfl, _, rfl, Function.update_self ..⟩
  · intro reads others stream same few fewOthers later
    obtain ⟨_, before, ran⟩ := uploads reads stream
    obtain ⟨_, beforeOthers, ranOthers⟩ := uploads others same
    rw [ran, ranOthers, Nat.max_eq_right few, Nat.max_eq_right fewOthers]
    rfl

end Staging

/-! ### A stream with a byte to spare -/

/-- The header block of a PUT of the one byte "a". -/
def oneByteBlock : Bytes :=
  ascii "PUT /foo-1-1-x86_64.tar.gz HTTP/1.1\r\nContent-Length: 1\r\nX-Cix-Sha256: " ++
    Sha256sum.sample.digest (ascii "a") ++ blankLine

def oneByteRequest : HttpRequest where
  method := ascii "PUT"
  path := ascii "/foo-1-1-x86_64.tar.gz"
  contentLength := 1
  headers := oneByteBlock.take (oneByteBlock.length - 4)
  body := []

/-- A server with an empty store has read this. -/
def oneByteSession (reads : List Bytes) : Session :=
  run (readStep Conf.sample Sha256sum.sample (Sys.succeeding fun _ => none))
    (.fresh (Store.holding [] []) false) reads

theorem headerBlock_oneByte : HeaderBlock oneByteBlock oneByteRequest := by
  obtain ⟨blank, small, parsed⟩ :
      memmem blankLine oneByteBlock = some (oneByteBlock.length - 4) ∧
        oneByteBlock.length ≤ httpMaxHeaders ∧
        blockVerdict oneByteBlock = .complete oneByteRequest := by
    decide +kernel
  exact ⟨blank, small, parsed⟩

theorem accepts_oneByte :
    Accepts Conf.sample (Sys.succeeding fun _ => none) (Store.holding [] []) false oneByteRequest := by
  unfold Accepts
  decide +kernel

/-- A second byte that comes with the headers is staged with the body, and the
upload is refused; when it comes later, it is left alone. -/
theorem ridden_byte_staged :
    ([oneByteBlock ++ ascii "ab"].flatten = oneByteBlock ++ ascii "ab" ∧
        ¬ (oneByteSession [oneByteBlock ++ ascii "ab"]).Stages (ascii "a") ∧
        (oneByteSession [oneByteBlock ++ ascii "ab"]).answer .sample .sample
          (Sys.succeeding fun _ => none) = some 400) ∧
      [oneByteBlock, ascii "ab"].flatten = oneByteBlock ++ ascii "ab" ∧
        (oneByteSession [oneByteBlock, ascii "ab"]).answer .sample .sample
          (Sys.succeeding fun _ => none) = some 201 := by
  obtain ⟨received, refused, accepted⟩ :
      (oneByteSession [oneByteBlock ++ ascii "ab"]).out.conn.upReceived = 2 ∧
        (oneByteSession [oneByteBlock ++ ascii "ab"]).answer .sample .sample
          (Sys.succeeding fun _ => none) = some 400 ∧
        (oneByteSession [oneByteBlock, ascii "ab"]).answer .sample .sample
          (Sys.succeeding fun _ => none) = some 201 := by
    decide +kernel
  refine ⟨⟨by simp, ?_, refused⟩, by simp, accepted⟩
  intro stages
  have expected := stages.received
  rw [received] at expected
  exact absurd expected (by decide)

theorem later_byte_left :
    (oneByteSession [oneByteBlock, ascii "ab"]).Stages ((ascii "ab").take 1) := by
  have enough : oneByteRequest.contentLength ≤ (ascii "ab").length := by decide
  have split : [oneByteBlock, ascii "ab"].flatten = oneByteBlock ++ ascii "ab" := by simp
  exact ((stages_iff (Sys.succeeds_succeeding _) headerBlock_oneByte accepts_oneByte enough).1
    _ split).mpr (by decide +kernel)

end CixCache
