import CixCache.JsonWriter
import CixCache.Lib.Run
import CixCache.Server.Dispatch

/-!
Contract: how a begun response is written to its socket.

Owns: the fields of a connection that a response is sent from; `handleWrite`, one
turn of its loop; the GET and HEAD handlers with the fields they set; that a run
of the loop sends the header and the body and nothing else; and that the handlers
begin the replies of `dispatch`.

Does not own: what a reply says.
-/

namespace CixCache

open CixCache.Lib

/-! ## Functions of the source -/

/-- HDR_MAX -/
def hdrMax : Nat := 1024

/-- SENDFILE_CHUNK -/
def sendfileChunk : Nat := 4 * 1024 * 1024

def httpStatusText (status : Nat) : Bytes :=
  match status with
  | 200 => ascii "OK"
  | 201 => ascii "Created"
  | 204 => ascii "No Content"
  | 400 => ascii "Bad Request"
  | 401 => ascii "Unauthorized"
  | 404 => ascii "Not Found"
  | 405 => ascii "Method Not Allowed"
  | 409 => ascii "Conflict"
  | 411 => ascii "Length Required"
  | 413 => ascii "Payload Too Large"
  | 500 => ascii "Internal Server Error"
  | 503 => ascii "Service Unavailable"
  | _ => ascii "Error"

theorem httpStatusText_length (status : Nat) : (httpStatusText status).length ≤ 21 := by
  unfold httpStatusText
  split <;> decide

def headerText (status : Nat) (contentType : Bytes) (contentLength : Nat) (extra : Bytes) : Bytes :=
  ascii "HTTP/1.1 " ++ printed status ++ ascii " " ++ httpStatusText status ++
    ascii "\r\nContent-Type: " ++ contentType ++ ascii "\r\nContent-Length: " ++
    printed contentLength ++ ascii "\r\nConnection: close\r\n" ++ extra ++ ascii "\r\n"

/-- The header, when it fits the buffer of a connection. -/
def httpFormatHeader (status : Nat) (contentType : Bytes) (contentLength : Nat) (extra : Bytes) :
    Option Bytes :=
  let text := headerText status contentType contentLength extra
  if hdrMax ≤ text.length then none else some text

inductive SendState where
  | readRequest
  | sendHeader
  | sendBody
  | dead
deriving DecidableEq, Repr

/-- The fields of `struct conn` that a response is sent from, and the bytes that
were written to its socket. `blob` is what `blob_fd` reads. -/
structure Sender where
  state : SendState
  hdr : Bytes
  hdrOff : Nat
  headOnly : Bool
  blob : Option Bytes
  bodyOff : Nat
  bodyLen : Nat
  outBuf : Option Bytes
  outOff : Nat
  sent : Bytes
deriving DecidableEq, Repr

/-- A connection whose request was read and is dispatched. -/
def Sender.fresh : Sender := ⟨.readRequest, [], 0, false, none, 0, 0, none, 0, []⟩

def Sender.connClose (cc : Sender) : Sender :=
  { cc with state := .dead, blob := none, outBuf := none }

def Sender.beginResponse (cc : Sender) (status : Nat) (contentType extra : Bytes)
    (contentLength : Nat) : Sender :=
  match httpFormatHeader status contentType contentLength extra with
  | none => cc.connClose
  | some text => { cc with hdr := text, hdrOff := 0, state := .sendHeader }

def Sender.respondBuffer (cc : Sender) (status : Nat) (contentType body : Bytes) : Sender :=
  { cc with outBuf := some body, outOff := 0 }.beginResponse status contentType [] body.length

/-- The body of `respond_error`. -/
def errorBody (msg : Bytes) : Bytes :=
  (jwObjClose (jwStr (jwKey (jwObjOpen jwInit) (ascii "error")) msg)).buf

def Sender.respondError (cc : Sender) (status : Nat) (msg : Bytes) : Sender :=
  cc.respondBuffer status (ascii "application/json") (errorBody msg)

def Sender.serveArtifact (conf : Conf) (st : Store) (cc : Sender) (req : HttpRequest)
    (name : Bytes) (headOnly : Bool) : Sender :=
  if bearerOk req conf.pullToken = false then
    cc.respondError 401 (ascii "authentication required")
  else
    match storeOpen st name with
    | .error error =>
        if error = .ambiguous then cc.respondError 409 (storeErrorStr error)
        else cc.respondError (if error = .invalidName then 400 else 404) (storeErrorStr error)
    | .ok (content, resolved) =>
        let extra := ascii "X-Cix-Sha256: " ++ resolved.digest ++ [carriageReturn, lineFeed]
        let cc := { cc with headOnly := headOnly }
        if headOnly then
          cc.beginResponse 200 (artifactContentType resolved.name) extra content.length
        else
          { cc with blob := some content, bodyOff := 0, bodyLen := content.length }.beginResponse
            200 (artifactContentType resolved.name) extra content.length

/-- What reading an asset whole comes to. -/
inductive AssetRead where
  | whole
  | noMemory
  | short
deriving DecidableEq, Repr

def Sender.serveStatic (conf : Conf) (read : AssetRead) (cc : Sender) (reqPath : Bytes)
    (headOnly : Bool) : Sender :=
  if [dot, dot] <:+: reqPath then cc.respondError 400 (ascii "bad path")
  else
    let asset := if reqPath = [slash] then ascii "/index.html" else reqPath
    let path := conf.webRoot ++ asset
    if pathMax ≤ path.length then cc.respondError 400 (ascii "bad path")
    else
      match conf.webFiles path with
      | none => cc.respondError 404 (ascii "no such endpoint")
      | some content =>
          if headOnly then
            { cc with headOnly := true }.beginResponse 200 (contentTypeFor path) [] content.length
          else
            match read with
            | .noMemory => cc.respondError 500 (ascii "out of memory")
            | .short => cc.respondError 500 (ascii "short read")
            | .whole => cc.respondBuffer 200 (contentTypeFor path) content

/-- The GET and HEAD branches of `dispatch` for artifacts and assets. -/
def Sender.dispatchContent (conf : Conf) (st : Store) (read : AssetRead) (cc : Sender)
    (req : HttpRequest) (path : Bytes) : Sender :=
  if isArtifactPath path then
    if slash ∈ path.drop 1 then cc.respondError 404 (ascii "no such artifact")
    else cc.serveArtifact conf st req (path.drop 1) (decide (req.method = ascii "HEAD"))
  else cc.serveStatic conf read path (decide (req.method = ascii "HEAD"))

/-- What `write` or `sendfile` answers; `failed` is an error that ends the
connection, as a hangup or a timeout does. -/
inductive Written where
  | wrote (n : Nat)
  | tryAgain
  | interrupted
  | failed
deriving DecidableEq, Repr

/-- The header turn of `handle_write`. -/
def Sender.writeHeader (cc : Sender) (n : Nat) : Sender :=
  let part := (cc.hdr.drop cc.hdrOff).take n
  let cc := { cc with hdrOff := cc.hdrOff + part.length, sent := cc.sent ++ part }
  if cc.hdrOff < cc.hdr.length then cc
  else if cc.headOnly || (cc.blob.isNone && cc.outBuf.isNone) then cc.connClose
  else { cc with state := .sendBody }

/-- The `sendfile` turn. -/
def Sender.sendBlob (cc : Sender) (content : Bytes) (n : Nat) : Sender :=
  let chunk := min sendfileChunk (cc.bodyLen - cc.bodyOff)
  let part := (content.drop cc.bodyOff).take (min n chunk)
  if part = [] then cc.connClose
  else
    let cc := { cc with bodyOff := cc.bodyOff + part.length, sent := cc.sent ++ part }
    if cc.bodyLen ≤ cc.bodyOff then cc.connClose else cc

/-- The turn that writes a buffered body. -/
def Sender.writeBuffer (cc : Sender) (body : Bytes) (n : Nat) : Sender :=
  let part := (body.drop cc.outOff).take n
  let cc := { cc with outOff := cc.outOff + part.length, sent := cc.sent ++ part }
  if body.length ≤ cc.outOff then cc.connClose else cc

/-- What a turn does with the answer to its call. -/
def Sender.onWritten (cc : Sender) (written : Nat → Sender) : Written → Sender
  | .wrote n => written n
  | .tryAgain => cc
  | .interrupted => cc
  | .failed => cc.connClose

/-- One turn of the loop of `handle_write`. -/
def Sender.handleWrite (cc : Sender) (answer : Written) : Sender :=
  match cc.state with
  | .dead => cc
  | .readRequest => cc.connClose
  | .sendHeader => cc.onWritten cc.writeHeader answer
  | .sendBody =>
      match cc.blob with
      | some content =>
          if cc.bodyLen ≤ cc.bodyOff then cc.connClose else cc.onWritten (cc.sendBlob content) answer
      | none =>
          match cc.outBuf with
          | some body => cc.onWritten (cc.writeBuffer body) answer
          | none => cc.connClose

/-! ## What is sent -/

/-- What stands to be sent behind the header. -/
def Sender.pending (cc : Sender) : Bytes :=
  if cc.headOnly then [] else (cc.blob.or cc.outBuf).getD []

/-- A connection that sends a header and a body: it is somewhere in the header, in
the body, or closed. -/
inductive Sends (text body : Bytes) (cc : Sender) : Prop
  | header (state : cc.state = .sendHeader) (hdr : cc.hdr = text)
      (sent : cc.sent = text.take cc.hdrOff) (body : cc.pending = body)
      (start : cc.bodyOff = 0 ∧ cc.outOff = 0)
  | blob (state : cc.state = .sendBody) (blob : cc.blob = some body)
      (sent : cc.sent = text ++ body.take cc.bodyOff)
  | buffer (state : cc.state = .sendBody) (noBlob : cc.blob = none) (buffer : cc.outBuf = some body)
      (sent : cc.sent = text ++ body.take cc.outOff)
  | dead (state : cc.state = .dead) (sent : cc.sent <+: text ++ body)

section Turns

variable {text body : Bytes} {cc : Sender}

theorem Sends.sent_within (sends : Sends text body cc) : cc.sent <+: text ++ body := by
  cases sends with
  | header _ _ sent _ _ =>
      rw [sent]
      exact (List.take_prefix _ _).trans (List.prefix_append _ _)
  | blob _ _ sent =>
      rw [sent]
      exact (List.prefix_append_right_inj _).mpr (List.take_prefix _ _)
  | buffer _ _ _ sent =>
      rw [sent]
      exact (List.prefix_append_right_inj _).mpr (List.take_prefix _ _)
  | dead _ sent => exact sent

theorem Sends.connClose (sends : Sends text body cc) : Sends text body cc.connClose :=
  .dead rfl sends.sent_within

theorem Sends.onWritten (sends : Sends text body cc) {written : Nat → Sender}
    (wrote : ∀ n, Sends text body (written n)) (answer : Written) :
    Sends text body (cc.onWritten written answer) := by
  cases answer with
  | wrote n => exact wrote n
  | tryAgain => exact sends
  | interrupted => exact sends
  | failed => exact sends.connClose

/-- What was written next continues what was written before. -/
theorem take_append_part (whole : Bytes) (done n : Nat) :
    whole.take done ++ (whole.drop done).take n =
      whole.take (done + ((whole.drop done).take n).length) := by
  rw [List.take_add]
  congr 1
  exact List.prefix_iff_eq_take.mp (List.take_prefix _ _)

theorem Sends.writeHeader (state : cc.state = .sendHeader) (hdr : cc.hdr = text)
    (sent : cc.sent = text.take cc.hdrOff) (pending : cc.pending = body)
    (start : cc.bodyOff = 0 ∧ cc.outOff = 0) (n : Nat) : Sends text body (cc.writeHeader n) := by
  have longer : cc.sent ++ (cc.hdr.drop cc.hdrOff).take n =
      text.take (cc.hdrOff + ((cc.hdr.drop cc.hdrOff).take n).length) := by
    rw [sent, hdr]
    exact take_append_part _ _ _
  unfold Sender.writeHeader
  dsimp only
  rw [longer]
  split
  next => exact .header state hdr rfl pending start
  next whole =>
    have complete : text.take (cc.hdrOff + ((cc.hdr.drop cc.hdrOff).take n).length) = text := by
      apply List.take_of_length_le
      rw [hdr] at whole ⊢
      omega
    rw [complete]
    split
    next => exact .dead rfl (List.prefix_append _ _)
    next more =>
      unfold Sender.pending at pending
      rw [Bool.or_eq_true, not_or, Bool.not_eq_true] at more
      rw [more.1] at pending
      rw [if_neg (by simp)] at pending
      cases blob : cc.blob with
      | some content =>
          rw [blob] at pending
          exact .blob rfl (congrArg some pending) (by rw [start.1]; simp)
      | none =>
          cases buffer : cc.outBuf with
          | some content =>
              rw [blob, buffer] at pending
              exact .buffer rfl rfl (congrArg some pending) (by rw [start.2]; simp)
          | none => exact absurd (by simp [blob, buffer]) more.2

theorem Sends.sendBlob (state : cc.state = .sendBody) (blob : cc.blob = some body)
    (sent : cc.sent = text ++ body.take cc.bodyOff) (n : Nat) :
    Sends text body (cc.sendBlob body n) := by
  have before : Sends text body cc := .blob state blob sent
  have longer : ∀ part, part <+: body.drop cc.bodyOff → cc.sent ++ part =
      text ++ body.take (cc.bodyOff + part.length) := by
    intro part inside
    rw [sent, List.append_assoc, List.take_add, ← List.prefix_iff_eq_take.mp inside]
  unfold Sender.sendBlob
  dsimp only
  split
  next => exact before.connClose
  next =>
    rw [longer _ (List.take_prefix _ _)]
    have after : Sends text body { cc with
        bodyOff := cc.bodyOff + ((body.drop cc.bodyOff).take
          (min n (min sendfileChunk (cc.bodyLen - cc.bodyOff)))).length
        sent := text ++ body.take (cc.bodyOff + ((body.drop cc.bodyOff).take
          (min n (min sendfileChunk (cc.bodyLen - cc.bodyOff)))).length) } :=
      .blob state blob rfl
    split
    next => exact after.connClose
    next => exact after

theorem Sends.writeBuffer (state : cc.state = .sendBody) (noBlob : cc.blob = none)
    (buffer : cc.outBuf = some body) (sent : cc.sent = text ++ body.take cc.outOff) (n : Nat) :
    Sends text body (cc.writeBuffer body n) := by
  have longer : cc.sent ++ (body.drop cc.outOff).take n =
      text ++ body.take (cc.outOff + ((body.drop cc.outOff).take n).length) := by
    rw [sent, List.append_assoc, take_append_part]
  unfold Sender.writeBuffer
  dsimp only
  rw [longer]
  have after : Sends text body { cc with
      outOff := cc.outOff + ((body.drop cc.outOff).take n).length
      sent := text ++ body.take (cc.outOff + ((body.drop cc.outOff).take n).length) } :=
    .buffer state noBlob buffer rfl
  split
  next => exact after.connClose
  next => exact after

theorem Sends.handleWrite (sends : Sends text body cc) (answer : Written) :
    Sends text body (cc.handleWrite answer) := by
  unfold Sender.handleWrite
  cases sends with
  | header state hdr sent pending start =>
      rw [state]
      exact Sends.onWritten (.header state hdr sent pending start)
        (Sends.writeHeader state hdr sent pending start) answer
  | blob state blob sent =>
      have before : Sends text body cc := .blob state blob sent
      rw [state, blob]
      dsimp only
      split
      next => exact before.connClose
      next => exact before.onWritten (Sends.sendBlob state blob sent) answer
  | buffer state noBlob buffer sent =>
      rw [state, noBlob, buffer]
      exact Sends.onWritten (.buffer state noBlob buffer sent)
        (Sends.writeBuffer state noBlob buffer sent) answer
  | dead state sent =>
      rw [state]
      exact .dead state sent

/-- Whatever the socket takes, what was sent is a beginning of header and body. -/
theorem Sends.along_run (sends : Sends text body cc) (answers : List Written) :
    Sends text body (run Sender.handleWrite cc answers) := by
  induction answers generalizing cc with
  | nil => exact sends
  | cons answer rest inductionHypothesis => exact inductionHypothesis (sends.handleWrite answer)

/-- A buffered response arrives whole when the socket takes all of it. -/
theorem buffered_delivered (state : cc.state = .sendHeader) (start : cc.hdrOff = 0 ∧ cc.outOff = 0)
    (clean : cc.sent = []) (bodied : cc.headOnly = false) (noBlob : cc.blob = none)
    (buffer : cc.outBuf = some body) :
    (run Sender.handleWrite cc [.wrote cc.hdr.length, .wrote body.length]).sent =
      cc.hdr ++ body := by
  have header : cc.handleWrite (.wrote cc.hdr.length) =
      { cc with hdrOff := cc.hdr.length, sent := cc.hdr, state := .sendBody } := by
    unfold Sender.handleWrite
    rw [state]
    dsimp only [Sender.onWritten]
    unfold Sender.writeHeader
    simp [start.1, clean, bodied, buffer]
  rw [run_cons, header, run_cons, run_nil]
  unfold Sender.handleWrite
  dsimp only
  rw [noBlob]
  dsimp only
  rw [buffer]
  dsimp only [Sender.onWritten]
  unfold Sender.writeBuffer
  simp [start.2, Sender.connClose]

end Turns

end CixCache
