import CixCache.Server.Sending

/-!
Contract: a response over any number of calls of `handle_write`.

Owns: `Transfer`, a connection beside `g_served_bytes`; one call of `handle_write` as
the answers to its system calls drive it; and that header and body are delivered once,
in order, whole unless the connection broke, with the body bytes counted.

Does not own: one turn of the loop (`Server.Sending`), or who calls it.
-/

namespace CixCache

open CixCache.Lib

/-! ## Functions of the source -/

/-- The bytes a turn writes behind the header, which `g_served_bytes` grows by. -/
def Sender.servedBy (cc : Sender) (answer : Written) : Nat :=
  match cc.state, answer with
  | .sendBody, .wrote n =>
      match cc.blob with
      | some content =>
          if cc.bodyLen ≤ cc.bodyOff then 0
          else ((content.drop cc.bodyOff).take
            (min n (min sendfileChunk (cc.bodyLen - cc.bodyOff)))).length
      | none =>
          match cc.outBuf with
          | some body => ((body.drop cc.outOff).take n).length
          | none => 0
  | _, _ => 0

/-- A turn closes the connection because its call failed, or because `sendfile` came to
the end of the blob too early. -/
def Sender.breaks (cc : Sender) (answer : Written) : Bool :=
  match cc.state, answer with
  | .sendHeader, .failed => true
  | .sendBody, .failed =>
      match cc.blob with
      | some _ => decide (cc.bodyOff < cc.bodyLen)
      | none => cc.outBuf.isSome
  | .sendBody, .wrote n =>
      match cc.blob with
      | some content =>
          decide (cc.bodyOff < cc.bodyLen) &&
            ((content.drop cc.bodyOff).take
              (min n (min sendfileChunk (cc.bodyLen - cc.bodyOff)))).isEmpty
      | none => false
  | _, _ => false

/-- A connection, `g_served_bytes`, and whether the connection broke. -/
structure Transfer where
  cc : Sender
  served : Nat
  broken : Bool
deriving DecidableEq, Repr

/-- One turn of the loop of `handle_write`. -/
def Transfer.turn (t : Transfer) (answer : Written) : Transfer where
  cc := t.cc.handleWrite answer
  served := t.served + t.cc.servedBy answer
  broken := t.broken || t.cc.breaks answer

/-- One call of `handle_write`, as far as the answers to its system calls go. -/
def Transfer.handleWrite : Transfer → List Written → Transfer
  | t, [] => t
  | t, answer :: rest =>
      let next := t.turn answer
      if answer = .tryAgain ∨ next.cc.state = .dead then next else next.handleWrite rest

/-! ## What is delivered -/

/-- A response that was begun and of which nothing was sent: its header, and its body
in a buffer, in a blob, or none. -/
structure Sender.Prepared (text body : Bytes) (cc : Sender) : Prop where
  state : cc.state = .sendHeader
  hdr : cc.hdr = text
  unsent : cc.sent = [] ∧ cc.hdrOff = 0 ∧ cc.bodyOff = 0 ∧ cc.outOff = 0
  body : cc.pending = body
  length : ∀ content, cc.blob = some content → cc.bodyLen = content.length

/-- Where a transfer stands: what was delivered is a beginning of the response, all of it
once the connection closed unbroken, and what it holds of the body was counted. -/
structure Transfer.Delivers (text body : Bytes) (start : Nat) (t : Transfer) : Prop where
  sends : Sends text body t.cc
  length : ∀ content, t.cc.blob = some content → t.cc.bodyLen = content.length
  whole : t.cc.state = .dead → t.broken = false → t.cc.sent = text ++ body
  counted : t.served = start + (t.cc.sent.drop text.length).length

section Delivery

variable {text body : Bytes} {start : Nat} {t : Transfer} {cc : Sender}

theorem Sender.Prepared.delivers (prepared : cc.Prepared text body) (served : Nat) :
    Transfer.Delivers text body served ⟨cc, served, false⟩ where
  sends := .header prepared.state prepared.hdr
    (by rw [prepared.unsent.1, prepared.unsent.2.1, List.take_zero]) prepared.body
    prepared.unsent.2.2
  length := prepared.length
  whole := by
    intro dead
    rw [prepared.state] at dead
    contradiction
  counted := by simp [prepared.unsent.1]

/-- A turn to a connection that is known: what it delivers behind the header is counted,
and it does not close before everything was sent unless it breaks. -/
theorem Transfer.Delivers.turn_to (delivers : Delivers text body start t) {answer : Written}
    {after : Sender} (call : t.cc.handleWrite answer = after)
    (length : ∀ content, after.blob = some content → after.bodyLen = content.length)
    (whole : after.state = .dead → t.broken = false → t.cc.breaks answer = false →
      after.sent = text ++ body)
    (counted : (after.sent.drop text.length).length =
      (t.cc.sent.drop text.length).length + t.cc.servedBy answer) :
    Delivers text body start (t.turn answer) := by
  subst call
  refine ⟨delivers.sends.handleWrite answer, length, ?_, ?_⟩
  · intro dead intact
    obtain ⟨unbroken, survived⟩ := Bool.or_eq_false_iff.mp intact
    exact whole dead unbroken survived
  · show t.served + t.cc.servedBy answer =
      start + ((t.cc.handleWrite answer).sent.drop text.length).length
    rw [delivers.counted, counted, Nat.add_assoc]

/-- A turn that leaves the connection as it is. -/
theorem Transfer.Delivers.turn_idle (delivers : Delivers text body start t) {answer : Written}
    (same : t.cc.handleWrite answer = t.cc) (none : t.cc.servedBy answer = 0) :
    Delivers text body start (t.turn answer) :=
  delivers.turn_to same delivers.length
    (fun dead unbroken _ => delivers.whole dead unbroken) (by rw [none, Nat.add_zero])

/-- A turn that closes the connection and sends nothing. -/
theorem Transfer.Delivers.turn_closed (delivers : Delivers text body start t) {answer : Written}
    (closed : t.cc.handleWrite answer = t.cc.connClose) (none : t.cc.servedBy answer = 0)
    (whole : t.cc.breaks answer = false → t.cc.sent = text ++ body) :
    Delivers text body start (t.turn answer) := by
  refine delivers.turn_to closed ?_ (fun _ _ survived => whole survived) ?_
  · intro content noBlob
    contradiction
  · rw [none, Nat.add_zero]
    rfl

theorem writeHeader_sent (sent : cc.sent = cc.hdr.take cc.hdrOff) (n : Nat) :
    (cc.writeHeader n).sent =
      cc.hdr.take (cc.hdrOff + ((cc.hdr.drop cc.hdrOff).take n).length) := by
  unfold Sender.writeHeader
  dsimp only
  rw [sent, take_append_part]
  split_ifs <;> rfl

/-- The header turn closes only behind a header that nothing follows. -/
theorem writeHeader_closed (state : cc.state = .sendHeader) {n : Nat}
    (closed : (cc.writeHeader n).state = .dead) :
    cc.hdr.length ≤ cc.hdrOff + ((cc.hdr.drop cc.hdrOff).take n).length ∧ cc.pending = [] := by
  unfold Sender.writeHeader at closed
  dsimp only at closed
  split_ifs at closed with more bodiless
  · rw [state] at closed
    contradiction
  · refine ⟨by omega, ?_⟩
    unfold Sender.pending
    split_ifs with headOnly
    · rfl
    · simp only [headOnly, Bool.false_or, Bool.and_eq_true, Option.isNone_iff_eq_none] at bodiless
      rw [bodiless.1, bodiless.2]
      rfl

/-- The header turn. -/
theorem Transfer.Delivers.turn_header (delivers : Delivers text body start t)
    (state : t.cc.state = .sendHeader) (hdr : t.cc.hdr = text)
    (sent : t.cc.sent = text.take t.cc.hdrOff) (pending : t.cc.pending = body) (n : Nat) :
    Delivers text body start (t.turn (.wrote n)) := by
  have call : t.cc.handleWrite (.wrote n) = t.cc.writeHeader n := by
    unfold Sender.handleWrite
    rw [state]
    rfl
  have none : t.cc.servedBy (.wrote n) = 0 := by
    unfold Sender.servedBy
    rw [state]
  subst hdr
  have after := writeHeader_sent sent n
  apply delivers.turn_to call
  · unfold Sender.writeHeader
    dsimp only
    split_ifs
    · exact delivers.length
    · intro content noBlob
      contradiction
    · exact delivers.length
  · intro dead _ _
    obtain ⟨complete, bare⟩ := writeHeader_closed state dead
    rw [after, List.take_of_length_le complete, ← pending, bare, List.append_nil]
  · rw [after, sent, none]
    simp

/-- The `sendfile` turn. -/
theorem Transfer.Delivers.turn_blob (delivers : Delivers text body start t)
    (state : t.cc.state = .sendBody) (blob : t.cc.blob = some body)
    (sent : t.cc.sent = text ++ body.take t.cc.bodyOff) (more : t.cc.bodyOff < t.cc.bodyLen)
    (n : Nat) : Delivers text body start (t.turn (.wrote n)) := by
  have length := delivers.length body blob
  have call : t.cc.handleWrite (.wrote n) = t.cc.sendBlob body n := by
    unfold Sender.handleWrite
    rw [state, blob]
    dsimp only
    rw [if_neg (by omega)]
    rfl
  have served : t.cc.servedBy (.wrote n) = ((body.drop t.cc.bodyOff).take
      (min n (min sendfileChunk (t.cc.bodyLen - t.cc.bodyOff)))).length := by
    unfold Sender.servedBy
    rw [state, blob]
    dsimp only
    rw [if_neg (by omega)]
  have broke : t.cc.breaks (.wrote n) = ((body.drop t.cc.bodyOff).take
      (min n (min sendfileChunk (t.cc.bodyLen - t.cc.bodyOff)))).isEmpty := by
    unfold Sender.breaks
    rw [state, blob]
    simp [more]
  generalize chunk : min n (min sendfileChunk (t.cc.bodyLen - t.cc.bodyOff)) = taken at *
  unfold Sender.sendBlob at call
  dsimp only at call
  rw [chunk] at call
  split_ifs at call with ended last
  · apply delivers.turn_closed call
    · rw [served, ended]
      rfl
    · rw [broke, ended]
      intro unbroken
      contradiction
  · apply delivers.turn_to call
    · intro content noBlob
      contradiction
    · intro _ _ _
      show t.cc.sent ++ (body.drop t.cc.bodyOff).take taken = text ++ body
      rw [sent, List.append_assoc, take_append_part, List.take_of_length_le (by omega)]
    · rw [served]
      show ((t.cc.sent ++ _).drop text.length).length = _
      rw [sent]
      simp
  · apply delivers.turn_to call
    · exact delivers.length
    · intro dead
      rw [show _ = t.cc.state from rfl, state] at dead
      contradiction
    · rw [served]
      show ((t.cc.sent ++ _).drop text.length).length = _
      rw [sent]
      simp

/-- The turn that writes a buffered body. -/
theorem Transfer.Delivers.turn_buffer (delivers : Delivers text body start t)
    (state : t.cc.state = .sendBody) (noBlob : t.cc.blob = none) (buffer : t.cc.outBuf = some body)
    (sent : t.cc.sent = text ++ body.take t.cc.outOff) (n : Nat) :
    Delivers text body start (t.turn (.wrote n)) := by
  have call : t.cc.handleWrite (.wrote n) = t.cc.writeBuffer body n := by
    unfold Sender.handleWrite
    rw [state, noBlob, buffer]
    rfl
  have served : t.cc.servedBy (.wrote n) = ((body.drop t.cc.outOff).take n).length := by
    unfold Sender.servedBy
    rw [state, noBlob, buffer]
  unfold Sender.writeBuffer at call
  dsimp only at call
  split_ifs at call with last
  · apply delivers.turn_to call
    · intro content present
      contradiction
    · intro _ _ _
      show t.cc.sent ++ (body.drop t.cc.outOff).take n = text ++ body
      rw [sent, List.append_assoc, take_append_part, List.take_of_length_le last]
    · rw [served]
      show ((t.cc.sent ++ _).drop text.length).length = _
      rw [sent]
      simp
  · apply delivers.turn_to call
    · exact delivers.length
    · intro dead
      rw [show _ = t.cc.state from rfl, state] at dead
      contradiction
    · rw [served]
      show ((t.cc.sent ++ _).drop text.length).length = _
      rw [sent]
      simp

/-- Whatever a system call answers, one turn of the loop keeps the count and the order. -/
theorem Transfer.Delivers.turn (delivers : Delivers text body start t) (answer : Written) :
    Delivers text body start (t.turn answer) := by
  have sends := delivers.sends
  cases sends with
  | header state hdr sent pending _ =>
      cases answer with
      | wrote n => exact delivers.turn_header state hdr sent pending n
      | tryAgain =>
          apply delivers.turn_idle
          · simp [Sender.handleWrite, state, Sender.onWritten]
          · simp [Sender.servedBy, state]
      | interrupted =>
          apply delivers.turn_idle
          · simp [Sender.handleWrite, state, Sender.onWritten]
          · simp [Sender.servedBy, state]
      | failed =>
          apply delivers.turn_closed
          · simp [Sender.handleWrite, state, Sender.onWritten]
          · simp [Sender.servedBy, state]
          · simp [Sender.breaks, state]
  | blob state blob sent =>
      by_cases more : t.cc.bodyOff < t.cc.bodyLen
      · cases answer with
        | wrote n => exact delivers.turn_blob state blob sent more n
        | tryAgain =>
            apply delivers.turn_idle
            · simp [Sender.handleWrite, state, blob, Sender.onWritten, more]
            · simp [Sender.servedBy, state]
        | interrupted =>
            apply delivers.turn_idle
            · simp [Sender.handleWrite, state, blob, Sender.onWritten, more]
            · simp [Sender.servedBy, state]
        | failed =>
            apply delivers.turn_closed
            · simp [Sender.handleWrite, state, blob, Sender.onWritten]
            · simp [Sender.servedBy, state]
            · simp [Sender.breaks, state, blob, more]
      · -- Nothing is left to send: the turn closes without a call.
        have done : t.cc.bodyLen ≤ t.cc.bodyOff := by omega
        apply delivers.turn_closed
        · simp [Sender.handleWrite, state, blob, done]
        · cases answer <;> simp [Sender.servedBy, state, blob, done]
        · intro _
          have length := delivers.length body blob
          rw [sent, List.take_of_length_le (by omega)]
  | buffer state noBlob buffer sent =>
      cases answer with
      | wrote n => exact delivers.turn_buffer state noBlob buffer sent n
      | tryAgain =>
          apply delivers.turn_idle
          · simp [Sender.handleWrite, state, noBlob, buffer, Sender.onWritten]
          · simp [Sender.servedBy, state]
      | interrupted =>
          apply delivers.turn_idle
          · simp [Sender.handleWrite, state, noBlob, buffer, Sender.onWritten]
          · simp [Sender.servedBy, state]
      | failed =>
          apply delivers.turn_closed
          · simp [Sender.handleWrite, state, noBlob, buffer, Sender.onWritten]
          · simp [Sender.servedBy, state]
          · simp [Sender.breaks, state, noBlob, buffer]
  | dead state _ =>
      apply delivers.turn_idle
      · simp [Sender.handleWrite, state]
      · simp [Sender.servedBy, state]

/-- One call of `handle_write`. -/
theorem Transfer.Delivers.handleWrite (delivers : Delivers text body start t)
    (answers : List Written) : Delivers text body start (t.handleWrite answers) := by
  induction answers generalizing t with
  | nil => exact delivers
  | cons answer rest inductionHypothesis =>
      have next := delivers.turn answer
      rw [Transfer.handleWrite]
      split
      next => exact next
      next => exact inductionHypothesis next

/-- Any number of calls of `handle_write`. -/
theorem Transfer.Delivers.along_run (delivers : Delivers text body start t)
    (calls : List (List Written)) :
    Delivers text body start (run Transfer.handleWrite t calls) := by
  induction calls generalizing t with
  | nil => exact delivers
  | cons answers rest inductionHypothesis =>
      exact inductionHypothesis (delivers.handleWrite answers)

end Delivery

/-- What was delivered is a beginning of header and body, and all of it when the
connection closed without an error or an early end of file; `g_served_bytes` has grown
by the body bytes among it. -/
theorem response_sent_once {text body : Bytes} {cc : Sender} (prepared : cc.Prepared text body)
    (served : Nat) (calls : List (List Written)) :
    let t := run Transfer.handleWrite ⟨cc, served, false⟩ calls
    t.cc.sent <+: text ++ body ∧
      (t.cc.state = .dead → t.broken = false → t.cc.sent = text ++ body) ∧
      t.served = served + (t.cc.sent.drop text.length).length := by
  have delivers := (prepared.delivers served).along_run calls
  exact ⟨delivers.sends.sent_within, delivers.whole, delivers.counted⟩

/-- A blob of three bytes behind a header of two. -/
def smallBlob : Sender :=
  { Sender.fresh with state := .sendHeader, hdr := [1, 2], blob := some [3, 4, 5], bodyLen := 3 }

/-- A blob that takes two calls, with partial counts and an interruption. -/
theorem blob_sent_in_parts :
    (run Transfer.handleWrite ⟨smallBlob, 7, false⟩
      [[.wrote 1, .interrupted, .wrote 1, .wrote 2, .tryAgain], [.wrote 9]]).cc.sent =
        [1, 2, 3, 4, 5] := by
  have prepared : smallBlob.Prepared [1, 2] [3, 4, 5] :=
    ⟨rfl, rfl, ⟨rfl, rfl, rfl, rfl⟩, rfl, fun content same => by cases same; rfl⟩
  have sent := response_sent_once prepared 7
    [[.wrote 1, .interrupted, .wrote 1, .wrote 2, .tryAgain], [.wrote 9]]
  exact sent.2.1 (by decide) (by decide)

end CixCache
