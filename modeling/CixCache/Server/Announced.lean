import CixCache.Server.Activity
import CixCache.Server.Delivery
import CixCache.Server.Refinement

/-!
Contract: a success that the event loop announces is true.

Owns: `AskedFor`, that a name and a digest came with a PUT of the connection; `Vouched`, that
every upload was asked for and every 201 was given for a name that resolved to its digest;
and that a 201 of the loop stands for such a request, whose name still means what it declared
or has become ambiguous, while no DELETE was read.

Does not own: the loop (`Server.Refinement`), and what an upload does (`Server.Reactor`).
-/

namespace CixCache

open CixCache.Lib

/-- Among these requests the connection has one that declares the digest for the name. -/
def AskedFor (requests : List (Nat × HttpRequest)) (id : Nat) (name digest : Bytes) : Prop :=
  ∃ req path, (id, req) ∈ requests ∧ req.method = ascii "PUT" ∧ dispatchPath req = some path ∧
    path.drop 1 = name ∧ declaredDigest req = some digest

theorem AskedFor.more {requests : List (Nat × HttpRequest)} {id : Nat} {name digest : Bytes}
    (asked : AskedFor requests id name digest) (more : List (Nat × HttpRequest)) :
    AskedFor (requests ++ more) id name digest := by
  obtain ⟨req, path, member, rest⟩ := asked
  exact ⟨req, path, List.mem_append_left more member, rest⟩

/-- Uploads were asked for, and what a 201 was given for was found in the store that is
here now, or in one that it grew from. -/
structure Vouched (requests : List (Nat × HttpRequest)) (server : Server) : Prop where
  sound : server.Sound
  asked : ∀ id conn, server.conns id = some conn → conn.InFlight ∨ conn.status = some 201 →
    AskedFor requests id conn.upName conn.upDigest
  found : ∀ id conn, server.conns id = some conn → conn.status = some 201 →
    ∃ earlier : Store, storeResolve earlier conn.upName = .ok conn.upDigest ∧
      Grows (packagesOf earlier.files) (packagesOf server.store.files)

theorem Vouched.start (st : Store) : Vouched [] (.start st) where
  sound := Server.sound_start st
  asked _ _ present := nomatch present
  found _ _ present := nomatch present

section Steps

variable {conf : Conf} {sha : Sha256sum} {sys : Sys} {st : Store} {importRunning : Bool}
  {requests : List (Nat × HttpRequest)} {conn : Conn} {id : Nat} {input : Input}

theorem answered_undone {before after : Conn} (answered : Answered before after) :
    ¬ (after.InFlight ∨ after.status = some 201) := by
  obtain ⟨reply, other, rfl⟩ := answered
  rintro ((receiving | hashing) | created)
  · contradiction
  · contradiction
  · exact other (Option.some.inj created)

/-- What the input asks for is one more request. -/
theorem connStep_asked (asked : conn.InFlight → AskedFor requests id conn.upName conn.upDigest)
    (unanswered : conn.status = none) (event : Sys × ServerEvent)
    (isInput : event.2 = .input id input)
    (goesOn : (connStep conf sha sys st importRunning conn input).conn.InFlight ∨
      (connStep conf sha sys st importRunning conn input).conn.status = some 201) :
    AskedFor (requests ++ (requestIn event).toList) id
      (connStep conf sha sys st importRunning conn input).conn.upName
      (connStep conf sha sys st importRunning conn input).conn.upDigest := by
  cases connStep_outcome conf sha sys st importRunning conn input with
  | idle store same =>
      rw [same] at goesOn ⊢
      rcases goesOn with flying | created
      · exact (asked flying).more _
      · rw [unanswered] at created
        contradiction
  | answered store reply => exact absurd goesOn (answered_undone reply)
  | dispatched req requested state outcome =>
      cases outcome with
      | answered store reply => exact absurd goesOn (answered_undone reply)
      | withdrawn path named method store reply => exact absurd goesOn (answered_undone reply)
      | collected dryRun question store reply => exact absurd goesOn (answered_undone reply)
      | uploaded path named method store begun =>
          cases beginUpload_outcome conf sys st conn req (path.drop 1) with
          | refused reply status same =>
              rw [begun, same] at goesOn
              exact absurd goesOn (answered_undone ⟨reply, status, rfl⟩)
          | staged digest declared _ _ _ _ same =>
              obtain ⟨staged, continues, _⟩ :=
                stageUpload_conn sys st conn req (path.drop 1) digest
              rw [begun, same, continues.name, continues.digest]
              refine ⟨req, path, ?_, method, named, rfl, declared⟩
              have brings : requestIn event = some (id, req) := by
                rw [requestIn, isInput, requested]
              rw [brings]
              exact List.mem_append_right _ List.mem_cons_self
  | received bytes state store wrote =>
      have flying : conn.InFlight := Or.inl state
      have continues := recvBody_conn flying sys st bytes
      rw [wrote, continues.name, continues.digest]
      exact (asked flying).more _
  | finished state store done =>
      have flying : conn.InFlight := Or.inr state
      rw [done] at goesOn ⊢
      cases finishUpload_outcome sha sys st conn with
      | failed reply status same =>
          rw [same] at goesOn
          rcases goesOn with (receiving | hashing) | created
          · contradiction
          · contradiction
          · exact absurd (Option.some.inj created) status
      | committed path digest owned hashed declared same =>
          rw [same]
          exact (asked flying).more _

variable {server : Server} {event : Sys × ServerEvent}

/-- A connection that a step leaves is one of before, has just been accepted, or was woken. -/
theorem serverStep_left {after : Conn}
    (left : (serverStep conf sha server event).conns id = some after) :
    server.conns id = some after ∨ after = .fresh ∨
      ∃ input conn, event.2 = .input id input ∧ server.conns id = some conn ∧
        after = (connStep conf sha event.1 server.store server.importRunning conn input).conn := by
  by_cases own : event.2.target = some id
  · obtain ⟨sys, woken⟩ := event
    cases woken with
    | accept target =>
        obtain rfl : target = id := Option.some.inj own
        unfold serverStep at left
        dsimp only at left
        split at left
        next => exact Or.inl left
        next =>
          dsimp only at left
          rw [Function.update_self] at left
          exact Or.inr (Or.inl (Option.some.inj left).symm)
    | close target =>
        obtain rfl : target = id := Option.some.inj own
        unfold serverStep at left
        dsimp only at left
        split at left
        next => exact Or.inl left
        next =>
          dsimp only at left
          rw [Function.update_self] at left
          contradiction
    | importExit => contradiction
    | input target input =>
        obtain rfl : target = id := Option.some.inj own
        cases present : server.conns target with
        | none =>
            unfold serverStep at left
            dsimp only at left
            rw [present] at left
            dsimp only at left
            rw [present] at left
            contradiction
        | some conn =>
            rw [serverStep_input conf sha rfl present] at left
            dsimp only at left
            rw [Function.update_self] at left
            exact Or.inr (Or.inr ⟨input, conn, rfl, rfl, (Option.some.inj left).symm⟩)
  · rw [serverStep_conns_of_ne own] at left
    exact Or.inl left

theorem Vouched.step (vouched : Vouched requests server) (kept : isDelete event.2 = false) :
    Vouched (requests ++ (requestIn event).toList) (serverStep conf sha server event) := by
  have grows := @serverStep_grows conf sha _ _ vouched.sound kept
  refine ⟨serverStep_sound vouched.sound, ?_, ?_⟩
  · intro id after left goesOn
    rcases serverStep_left left with same | fresh | ⟨input, conn, woken, present, rfl⟩
    · exact (vouched.asked id after same goesOn).more _
    · rw [fresh] at goesOn
      rcases goesOn with (receiving | hashing) | created <;> contradiction
    · cases status : conn.status with
      | none =>
          exact connStep_asked (fun flying => vouched.asked id conn present (Or.inl flying)) status
            event woken goesOn
      | some reply =>
          rw [connStep_of_answered (by rw [status]; rfl)] at goesOn ⊢
          exact (vouched.asked id conn present goesOn).more _
  · intro id after left created
    have still : ∀ conn, server.conns id = some conn → conn.status = some 201 →
        ∃ earlier : Store, storeResolve earlier conn.upName = .ok conn.upDigest ∧
          Grows (packagesOf earlier.files)
            (packagesOf (serverStep conf sha server event).store.files) := by
      intro conn present before
      obtain ⟨earlier, resolved, grown⟩ := vouched.found id conn present before
      exact ⟨earlier, resolved, grown.trans grows⟩
    rcases serverStep_left left with same | fresh | ⟨input, conn, woken, present, isAfter⟩
    · exact still after same created
    · rw [fresh] at created
      contradiction
    · cases status : conn.status with
      | none =>
          have now : Created conf sha server event after.upName after.upDigest :=
            ⟨id, conn, after, present, status, left, created, rfl, rfl⟩
          exact ⟨_, now.resolves vouched.sound, Grows.refl _⟩
      | some reply =>
          rw [connStep_of_answered (by rw [status]; rfl)] at isAfter
          rw [isAfter] at created ⊢
          exact still conn present created

theorem Vouched.run (vouched : Vouched requests server) {events : List (Sys × ServerEvent)}
    (kept : ∀ event ∈ events, isDelete event.2 = false) :
    Vouched (requests ++ events.filterMap requestIn)
      (CixCache.Lib.run (serverStep conf sha) server events) := by
  have along : Along (fun _ event => isDelete event.2 = false) (serverStep conf sha) server
      events := along_of_forall fun event member _ => kept event member
  exact run_recorded (fun _ _ _ held kept => held.step kept) vouched along

end Steps

/-! ## Announcements -/

/-- A header announces one status. -/
theorem Announces.unique {hdr : Bytes} {status other : Nat} (announced : Announces hdr status)
    (again : Announces hdr other) : status = other := by
  have digits : ∀ {n : Nat}, Announces hdr n →
      (hdr.drop 9).takeWhile isDigit = printed n := by
    rintro n ⟨contentType, contentLength, extra, begun⟩
    have all : ∀ c ∈ printed n, isDigit c = true := printed_digits n
    have gap : ascii " " = [space] := by decide
    have literal : (ascii "HTTP/1.1 ").length = 9 := by decide
    unfold httpFormatHeader at begun
    dsimp only at begun
    rw [← Option.some.inj (Option.ite_none_left_eq_some.mp begun).2, headerText, gap]
    simp only [List.append_assoc]
    rw [← literal, List.drop_left, List.takeWhile_append_of_pos all, List.singleton_append,
      List.takeWhile_cons_of_neg (by decide), List.append_nil]
  rw [← decimal_printed status, ← decimal_printed other, ← digits announced, ← digits again]

namespace Reactor

/-- While no DELETE is read, every 201 that the loop sends stands for a PUT it read from that
client, and the name of that PUT resolves to the digest it declared, or is ambiguous by now. -/
theorem loop_created_true (conf : Conf) (sha : Sha256sum) (st : Store) (now : Int)
    {steps : List Step} (faithful : Along (Faithful sha) (step conf) (start st now) steps)
    (kept : ∀ read ∈ taken (step conf) requestsRead (start st now) steps,
      read.2.method ≠ ascii "DELETE")
    {p : Ptr} (client : (run (step conf) (start st now) steps).IsClient p)
    (sends : ((run (step conf) (start st now) steps).heap p).state.Sends)
    (announced : Announces ((run (step conf) (start st now) steps).heap p).hdr 201) :
    ∃ req path digest, (p, req) ∈ taken (step conf) requestsRead (start st now) steps ∧
      req.method = ascii "PUT" ∧ dispatchPath req = some path ∧
      declaredDigest req = some digest ∧
      (storeResolve (run (step conf) (start st now) steps).store (path.drop 1) = .ok digest ∨
        storeResolve (run (step conf) (start st now) steps).store (path.drop 1) =
          .error .ambiguous) := by
  obtain ⟨events, brought, seen⟩ :=
    run_faithful (start_steady st now) faithful (start_views st now)
  rw [← brought] at kept ⊢
  have vouched := @Vouched.run conf sha _ _ (Vouched.start st) _ (isDelete_of_brought kept)
  obtain ⟨conn, present, shows⟩ := seen.clients p client
  have created : conn.status = some 201 := by
    cases shows with
    | reads phase =>
        rw [phase] at sends
        rcases sends with header | body <;> contradiction
    | receives phase =>
        rw [phase] at sends
        rcases sends with header | body <;> contradiction
    | hashes phase =>
        rw [phase] at sends
        rcases sends with header | body <;> contradiction
    | @sends _ reply state _ response carried same =>
        have isStatus : 201 = response.status := announced.unique carried.announces
        unfold Conn.status
        rw [state]
        rcases same with rfl | ⟨message, _, _, rfl, _⟩
        · show some response.reply.status = some 201
          rw [Response.reply_status, ← isStatus]
        · exact absurd isStatus (by decide : 201 ≠ 500)
  obtain ⟨req, path, member, method, named, isName, declared⟩ :=
    vouched.asked p conn present (Or.inr created)
  obtain ⟨earlier, resolved, grown⟩ := vouched.found p conn present created
  refine ⟨req, path, conn.upDigest, member, method, named, declared, ?_⟩
  rw [isName, ← seen.store]
  exact storeResolve_grows grown resolved

end Reactor

/-- The upload of one byte is announced, and found under its name. -/
theorem hashedUpload_announced :
    ∃ req path digest, (1, req) ∈ taken (Reactor.step Conf.sample) Reactor.requestsRead
        (Reactor.start (Store.holding [] []) 0) hashedUpload ∧
      req.method = ascii "PUT" ∧ dispatchPath req = some path ∧
      declaredDigest req = some digest ∧
      (storeResolve (run (Reactor.step Conf.sample) (Reactor.start (Store.holding [] []) 0)
          hashedUpload).store (path.drop 1) = .ok digest ∨
        storeResolve (run (Reactor.step Conf.sample) (Reactor.start (Store.holding [] []) 0)
          hashedUpload).store (path.drop 1) = .error .ambiguous) :=
  Reactor.loop_created_true Conf.sample .sample (Store.holding [] []) 0 (by decide +kernel)
    (by decide +kernel) ⟨by decide +kernel, by decide +kernel⟩ (Or.inl (by decide +kernel))
    ⟨ascii "application/json", 0, [], by decide +kernel⟩

end CixCache
