import CixCache.Server.Authority
import CixCache.Server.Matching

/-!
Contract: the event loop with its records refines the server that handles one event at a
time.

Owns: which events of the server match an event of the loop, the sweep and a step; that a run
of the loop is matched by a run of the server; and that a published name keeps its meaning in
every run of the loop.

Does not own: the runs in which a registration cannot be changed, and other processes.
-/

namespace CixCache

open CixCache.Lib

namespace Reactor

section Events

variable {r mid after : Reactor} {p q c o : Ptr} {server : Server} {conn : Conn} {sys : Sys}
  {a : CallResults} {conf : Conf} {sha : Sha256sum}

/-- Whatever leaves the records alone. -/
theorem Views.same (views : Views r server) (heap : after.heap = r.heap)
    (allocated : after.allocated = r.allocated) (store : after.store = r.store)
    (importing : after.importRunning = r.importRunning) : Views after server where
  store := views.store.trans store.symm
  importing := views.importing.trans importing.symm
  clients q client := by
    unfold IsClient Live at client
    rw [heap, allocated] at client
    rw [heap]
    exact views.clients q client
  others q other := by
    unfold IsClient Live at other
    rw [heap, allocated] at other
    exact views.others q other

/-! ## Writing -/

/-- The loop of `handle_write`. -/
theorem Views.handleWrite {answers : List Written} {now : Int} (views : Views r server)
    (serving : Serving p r) (sends : (r.heap p).state.Sends) :
    Matched Views (serverStep conf sha) requestIn [] (handleWrite sys now p answers r)
      server := by
  induction answers generalizing r with
  | nil => exact Matched.here views
  | cons answer rest inductionHypothesis =>
      unfold Reactor.handleWrite
      dsimp only
      split
      next => exact views.connClose serving sys
      next stays =>
        cases answer with
        | tryAgain => exact Matched.here views
        | failed => exact Matched.here views
        | interrupted => exact inductionHypothesis views serving sends
        | wrote n =>
            have change := local_sentBy r p now stays
            have still : (((r.modify p fun cc => cc.sentBy
                ((r.heap p).sender.handleWrite (.wrote n)) now)).heap p).state.Sends := by
              rcases change.state with same | sent
              · rw [same]
                exact sends
              · exact Or.inr sent.2
            apply inductionHypothesis _ (change.serving serving) still
            obtain ⟨conn, own, shows⟩ := views.clients p serving.isClient
            have path : ∀ cc : Record, (cc.sentBy
                ((r.heap p).sender.handleWrite (.wrote n)) now).upPath = cc.upPath := fun _ => rfl
            apply ((views.pending serving.isClient own).modify path).settle
              (change.serving serving).isClient
            cases shows with
            | reads phase _ _ =>
                rw [phase] at sends
                exact absurd sends (receives_not_sends (Or.inl rfl))
            | receives phase _ _ _ _ =>
                rw [phase] at sends
                exact absurd sends (receives_not_sends (Or.inr rfl))
            | hashes phase _ _ _ _ _ =>
                rw [phase] at sends
                exact sends.elim ConnPhase.noConfusion ConnPhase.noConfusion
            | @sends _ _ state path response carried same =>
                rw [modify_self] at still ⊢
                have kept : ((r.heap p).sentBy ((r.heap p).sender.handleWrite (.wrote n))
                    now).Carries response := by
                  cases response <;> exact carried
                exact .sends still state path kept same

/-! ## New connections -/

/-- A connection is accepted. -/
theorem Views.connNew (views : Views r server) (consistent : Consistent r) (now : Int)
    (calls : Sys) :
    Views (r.connNew .client now) (serverStep conf sha server (calls, .accept r.fresh)) := by
  have unused : ¬ r.IsClient r.fresh := fun client => consistent.ne_fresh client.1 rfl
  have stepped : serverStep conf sha server (calls, .accept r.fresh) =
      { server with conns := Function.update server.conns r.fresh (some .fresh) } := by
    unfold serverStep
    dsimp only
    rw [views.others r.fresh unused]
  have live : ∀ q, (r.connNew .client now).Live q ↔ q = r.fresh ∨ r.Live q :=
    fun q => connNew_live ConnKind.noConfusion
  rw [stepped]
  refine ⟨views.store, views.importing, ?_, ?_⟩
  · intro q client
    by_cases new : q = r.fresh
    · rw [new]
      refine ⟨.fresh, Function.update_self _ _ _, ?_⟩
      rw [connNew_self]
      exact .reads rfl rfl rfl
    · unfold IsClient at client
      rw [connNew_of_ne new, live q] at client
      obtain ⟨other, found, shows⟩ := views.clients q ⟨client.1.resolve_left new, client.2⟩
      rw [connNew_of_ne new]
      exact ⟨other, (Function.update_of_ne new _ _).trans found, shows⟩
  · intro q other
    have new : q ≠ r.fresh := by
      intro same
      apply other
      rw [same]
      exact ⟨(live _).mpr (Or.inl rfl), congrArg Record.kind (connNew_self r .client now)⟩
    apply (Function.update_of_ne new _ _).trans
    apply views.others
    intro client
    apply other
    unfold IsClient
    rw [connNew_of_ne new, live q]
    exact ⟨Or.inr client.1, client.2⟩

theorem Views.acceptLoop {accepts : List Accepted} (views : Views r server)
    (consistent : Consistent r) :
    Matched Views (serverStep conf sha) requestIn [] (acceptLoop accepts r) server := by
  induction accepts generalizing r server with
  | nil => exact Matched.here views
  | cons accept rest inductionHypothesis =>
      cases accept with
      | tryAgain => exact Matched.here views
      | failed => exact Matched.here views
      | interrupted => exact inductionHypothesis views consistent
      | accepted a =>
          have nothing : requestIn (a.sys, .accept r.fresh) = none := rfl
          have made := @Consistent.connNew _ consistent .client ConnKind.noConfusion a.now
          have alive : (r.connNew .client a.now).Live r.fresh :=
            (connNew_live ConnKind.noConfusion).mpr (Or.inl rfl)
          have serving : Serving r.fresh (r.connNew .client a.now) :=
            ⟨made, alive, congrArg Record.kind (connNew_self r .client a.now)⟩
          have accepted := @Views.connNew _ server conf sha views consistent a.now a.sys
          rw [Reactor.acceptLoop]
          split
          next => exact inductionHypothesis views consistent
          next =>
            dsimp only
            apply Matched.silent nothing
            split
            next =>
              exact inductionHypothesis (accepted.same rfl rfl rfl rfl) (made.epollAdd alive _)
            next =>
              refine (accepted.connClose serving a.sys).bind fun next related => ?_
              exact inductionHypothesis related (serving.connClose a.sys).consistent

/-! ## Children -/

/-- What `finish_upload` takes for the digest of what the process wrote. -/
def toldDigest (output : Bytes) : Option Bytes :=
  let digest := (output.take 127).take storeSha256HexLen
  if (output.take 127).length < storeSha256HexLen ∨ storeDigestIsValid digest = false then none
  else some digest

end Events

end Reactor

/-- The calls of the end of a hash, whose process told a digest or did not. -/
def CallResults.hashing (a : CallResults) (told : Option Bytes) : Sys :=
  { a.sys with
    allows := fun call =>
      match call with
      | .sha256sum _ => told.isSome
      | other => a.sys.allows other }

theorem commitUpload_hashing (a : CallResults) (told : Option Bytes) (st : Store) (path : Path)
    (name digest : Bytes) :
    CixCache.commitUpload (a.hashing told) st path name digest =
      CixCache.commitUpload a.sys st path name digest := by
  rfl

theorem adoptUpload_reply (sys : Sys) (st : Store) (path : Path) (name digest : Bytes) :
    CixCache.adoptUpload sys st path name digest =
      ((Reactor.adoptUpload sys st (some path) name digest).1,
        (Reactor.adoptUpload sys st (some path) name digest).2.reply) := by
  unfold CixCache.adoptUpload Reactor.adoptUpload Reactor.adoptStaged
  dsimp only
  rcases storeBlobAdopt sys st path digest with ⟨adopted, result⟩
  cases result with
  | error reason => rfl
  | ok _ =>
      dsimp only
      rcases storePublish sys adopted name digest with ⟨done, result⟩
      cases result with
      | ok _ => rfl
      | error reason => cases reason <;> rfl

theorem commitUpload_reply (sys : Sys) (st : Store) (path : Path) (name digest : Bytes) :
    CixCache.commitUpload sys st path name digest =
      ((Reactor.commitUpload sys st (some path) name digest).1,
        (Reactor.commitUpload sys st (some path) name digest).2.reply) := by
  unfold CixCache.commitUpload Reactor.commitUpload
  rw [adoptUpload_reply]
  cases storeResolve st name with
  | ok existing =>
      dsimp only
      split <;> rfl
  | error reason => cases reason <;> rfl

namespace Reactor

section Ends

variable {r mid after : Reactor} {p q c o : Ptr} {server : Server} {conn : Conn} {sys : Sys}
  {a : CallResults} {conf : Conf} {sha : Sha256sum}
  {output digest : Bytes}

theorem finishUpload_untold (opened : (r.heap p).childOut = true)
    (untold : toldDigest output = none) :
    r.finishUpload a p output = (r.reapHashChild p).respond a p
      (.error 500 (ascii "could not hash uploaded body")) := by
  unfold toldDigest at untold
  unfold Reactor.finishUpload
  dsimp only at untold ⊢
  rw [opened, if_pos rfl]
  split at untold
  next failed => rw [if_pos failed]
  next => contradiction

theorem reapHashChild_state (r : Reactor) (p : Ptr) :
    (r.reapHashChild p).store = r.store ∧ (r.reapHashChild p).importRunning = r.importRunning ∧
      (r.reapHashChild p).allocated = r.allocated := by
  unfold reapHashChild
  split <;> exact ⟨rfl, rfl, rfl⟩

/-- The end of an upload whose process told a digest. -/
theorem finishUpload_told (opened : (r.heap p).childOut = true)
    (told : toldDigest output = some digest) :
    storeDigestIsValid digest = true ∧ r.finishUpload a p output =
      if strcasecmpEq digest (r.heap p).upDigest = false then
        (r.reapHashChild p).respond a p (.error 400 (ascii "body does not match declared sha256"))
      else
        (((r.reapHashChild p).withStore (commitUpload a.sys r.store (r.heap p).upPath
          (r.heap p).upName digest).1).modify p Record.unstaged).respond a p
            (commitUpload a.sys r.store (r.heap p).upPath (r.heap p).upName digest).2 := by
  have record := reapHashChild_self r p
  have store := (reapHashChild_state r p).1
  unfold toldDigest at told
  unfold Reactor.finishUpload
  dsimp only at told ⊢
  rw [opened, if_pos rfl]
  split at told
  next => contradiction
  next valid =>
    obtain rfl := Option.some.inj told
    rw [if_neg valid, record, store]
    exact ⟨Bool.eq_true_of_not_eq_false fun failed => valid (Or.inr failed), rfl⟩

/-- The end of a hash, as what happens to its connection. -/
theorem Views.finishUpload (views : Views r server) (own : server.conns o = some conn)
    (beside : Beside o r mid) (store : mid.store = r.store)
    (importing : mid.importRunning = r.importRunning) (serving : Serving o mid)
    {cc : Record} (record : mid.heap o = cc) (state : conn.state = .hashing)
    (watched : conn.child = .watched) (path : conn.upPath = cc.upPath)
    (upload : cc.SameUpload conn) (opened : cc.childOut = true)
    (hashed : ∀ digest path, toldDigest output = some digest → cc.upPath = some path →
      ∃ content, stat r.store.files path = some content ∧ sha.digest content = digest) :
    Matched Views (serverStep conf sha) requestIn [] (mid.finishUpload a o output) server := by
  obtain ⟨staging, staged⟩ := Option.isSome_iff_exists.mp upload.staged
  generalize told : toldDigest output = answer at hashed
  have nothing : requestIn (a.hashing answer, .input o .hashed) = none := rfl
  apply Matched.silent nothing
  have turn : connStep conf sha (a.hashing answer) r.store r.importRunning conn .hashed =
      ⟨(CixCache.finishUpload sha (a.hashing answer) r.store conn).1, r.importRunning,
        (CixCache.finishUpload sha (a.hashing answer) r.store conn).2⟩ := by
    unfold connStep
    rw [state]
    dsimp only
    rw [if_pos watched]
  unfold CixCache.finishUpload at turn
  rw [path, staged] at turn
  dsimp only at turn
  have reaped := reapHashChild_self mid o
  rw [record] at reaped
  have fields := reapHashChild_state mid o
  have nearby : Beside o r (mid.reapHashChild o) :=
    beside.trans (beside_of_heap (fun q different => reapHashChild_of_ne different) fields.2.2)
  have serves : Serving o (mid.reapHashChild o) := by
    refine ⟨serving.consistent.reapHashChild o, reapHashChild_live.mpr serving.alive, ?_⟩
    rw [reapHashChild_self]
    exact serving.client
  have out : (mid.heap o).childOut = true := record ▸ opened
  cases answer with
  | none =>
      have unhashed : storeHashFile sha (a.hashing none) r.store staging = none := by
        unfold storeHashFile
        rw [if_neg]
        exact Bool.false_ne_true
      rw [unhashed] at turn
      rw [finishUpload_untold out told]
      dsimp only at turn
      have refused := views.input own turn nearby (fields.1.trans store).symm
        (fields.2.1.trans importing).symm (by
          rw [reaped]
          exact staged.symm)
      exact refused.respond serves a _ rfl (Or.inl rfl)
  | some digest =>
      obtain ⟨valid, finish⟩ := finishUpload_told (a := a) out told
      obtain ⟨content, read, same⟩ := hashed digest staging rfl staged
      have allowed : (a.hashing (some digest)).allows (.sha256sum staging) = true := rfl
      have hash : storeHashFile sha (a.hashing (some digest)) r.store staging = some digest := by
        unfold storeHashFile
        rw [if_pos allowed, read]
        dsimp only
        rw [same, if_pos valid]
      rw [hash] at turn
      dsimp only at turn
      rw [finish, record, store]
      rw [upload.digest, upload.name, commitUpload_hashing, commitUpload_reply] at turn
      by_cases differs : strcasecmpEq digest cc.upDigest = false
      · rw [if_pos differs] at turn ⊢
        have refused := views.input own turn nearby (fields.1.trans store).symm
          (fields.2.1.trans importing).symm (by
            rw [reaped]
            exact staged.symm)
        exact refused.respond serves a _ rfl (Or.inl rfl)
      · rw [if_neg differs] at turn ⊢
        dsimp only at turn
        rw [staged]
        generalize Reactor.commitUpload a.sys r.store (some staging) cc.upName digest = committed
          at turn ⊢
        have unstaged : Serving o (((mid.reapHashChild o).withStore committed.1).modify o
            Record.unstaged) := by
          refine ⟨(serves.consistent.withStore _).unstaged fun _ => serves.client, ?_, ?_⟩
          · rw [Live, modify_self]
            exact serves.alive
          · rw [modify_self]
            exact serves.client
        have dropped : Beside o r (((mid.reapHashChild o).withStore committed.1).modify o
            Record.unstaged) :=
          nearby.trans (beside_of_heap (fun _ different => modify_of_ne _ _ different) rfl)
        have done := views.input own turn dropped rfl (fields.2.1.trans importing).symm (by
          rw [modify_self]
          rfl)
        exact done.respond unstaged a _ rfl (Or.inl rfl)

/-- A process tells the digest of the staging file it was started for, or none. -/
def HashTold (sha : Sha256sum) (r : Reactor) (c : Ptr) (output : Bytes) : Prop :=
  ∀ o ∈ (r.heap c).owner, ∀ digest ∈ toldDigest output, ∀ path ∈ (r.heap o).upPath,
    (stat r.store.files path).map sha.digest = some digest

instance (sha : Sha256sum) (r : Reactor) (c : Ptr) (output : Bytes) :
    Decidable (HashTold sha r c output) :=
  inferInstanceAs (Decidable (∀ o ∈ (r.heap c).owner, ∀ digest ∈ toldDigest output,
    ∀ path ∈ (r.heap o).upPath, _))

/-- A hash child that ended is no client. -/
theorem Orphaned.beside (orphaned : Orphaned r c o after) (hash : (r.heap c).kind = .hashChild) :
    Beside o r after where
  clients q different := by
    by_cases child : q = c
    · constructor
      · intro client
        exact absurd child ((orphaned.live q).mp client.1).2
      · intro client
        rw [child] at client
        exact absurd (client.2.symm.trans hash) ConnKind.noConfusion
    · obtain ⟨link, same⟩ := orphaned.others q child different
      unfold IsClient
      rw [orphaned.live q, same]
      exact ⟨fun client => ⟨client.1.1, client.2⟩, fun client => ⟨⟨client.1, child⟩, client.2⟩⟩
  shown q different client := by
    apply orphaned.others q _ different
    intro child
    rw [child] at client
    exact absurd (client.2.symm.trans hash) ConnKind.noConfusion

/-- The event of a watched hash child. -/
theorem Views.hashChildEvent (views : Views r server) (orderly : Orderly none r)
    (alive : r.Live c) (hash : (r.heap c).kind = .hashChild) (registered : (r.interest c).isSome)
    (hashed : HashTold sha r c output) :
    Matched Views (serverStep conf sha) requestIn [] (r.hashChildEvent a c output) server := by
  obtain ⟨o, owned, ownerLive, client, has, hashing, _, _⟩ := orderly.hashed alive hash registered
  obtain ⟨conn, own, shows⟩ := views.clients o ⟨ownerLive, client⟩
  have ends := r.hashChildEvent_ends a c output
  generalize r.hashChildEvent a c output = after at ends ⊢
  cases ends with
  | alone ownerless =>
      rw [owned] at ownerless
      contradiction
  | @finishes owner ownedToo =>
      obtain rfl : o = owner := Option.some.inj (owned.symm.trans ownedToo)
      have orphan := orderly.consistent.orphan alive owned a.sys
      have orphaned := orderly.consistent.orphaned alive owned a.sys
      obtain ⟨link, atOwner⟩ := orphaned.owner
      have different := (orderly.consistent.owner_ne alive owned).symm
      have beside := orphaned.beside hash
      have serving : Serving o ((r.letGo c o).connClose a.sys c) := by
        refine ⟨orphan.consistent, (orphaned.live o).mpr ⟨ownerLive, different⟩, ?_⟩
        rw [atOwner]
        exact client
      cases shows with
      | hashes phase state path upload watched opened =>
          refine views.finishUpload own beside orphaned.store orphaned.importRunning serving atOwner
            state watched path ⟨upload.1, upload.2, upload.3, upload.4, upload.5⟩ opened ?_
          intro digest path told staged
          exact Option.map_eq_some_iff.mp (hashed o owned digest told path staged)
      | reads phase _ _ =>
          rw [phase] at hashing
          contradiction
      | receives phase _ _ _ _ =>
          rw [phase] at hashing
          contradiction
      | sends phase _ _ _ _ =>
          rw [hashing] at phase
          exact phase.elim ConnPhase.noConfusion ConnPhase.noConfusion

/-- Closing a record that is no client. -/
theorem Views.connClose_other (views : Views r server) (consistent : Consistent r)
    (alive : r.Live c) (other : (r.heap c).kind ≠ .client) (ownerless : (r.heap c).owner = none)
    (sys : Sys) : Views (r.connClose sys c) server := by
  have childless : (r.heap c).child = none := by
    cases child : (r.heap c).child with
    | none => rfl
    | some q => exact absurd (consistent.child c q alive child).1 other
  have removed := @connClose_removed _ sys _ consistent alive ownerless
  rw [childless] at removed
  have outside : ∀ q, q ∉ none.toList ++ [c] ↔ q ≠ c := fun q => by simp
  have live : ∀ q, (r.connClose sys c).Live q ↔ r.Live q ∧ q ≠ c := fun q => by
    rw [removed.live, outside]
  have store : (r.connClose sys c).store = r.store := by
    rw [removed.store, consistent.plain c alive other]
    rfl
  refine ⟨views.store.trans store.symm, views.importing.trans removed.importRunning.symm, ?_, ?_⟩
  · intro q client
    obtain ⟨was, different⟩ := (live q).mp client.1
    obtain ⟨link, same⟩ := removed.others q ((outside q).mpr different)
    have kind := client.2
    rw [same] at kind ⊢
    obtain ⟨conn, found, shows⟩ := views.clients q ⟨was, kind⟩
    exact ⟨conn, found, shows.linkTo link⟩
  · intro q gone
    apply views.others
    intro client
    have different : q ≠ c := fun same => other (same ▸ client.2)
    obtain ⟨link, same⟩ := removed.others q ((outside q).mpr different)
    apply gone
    refine ⟨(live q).mpr ⟨client.1, different⟩, ?_⟩
    rw [same]
    exact client.2

theorem Views.importChildEvent (views : Views r server) (consistent : Consistent r)
    (alive : r.Live c) (importer : (r.heap c).kind = .importChild) (sys : Sys) :
    Matched Views (serverStep conf sha) requestIn [] (r.importChildEvent sys c) server := by
  have nothing : requestIn (sys, .importExit) = none := rfl
  have other : ((r.reapImporter c).heap c).kind ≠ .client := by
    show (r.heap c).kind ≠ _
    rw [importer]
    exact ConnKind.noConfusion
  have reaped : Consistent (r.reapImporter c) := (consistent.withLog _).withImportRunning _
  have waited : Views (r.reapImporter c) (serverStep conf sha server (sys, .importExit)) :=
    ⟨views.store, rfl, views.clients, views.others⟩
  have ownerless := reaped.ownerless alive (by
    show (r.heap c).kind ≠ .hashChild
    rw [importer]
    exact ConnKind.noConfusion)
  rw [importChildEvent_eq]
  exact Matched.silent nothing (Matched.here
    (waited.connClose_other reaped alive other ownerless sys))

/-! ## Events -/

/-- The requests that the event of a record completes. -/
def requestsOn (r : Reactor) (p : Ptr) (ready : Ready) (calls : EventCalls) :
    List (Ptr × HttpRequest) :=
  if (r.heap p).kind = .client ∧ ready.hangup = false ∧ ready.readable = true then
    r.requestedBy p calls.reads
  else []

theorem Views.clientEvent {ready : Ready} {calls : EventCalls} (views : Views r server)
    (orderly : Orderly none r) (expected : Expected r (p, ready))
    (client : (r.heap p).kind = .client) :
    Matched Views (serverStep conf sha) requestIn (r.requestsOn p ready calls)
      (r.clientEvent conf p ready calls) server := by
  have alive : r.Live p := live_of_kind expected.allocated client ConnKind.noConfusion
  have serving : Serving p r := ⟨orderly.consistent, alive, client⟩
  unfold Reactor.clientEvent requestsOn
  dsimp only
  by_cases hangup : ready.hangup = true
  · rw [if_pos hangup, if_neg fun asked => Bool.false_ne_true (asked.2.1.symm.trans hangup)]
    exact views.connClose serving calls.answers.sys
  · rw [if_neg hangup, enter_eq alive]
    by_cases readable : ready.readable = true
    · have receives := expected.readable alive client readable
      have handling := (orderly.handling alive client receives).1
      have notWritable : ready.writable = false := by
        by_contra both
        exact receives_not_sends receives
          (expected.writable alive client (Bool.eq_true_of_not_eq_false both))
      have asked : (r.heap p).kind = .client ∧ ready.hangup = false ∧ ready.readable = true :=
        ⟨client, Bool.eq_false_iff.mpr hangup, readable⟩
      rw [if_pos readable, if_pos asked, notWritable, if_neg fun both => Bool.false_ne_true both.2]
      exact views.handleRead handling
    · rw [if_neg readable, if_neg fun asked => readable asked.2.2]
      split
      next writing =>
        rw [enter_eq alive]
        exact views.handleWrite serving (expected.writable alive client writing.2)
      next => exact Matched.here views

/-- An event of the loop is matched by events of the server. -/
theorem Views.dispatchEvent {ready : Ready} {calls : EventCalls} (views : Views r server)
    (orderly : Orderly none r) (expected : Expected r (p, ready))
    (hashed : (r.heap p).kind = .hashChild → HashTold sha r p calls.output) :
    Matched Views (serverStep conf sha) requestIn (r.requestsOn p ready calls)
      (dispatchEvent conf r p ready calls) server := by
  have nothing : (r.heap p).kind ≠ .client → r.requestsOn p ready calls = [] :=
    fun other => if_neg fun asked => other asked.1
  unfold Reactor.dispatchEvent
  rw [touch_of_allocated expected.allocated]
  dsimp only
  split
  next kind =>
    rw [nothing (by rw [kind]; exact ConnKind.noConfusion)]
    exact Matched.here views
  next kind =>
    rw [nothing (by rw [kind]; exact ConnKind.noConfusion),
      enter_eq (live_of_kind expected.allocated kind ConnKind.noConfusion)]
    exact views.acceptLoop orderly.consistent
  next kind =>
    have alive := live_of_kind expected.allocated kind ConnKind.noConfusion
    rw [nothing (by rw [kind]; exact ConnKind.noConfusion)]
    exact views.hashChildEvent orderly alive kind (expected.registered alive) (hashed kind)
  next kind =>
    rw [nothing (by rw [kind]; exact ConnKind.noConfusion)]
    exact views.importChildEvent orderly.consistent
      (live_of_kind expected.allocated kind ConnKind.noConfusion) kind _
  next kind => exact views.clientEvent orderly expected kind

/-- The sweep closes connections. -/
theorem Sweeps.matched {now : Int} {nodes : List Ptr} (sweeps : Sweeps sys now nodes r after)
    (consistent : Consistent r) (views : Views r server) :
    Matched Views (serverStep conf sha) requestIn [] after server := by
  induction sweeps generalizing server with
  | done => exact Matched.here views
  | spares _ _ inductionHypothesis => exact inductionHypothesis consistent views
  | @closes p _ r _ alive stalled _ inductionHypothesis =>
      have serving : Serving p r := ⟨consistent, alive, stalled.1⟩
      refine (views.connClose serving sys).bind fun next related => ?_
      exact inductionHypothesis (serving.connClose sys).consistent related

theorem Views.drainPendingFree (views : Views r server) (consistent : Consistent r) :
    Views r.drainPendingFree server := by
  obtain ⟨conns, pend, linked⟩ := consistent.lists
  have client : ∀ q, r.drainPendingFree.IsClient q ↔ r.IsClient q := fun q => by
    unfold IsClient
    rw [drainPendingFree_live linked]
    exact Iff.rfl
  exact ⟨views.store, views.importing, fun q isClient => views.clients q ((client q).mp isClient),
    fun q other => views.others q (mt (client q).mpr other)⟩

end Ends

/-! ## Runs -/

/-- The requests that a step reads, with their connections. -/
def requestsRead (r : Reactor) : Step → List (Ptr × HttpRequest)
  | .event calls =>
      match r.batch with
      | [] => []
      | (p, ready) :: _ => if r.log.fault then [] else r.requestsOn p ready calls
  | _ => []

/-- What the processes of a step tell is the digest of a file, and no other process works on
the tree. -/
def Genuine (sha : Sha256sum) (r : Reactor) : Step → Prop
  | .event calls =>
      ∀ event ∈ r.batch.head?, (r.heap event.1).kind = .hashChild →
        HashTold sha r event.1 calls.output
  | .outside _ => False
  | _ => True

instance (sha : Sha256sum) (r : Reactor) : (s : Step) → Decidable (r.Genuine sha s)
  | .wait _ => isTrue trivial
  | .event calls =>
      inferInstanceAs (Decidable (∀ event ∈ r.batch.head?, _ → HashTold sha r event.1 calls.output))
  | .finish _ _ => isTrue trivial
  | .outside _ => isFalse id

section Runs

variable {r : Reactor} {server : Server} {conf : Conf} {sha : Sha256sum}

/-- A step of the loop is matched by events of the server. -/
theorem step_matched (steady : Steady r) {s : Step} (genuine : r.Genuine sha s)
    (views : Views r server) :
    Matched Views (serverStep conf sha) requestIn (r.requestsRead s) (step conf r s) server := by
  have sound := steady.orderly.sound.1
  unfold step
  rw [if_neg (by rw [sound]; exact Bool.false_ne_true)]
  cases s with
  | wait batch =>
      dsimp only
      split
      next => exact Matched.here (views.same rfl rfl rfl rfl)
      next => exact Matched.here views
  | event calls =>
      unfold requestsRead
      dsimp only
      cases batch : r.batch with
      | nil => exact Matched.here views
      | cons event rest =>
          have expected := steady.expected event (by rw [batch]; exact List.mem_cons_self)
          have orderly : Orderly none { r with batch := rest } :=
            steady.orderly.withBatch r.waiting rest
          have seen : Views { r with batch := rest } server := views.same rfl rfl rfl rfl
          dsimp only
          rw [if_neg (by rw [sound]; exact Bool.false_ne_true)]
          apply seen.dispatchEvent orderly
            ⟨expected.allocated, expected.registered, expected.readable, expected.writable⟩
          intro hash
          apply genuine event _ hash
          rw [batch]
          exact rfl
  | finish sys now =>
      dsimp only
      split
      next idle =>
        obtain ⟨conns, pend, linked⟩ := steady.orderly.consistent.lists
        obtain ⟨ahead, sweeps, _⟩ := sweepTimeouts_sweeps steady.orderly.consistent linked sys now
        refine (sweeps.matched steady.orderly.consistent views).bind fun next related => ?_
        exact Matched.here ((related.drainPendingFree
          (sweeps.swept ahead).consistent).same rfl rfl rfl rfl)
      next => exact Matched.here views
  | outside files => exact absurd genuine id

theorem start_views (st : Store) (now : Int) : Views (start st now) (.start st) := by
  have listener : ∀ p, ¬ (start st now).IsClient p := fun p client =>
    ConnKind.noConfusion (client.2 : ConnKind.listener = .client)
  exact ⟨rfl, rfl, fun p client => absurd client (listener p), fun _ _ => rfl⟩

/-- The steps of a run that is matched. -/
def Faithful (sha : Sha256sum) (r : Reactor) (s : Step) : Prop :=
  r.Legal s ∧ s.Modifies ∧ r.Genuine sha s

instance (sha : Sha256sum) (r : Reactor) (s : Step) : Decidable (r.Faithful sha s) :=
  inferInstanceAs (Decidable (_ ∧ _ ∧ _))

theorem run_faithful {steps : List Step} (steady : Steady r)
    (faithful : Along (Faithful sha) (step conf) r steps) (views : Views r server) :
    Matched Views (serverStep conf sha) requestIn (taken (step conf) requestsRead r steps)
      (run (step conf) r steps) server :=
  run_matched (fun _ _ held step => step_steady held step.1 step.2.1)
    (fun _ _ _ held step seen => step_matched held step.2.2 seen) steady faithful views

/-- Requests are what a DELETE can come with. -/
theorem isDelete_of_brought {events : List (Sys × ServerEvent)}
    (kept : ∀ brought ∈ events.filterMap requestIn, brought.2.method ≠ ascii "DELETE") :
    ∀ event ∈ events, isDelete event.2 = false := by
  intro event member
  obtain ⟨calls, woken⟩ := event
  cases woken with
  | accept _ => rfl
  | close _ => rfl
  | importExit => rfl
  | input id input =>
      cases input with
      | request req =>
          have brought : (id, req) ∈ events.filterMap requestIn :=
            List.mem_filterMap.mpr ⟨_, member, rfl⟩
          exact beq_eq_false_iff_ne.mpr (kept _ brought)
      | overlong => rfl
      | malformed => rfl
      | chunk _ => rfl
      | hashed => rfl

/-- While the loop reads no DELETE, a name that resolves keeps its digest or becomes
ambiguous, whatever the clients send and however their events interleave. -/
theorem loop_keeps_meaning (conf : Conf) (sha : Sha256sum) (st : Store) (now : Int)
    {before after : List Step}
    (faithful : Along (Faithful sha) (step conf) (start st now) (before ++ after))
    (kept : ∀ read ∈ taken (step conf) requestsRead (run (step conf) (start st now) before) after,
      read.2.method ≠ ascii "DELETE")
    {name digest : Bytes}
    (resolved : storeResolve (run (step conf) (start st now) before).store name = .ok digest) :
    storeResolve (run (step conf) (start st now) (before ++ after)).store name = .ok digest ∨
      storeResolve (run (step conf) (start st now) (before ++ after)).store name =
        .error .ambiguous := by
  rw [along_append] at faithful
  obtain ⟨events, _, seen⟩ := run_faithful (start_steady st now) faithful.1 (start_views st now)
  have steady : Steady (run (step conf) (start st now) before) :=
    run_invariant (motive := Steady) (fun _ _ held step => step_steady held step.1 step.2.1)
      (start_steady st now) faithful.1
  obtain ⟨others, brought, later⟩ := run_faithful steady faithful.2 seen
  rw [← brought] at kept
  have grows := @run_grows conf sha _ (run_sound conf sha (Server.sound_start st) events) others
    (isDelete_of_brought kept)
  rw [run_append, ← later.store]
  rw [← seen.store] at resolved
  exact storeResolve_grows grows resolved

theorem unauthorised_of_brought {events : List (Sys × ServerEvent)}
    (tokenless : ∀ brought ∈ events.filterMap requestIn,
      bearerOk brought.2 conf.pushToken = false) :
    ∀ event ∈ events, Unauthorised conf event.2 := by
  rintro ⟨calls, woken⟩ member id req rfl
  exact tokenless (id, req) (List.mem_filterMap.mpr ⟨_, member, rfl⟩)

/-- While no request that the loop reads carries the push token, the store stays as it was
and no import is started, whatever else happens. -/
theorem loop_tokenless (conf : Conf) (sha : Sha256sum) (st : Store) (now : Int)
    {steps : List Step} (faithful : Along (Faithful sha) (step conf) (start st now) steps)
    (tokenless : ∀ read ∈ taken (step conf) requestsRead (start st now) steps,
      bearerOk read.2 conf.pushToken = false) :
    (run (step conf) (start st now) steps).store = st ∧
      (run (step conf) (start st now) steps).importRunning = false := by
  obtain ⟨events, brought, seen⟩ :=
    run_faithful (start_steady st now) faithful (start_views st now)
  rw [← brought] at tokenless
  have along : Along (fun _ event => Unauthorised conf event.2) (serverStep conf sha) (.start st)
      events :=
    along_of_forall fun event member _ => unauthorised_of_brought tokenless event member
  have still := run_invariant (motive := fun server => server.store = st ∧ server.Quiet)
    (fun _ _ held denied =>
      ⟨(serverStep_unauthorised held.2 denied).1.trans held.1,
        (serverStep_unauthorised held.2 denied).2⟩)
    ⟨rfl, Server.quiet_start st⟩ along
  rw [← seen.store, ← seen.importing]
  exact ⟨still.1, still.2.importer⟩

end Runs

end Reactor

/-! ### An upload through the loop -/

/-- The upload of one byte, and the end of its hash child. -/
def hashedUpload : List Step :=
  uploaded ++ [.wait [(2, .input)],
    .event { EventCalls.answered (.succeeding 0) with
      output := Sha256sum.sample.digest (ascii "a") ++ ascii "  -\n" },
    .finish (Sys.succeeding fun _ => none) 0]

/-- Another client is accepted and asks for something. -/
def fetchedNext : List Step :=
  Step.acceptedClient ++ [.wait [(3, .input)],
    .event { EventCalls.answered (.succeeding 0) with
      reads := [(.data fetchBytes true, .succeeding 0)] },
    .finish (Sys.succeeding fun _ => none) 0]

theorem hashedUpload_faithful :
    Along (Reactor.Faithful .sample) (Reactor.step Conf.sample)
      (Reactor.start (Store.holding [] []) 0) (hashedUpload ++ fetchedNext) := by
  decide +kernel

/-- The second client finds the name as the first one published it. -/
theorem hashedUpload_kept :
    storeResolve (Reactor.after (hashedUpload ++ fetchedNext)).store (ascii "a-1-1.tar.gz") =
        .ok (Sha256sum.sample.digest (ascii "a")) ∨
      storeResolve (Reactor.after (hashedUpload ++ fetchedNext)).store (ascii "a-1-1.tar.gz") =
        .error .ambiguous :=
  Reactor.loop_keeps_meaning Conf.sample .sample (Store.holding [] []) 0 hashedUpload_faithful
    (by decide +kernel) (by decide +kernel)

/-- Of a server that asks for a token the upload leaves nothing. -/
theorem refusedUpload_kept :
    (taken (Reactor.step .guarded) Reactor.requestsRead (Reactor.start (Store.holding [] []) 0)
        uploaded).map (fun read => read.2.method) = [ascii "PUT"] ∧
      (run (Reactor.step .guarded) (Reactor.start (Store.holding [] []) 0) uploaded).store =
        Store.holding [] [] := by
  refine ⟨by decide +kernel, ?_⟩
  exact (Reactor.loop_tokenless .guarded .sample (Store.holding [] []) 0 (by decide +kernel)
    (by decide +kernel)).1

end CixCache
