import CixCache.Server.Orderly

/-!
Contract: every event keeps the clients settled, as long as registrations can be changed.

Owns: `Expected`, what a batch can still hold of a record; `Steady`, the state between two
steps; that every event, the sweep and every step keep it while EPOLL_CTL_MOD succeeds;
that one response is begun on a connection and that the records and the two lists agree;
a run in which a modification fails.

Does not own: processes and staging files.
-/

namespace CixCache

open CixCache.Lib

namespace Reactor

section Events

variable {r after : Reactor} {p q c o : Ptr} {sys : Sys} {a : CallResults} {conf : Conf}
  {ready : Ready}

theorem Orderly.withStore (orderly : Orderly none r) (store : Store) :
    Orderly none (r.withStore store) where
  consistent := orderly.consistent.withStore store
  paired := orderly.paired
  settled q idle alive client :=
    (orderly.settled q idle alive client).congr ⟨(r.heap q).next, rfl⟩ rfl rfl fun _ _ => rfl
  begunOnce := orderly.begunOnce
  begunBy := orderly.begunBy
  closed := orderly.closed
  sound := orderly.sound

theorem Orderly.withImportRunning (orderly : Orderly none r) (running : Bool) :
    Orderly none (r.withImportRunning running) where
  consistent := orderly.consistent.withImportRunning running
  paired := orderly.paired
  settled q idle alive client :=
    (orderly.settled q idle alive client).congr ⟨(r.heap q).next, rfl⟩ rfl rfl fun _ _ => rfl
  begunOnce := orderly.begunOnce
  begunBy := orderly.begunBy
  closed := orderly.closed
  sound := orderly.sound

/-- An event that acts on an open record is nothing to note. -/
theorem enter_eq (alive : r.Live p) : r.enter p = r := by
  have calm : (r.log.fault || !r.allocated p) = r.log.fault ∧
      (r.log.strayed || decide ((r.heap p).kind = .dead)) = r.log.strayed := by
    rw [alive.1, decide_eq_false alive.2]
    exact ⟨Bool.or_false _, Bool.or_false _⟩
  unfold enter
  rw [calm.1, calm.2]
  rfl

/-! ## New connections -/

/-- Nothing was read yet. -/
theorem init_needMore : ∀ req, httpConnTryParse .init ≠ .complete req := by
  intro req parsed
  have more : httpConnTryParse .init = .needMore := rfl
  rw [more] at parsed
  contradiction

theorem Orderly.connNew (orderly : Orderly none r) (now : Int) :
    Orderly (some r.fresh) (r.connNew .client now) := by
  have record := connNew_self r .client now
  apply (orderly.aside r.fresh).grown (orderly.consistent.connNew ConnKind.noConfusion now)
    (fun q different => connNew_of_ne different) (fun q => connNew_live ConnKind.noConfusion)
    (fun _ _ => rfl) rfl rfl
  · rw [record]
    exact ConnKind.noConfusion
  · rw [record]
    exact ConnKind.noConfusion
  · intro other
    exact absurd rfl other

/-- A client that was accepted and registered. -/
theorem Orderly.accepted (orderly : Orderly none r) (now : Int) :
    Orderly none ((r.connNew .client now).epollAdd r.fresh .input) := by
  have made := orderly.connNew now
  have record := connNew_self r .client now
  have alive : (r.connNew .client now).Live r.fresh :=
    (connNew_live ConnKind.noConfusion).mpr (Or.inl rfl)
  have begun := orderly.begun_fresh
  have watched : Orderly (some r.fresh) ((r.connNew .client now).epollAdd r.fresh .input) := by
    apply made.touched (made.consistent.epollAdd alive _) _ (fun _ _ => rfl) rfl rfl rfl rfl
    · intro q different
      exact Function.update_of_ne different _ _
    · exact fun _ _ => rfl
    · exact made.begunOnce _
    · exact made.consistent.allocated_lt alive.1
    · exact made.sound
    · rw [record]
      rfl
  apply watched.settle
  refine .receives ?_ (Function.update_self _ _ _) begun ?_ ?_
  · show ((r.connNew .client now).heap r.fresh).state.Receives
    rw [record]
    exact Or.inl rfl
  · show ((r.connNew .client now).heap r.fresh).child = none
    rw [record]
    rfl
  · show (r.connNew .client now).Waits r.fresh
    unfold Waits
    rw [record]
    exact ⟨ConnPhase.noConfusion, fun _ => init_needMore⟩

theorem acceptLoop_orderly {accepts : List Accepted} (orderly : Orderly none r) :
    Orderly none (acceptLoop accepts r) := by
  induction accepts generalizing r with
  | nil => exact orderly
  | cons accept rest inductionHypothesis =>
      cases accept with
      | tryAgain => exact orderly
      | failed => exact orderly
      | interrupted => exact inductionHypothesis orderly
      | accepted a =>
          rw [acceptLoop]
          split
          next => exact inductionHypothesis orderly
          next =>
            dsimp only
            split
            next => exact inductionHypothesis (orderly.accepted a.now)
            next =>
              have made := orderly.connNew a.now
              have record := connNew_self r .client a.now
              apply inductionHypothesis
              apply made.connClose ((connNew_live ConnKind.noConfusion).mpr (Or.inl rfl))
              rw [record]
              rfl

/-! ## Children -/

/-- Everything that is left when a hash child ended, before its owner goes on. -/
structure Orphaned (r : Reactor) (c o : Ptr) (after : Reactor) : Prop where
  live : ∀ q, after.Live q ↔ r.Live q ∧ q ≠ c
  others : ∀ q, q ≠ c → q ≠ o → ∃ link, after.heap q = (r.heap q).linkTo link
  owner : ∃ link, after.heap o = (r.heap o).childless.linkTo link
  childless : (after.heap c).child = none
  interest : ∀ q, q ≠ c → after.interest q = r.interest q
  fresh : after.fresh = r.fresh
  store : after.store = r.store
  importRunning : after.importRunning = r.importRunning
  log : after.log = (r.enter o).log

theorem Consistent.orphaned (consistent : Consistent r) (alive : r.Live c)
    (owned : (r.heap c).owner = some o) (sys : Sys) :
    Orphaned r c o ((r.letGo c o).connClose sys c) := by
  have different := consistent.owner_ne alive owned
  have removed := consistent.letGo_removed alive owned sys
  have outside : ∀ q, q ≠ c → q ∉ [c] := fun q other member => other (List.mem_singleton.mp member)
  have entered : ((r.modify c fun cc => cc.ownedBy none).enter o).log = (r.enter o).log := by
    unfold enter
    rw [modify_of_ne _ _ different.symm]
    rfl
  have plain : ((r.letGo c o).heap c).upPath = none := by
    rw [letGo_child different]
    apply consistent.plain c alive
    rw [(consistent.owner c o alive owned).1]
    exact ConnKind.noConfusion
  refine ⟨?_, ?_, ?_, removed.childless c (List.mem_singleton_self c), ?_, removed.fresh, ?_,
    removed.importRunning, removed.log.trans entered⟩
  · intro q
    rw [removed.live, consistent.letGo_live alive owned, List.mem_singleton]
  · intro q notChild notOwner
    obtain ⟨link, same⟩ := removed.others q (outside q notChild)
    rw [same, letGo_of_ne notChild notOwner]
    exact ⟨link, rfl⟩
  · obtain ⟨link, same⟩ := removed.others o (outside o different.symm)
    rw [same, letGo_owner different]
    exact ⟨link, rfl⟩
  · intro q notChild
    rw [removed.interest, if_neg (outside q notChild)]
    rfl
  · rw [removed.store, plain]
    rfl

/-- A watched hash child has an owner that waits for it. -/
theorem Orderly.hashed (orderly : Orderly none r) (alive : r.Live c)
    (hash : (r.heap c).kind = .hashChild) (watched : (r.interest c).isSome) :
    ∃ o, (r.heap c).owner = some o ∧ r.Live o ∧ (r.heap o).kind = .client ∧
      (r.heap o).child = some c ∧ (r.heap o).state = .hashing ∧
        r.interest o = some .quiet ∧ r.log.begun o = 0 := by
  obtain ⟨o, owned, ownerLive, has⟩ := orderly.paired c alive hash
  have client := (orderly.consistent.owner c o alive owned).2.2 ownerLive
  cases orderly.settled o (Option.some_ne_none o).symm ownerLive client with
  | receives _ _ _ childless _ =>
      rw [childless] at has
      contradiction
  | hashes state quiet unbegun _ _ => exact ⟨o, owned, ownerLive, client, has, state, quiet, unbegun⟩
  | sends _ _ _ unwatched =>
      rw [unwatched c has] at watched
      contradiction

/-- The other hash children keep their owners. -/
theorem Orphaned.paired (orphaned : Orphaned r c o after) (orderly : Orderly none r)
    (ownerLive : r.Live o) (has : (r.heap o).child = some c) {other : Ptr}
    (otherLive : after.Live other) (otherHash : (after.heap other).kind = .hashChild) :
    ∃ keeper, (after.heap other).owner = some keeper ∧ after.Live keeper ∧
      (after.heap keeper).child = some other := by
  obtain ⟨client, _, hash, _⟩ := orderly.consistent.child o c ownerLive has
  obtain ⟨was, notChild⟩ := (orphaned.live other).mp otherLive
  have notOwner : other ≠ o := by
    obtain ⟨link, atOwner⟩ := orphaned.owner
    intro same
    rw [same, atOwner] at otherHash
    have kind : (r.heap o).kind = .hashChild := otherHash
    rw [client] at kind
    contradiction
  obtain ⟨link, same⟩ := orphaned.others other notChild notOwner
  rw [same] at otherHash ⊢
  obtain ⟨keeper, keeps, keeperLive, keeperHas⟩ := orderly.paired other was otherHash
  have keeperNotOwner : keeper ≠ o := by
    intro same
    rw [same, has] at keeperHas
    exact notChild (Option.some.inj keeperHas).symm
  have keeperNotChild : keeper ≠ c := by
    intro same
    rw [same] at keeperHas keeperLive
    rw [(orderly.consistent.child c other keeperLive keeperHas).1] at hash
    contradiction
  obtain ⟨keeperLink, keeperSame⟩ := orphaned.others keeper keeperNotChild keeperNotOwner
  refine ⟨keeper, keeps, (orphaned.live keeper).mpr ⟨keeperLive, keeperNotChild⟩, ?_⟩
  rw [keeperSame]
  exact keeperHas

/-- The other clients are settled as before. -/
theorem Orphaned.settled (orphaned : Orphaned r c o after) (orderly : Orderly none r)
    (owned : (r.heap c).owner = some o) (log : after.log = r.log) (idle : q ≠ o)
    (qLive : after.Live q) (qClient : (after.heap q).kind = .client) : Settled after q := by
  obtain ⟨was, notChild⟩ := (orphaned.live q).mp qLive
  obtain ⟨link, same⟩ := orphaned.others q notChild idle
  rw [same] at qClient
  apply (orderly.settled q (Option.some_ne_none q).symm was qClient).congr ⟨link, same⟩
    (orphaned.interest q notChild)
  · rw [log]
  · intro child hasChild
    apply orphaned.interest
    intro same
    have ownedBack := (orderly.consistent.child q child was hasChild).2.2.2.1
    rw [same, owned] at ownedBack
    exact idle (Option.some.inj ownedBack).symm

/-- The owner of a hash child that ended can be answered. -/
theorem Orphaned.answering (orphaned : Orphaned r c o after) (orderly : Orderly none r)
    (consistent : Consistent after) (ownerLive : r.Live o) (has : (r.heap o).child = some c)
    (registered : (r.interest o).isSome) (unbegun : r.log.begun o = 0) : Answering o after := by
  obtain ⟨client, _, _, owned, newer⟩ := orderly.consistent.child o c ownerLive has
  have different : o ≠ c := Nat.ne_of_lt newer
  have log : after.log = r.log := by
    rw [orphaned.log, enter_eq ownerLive]
  obtain ⟨link, atOwner⟩ := orphaned.owner
  have isClient : (after.heap o).kind = .client := by
    rw [atOwner]
    exact client
  refine ⟨⟨consistent, ?_, ?_, ?_, ?_, ?_, ?_⟩, (orphaned.live o).mpr ⟨ownerLive, different⟩,
    isClient, ?_, ?_, ?_⟩
  · intro other otherLive otherHash
    exact orphaned.paired orderly ownerLive has otherLive otherHash
  · intro q idle qLive qClient
    exact orphaned.settled orderly owned log (fun same => idle (congrArg some same.symm)) qLive
      qClient
  · intro q
    rw [log]
    exact orderly.begunOnce q
  · intro q counted
    rw [log] at counted
    obtain ⟨small, countedClient⟩ := orderly.begunBy q counted
    rw [orphaned.fresh]
    refine ⟨small, fun qLive => ?_⟩
    obtain ⟨was, notChild⟩ := (orphaned.live q).mp qLive
    by_cases isOwner : q = o
    · rw [isOwner]
      exact isClient
    · obtain ⟨qLink, same⟩ := orphaned.others q notChild isOwner
      rw [same]
      exact countedClient was
  · intro q dead
    by_cases isChild : q = c
    · rw [isChild]
      exact orphaned.childless
    · have isOwner : q ≠ o := by
        intro same
        rw [same, isClient] at dead
        contradiction
      obtain ⟨qLink, same⟩ := orphaned.others q isChild isOwner
      rw [same] at dead ⊢
      exact orderly.closed q dead
  · rw [log]
    exact orderly.sound
  · rw [orphaned.interest o different]
    exact registered
  · rw [log]
    exact unbegun
  · intro child hasChild
    rw [atOwner] at hasChild
    contradiction

theorem Answering.reapHashChild (answering : Answering p r) : Answering p (r.reapHashChild p) := by
  have reaped := reapHashChild_self r p
  have fields : (r.reapHashChild p).interest = r.interest ∧
      (r.reapHashChild p).log.begun = r.log.begun ∧
      (r.reapHashChild p).log.fault = r.log.fault ∧
      (r.reapHashChild p).log.strayed = r.log.strayed ∧
      (r.reapHashChild p).allocated = r.allocated ∧ (r.reapHashChild p).fresh = r.fresh := by
    unfold Reactor.reapHashChild
    split <;> exact ⟨rfl, rfl, rfl, rfl, rfl, rfl⟩
  obtain ⟨interest, begun, fault, strayed, allocated, fresh⟩ := fields
  refine ⟨?_, reapHashChild_live.mpr answering.alive, ?_, ?_, ?_, ?_⟩
  · apply answering.orderly.touched (answering.orderly.consistent.reapHashChild p) answering.client
      (fun q different => reapHashChild_of_ne different)
    · rw [reaped]
      rfl
    · rw [reaped]
      rfl
    · exact allocated
    · exact fresh
    · intro q _
      rw [interest]
    · intro q _
      rw [begun]
    · rw [begun]
      exact answering.orderly.begunOnce p
    · exact answering.orderly.consistent.allocated_lt answering.alive.1
    · rw [fault, strayed]
      exact answering.orderly.sound
  · rw [reaped]
    exact answering.client
  · rw [interest]
    exact answering.registered
  · rw [begun]
    exact answering.begun
  · intro c has
    rw [reaped] at has
    rw [interest]
    exact answering.unwatched c has

/-- A staging file passes out of a hashed client's hands. -/
theorem local_unstaged (r : Reactor) (p : Ptr) {st : Store} (kept : StagingKept r.store st)
    (other : (r.heap p).state ≠ .recvBody) :
    Local p r ((r.withStore st).modify p Record.unstaged) := by
  refine ⟨fun q different => modify_of_ne _ _ different, ?_, ?_, ?_, ?_, ?_, ?_,
    Or.inr ⟨other, ?_⟩, rfl, rfl, rfl, rfl, rfl, rfl, rfl, rfl, rfl, kept⟩
  all_goals rw [modify_self]
  all_goals try rfl
  exact Or.inl rfl

theorem finishUpload_orderly (answering : Answering p r)
    (hashing : (r.heap p).state = .hashing) (modifies : a.Modifies) (output : Bytes) :
    Orderly none (r.finishUpload a p output) := by
  have reaped := answering.reapHashChild
  rcases finishUpload_cases r a p output with ⟨response, answered⟩ | ⟨digest, response, answered⟩
  · rw [answered]
    exact (respond_responds _ a p response).orderly reaped modifies
  · rw [answered]
    have kept := commitUpload_stagingKept a.sys r.store (r.heap p).upPath (r.heap p).upName digest
    generalize (commitUpload a.sys r.store (r.heap p).upPath (r.heap p).upName digest).1 = done
      at kept ⊢
    have store : (r.reapHashChild p).store = r.store := by
      unfold reapHashChild
      split <;> rfl
    have change := local_unstaged (r.reapHashChild p) p (store ▸ kept) (by
      rw [reapHashChild_self]
      show (r.heap p).state ≠ _
      rw [hashing]
      exact ConnPhase.noConfusion)
    exact (respond_responds _ a p response).orderly (change.answering reaped) modifies

/-- The event of a watched hash child. -/
theorem hashChildEvent_orderly (orderly : Orderly none r) (alive : r.Live c)
    (hash : (r.heap c).kind = .hashChild) (watched : (r.interest c).isSome)
    (modifies : a.Modifies) (output : Bytes) : Orderly none (r.hashChildEvent a c output) := by
  obtain ⟨o, owned, ownerLive, client, has, hashing, quiet, unbegun⟩ :=
    orderly.hashed alive hash watched
  have ends := r.hashChildEvent_ends a c output
  generalize r.hashChildEvent a c output = after at ends ⊢
  cases ends with
  | alone ownerless =>
      rw [owned] at ownerless
      contradiction
  | @finishes owner ownedToo =>
      obtain rfl : o = owner := Option.some.inj (owned.symm.trans ownedToo)
      have orphan := orderly.consistent.orphan alive owned a.sys
      have orphaned := orderly.consistent.orphaned alive owned a.sys
      obtain ⟨link, atOwner⟩ := orphaned.owner
      have registered : (r.interest o).isSome := by
        rw [quiet]
        rfl
      apply finishUpload_orderly
        (orphaned.answering orderly orphan.consistent ownerLive has registered unbegun) _ modifies
      rw [atOwner]
      exact hashing

theorem importChildEvent_orderly (orderly : Orderly none r) (alive : r.Live c)
    (importer : (r.heap c).kind = .importChild) (sys : Sys) :
    Orderly none (r.importChildEvent sys c) := by
  have logged : Orderly none (r.withLog
      { r.log with waited := (r.heap c).childPid.toList ++ r.log.waited }) :=
    orderly.withLog rfl rfl rfl
  have reaped : Orderly none (r.reapImporter c) := logged.withImportRunning false
  rw [importChildEvent_eq]
  apply (reaped.aside c).connClose alive
  apply reaped.consistent.ownerless alive
  show (r.heap c).kind ≠ .hashChild
  rw [importer]
  exact ConnKind.noConfusion

/-! ## Batches -/

/-- What a batch can still hold of a record. -/
structure Expected (r : Reactor) (event : Ptr × Ready) : Prop where
  allocated : r.allocated event.1 = true
  registered : r.Live event.1 → (r.interest event.1).isSome
  readable : r.Live event.1 → (r.heap event.1).kind = .client → event.2.readable = true →
    (r.heap event.1).state.Receives
  writable : r.Live event.1 → (r.heap event.1).kind = .client → event.2.writable = true →
    (r.heap event.1).state.Sends

theorem receives_not_sends {state : ConnPhase} (receives : state.Receives) : ¬state.Sends := by
  rintro (header | body)
  · rw [header] at receives
    exact receives.elim ConnPhase.noConfusion ConnPhase.noConfusion
  · rw [body] at receives
    exact receives.elim ConnPhase.noConfusion ConnPhase.noConfusion

/-- A client that can be read from is ready to be handled. -/
theorem Orderly.handling (orderly : Orderly none r) (alive : r.Live p)
    (client : (r.heap p).kind = .client) (receives : (r.heap p).state.Receives) :
    Handling p r ∧ r.Waits p := by
  cases orderly.settled p (Option.some_ne_none p).symm alive client with
  | receives _ input unbegun childless waits =>
      exact ⟨⟨orderly.aside p, alive, client, receives, input, unbegun, childless⟩, waits⟩
  | hashes state _ _ _ _ =>
      rw [state] at receives
      exact receives.elim ConnPhase.noConfusion ConnPhase.noConfusion
  | sends sends _ _ _ => exact absurd sends (receives_not_sends receives)

/-- Writing part of a response, or its end. -/
theorem handleWrite_orderly (orderly : Orderly none r) (alive : r.Live p)
    (client : (r.heap p).kind = .client) (sends : (r.heap p).state.Sends) (sys : Sys) (now : Int)
    (answers : List Written) : Orderly none (handleWrite sys now p answers r) := by
  obtain ⟨output, once, unwatched⟩ : r.interest p = some .output ∧ r.log.begun p = 1 ∧
      ∀ c, (r.heap p).child = some c → r.interest c = none := by
    cases orderly.settled p (Option.some_ne_none p).symm alive client with
    | receives receives _ _ _ _ => exact absurd sends (receives_not_sends receives)
    | hashes state _ _ _ _ =>
        rw [state] at sends
        exact sends.elim ConnPhase.noConfusion ConnPhase.noConfusion
    | sends _ output once unwatched => exact ⟨output, once, unwatched⟩
  rcases handleWrite_local (r := r) (p := p) sys now answers with change | ⟨mid, change, closed⟩
  · apply (change.orderly (orderly.aside p) alive client).settle
    refine .sends ?_ ?_ ?_ ?_
    · rcases change.state with same | sent
      · rw [same]
        exact sends
      · exact Or.inr sent.2
    · rw [change.interest]
      exact output
    · rw [change.log]
      exact once
    · intro c has
      rw [change.child] at has
      rw [change.interest]
      exact unwatched c has
  · rw [closed]
    have changed := change.orderly (orderly.aside p) alive client
    have still := change.live.mpr alive
    exact changed.connClose still (changed.consistent.client_ownerless still
      (change.kind.trans client)) sys

theorem clientEvent_orderly (orderly : Orderly none r) {ready : Ready} {calls : EventCalls}
    (expected : Expected r (p, ready)) (client : (r.heap p).kind = .client)
    (modifies : (Step.event calls).Modifies) :
    Orderly none (r.clientEvent conf p ready calls) := by
  have alive : r.Live p := live_of_kind expected.allocated client ConnKind.noConfusion
  unfold clientEvent
  dsimp only
  split
  next =>
    exact (orderly.aside p).connClose alive (orderly.consistent.client_ownerless alive client) _
  next =>
    rw [enter_eq alive]
    by_cases readable : ready.readable = true
    · have receives := expected.readable alive client readable
      obtain ⟨handling, waits⟩ := orderly.handling alive client receives
      have permitted : ∀ read ∈ calls.reads, read.2.Modifies := by
        intro read member
        exact modifies read.2 (List.mem_cons_of_mem _ (List.mem_map_of_mem member))
      have handled := @handleRead_handles _ True conf _ _ _ permitted fun _ => waits
      have notWritable : ready.writable = false := by
        by_contra both
        exact receives_not_sends receives
          (expected.writable alive client (Bool.eq_true_of_not_eq_false both))
      rw [if_pos readable, notWritable, if_neg fun both => Bool.false_ne_true both.2]
      exact handled.orderly handling trivial
    · rw [if_neg readable]
      split
      next writing =>
        rw [enter_eq alive]
        exact handleWrite_orderly orderly alive client
          (expected.writable alive client writing.2) _ _ _
      next => exact orderly

/-- Every event keeps everybody settled. -/
theorem dispatchEvent_orderly (orderly : Orderly none r) {ready : Ready} {calls : EventCalls}
    (expected : Expected r (p, ready)) (modifies : (Step.event calls).Modifies) :
    Orderly none (dispatchEvent conf r p ready calls) := by
  unfold dispatchEvent
  rw [touch_of_allocated expected.allocated]
  dsimp only
  split
  next => exact orderly
  next kind =>
    rw [enter_eq (live_of_kind expected.allocated kind ConnKind.noConfusion)]
    exact acceptLoop_orderly orderly
  next kind =>
    have alive := live_of_kind expected.allocated kind ConnKind.noConfusion
    exact hashChildEvent_orderly orderly alive kind (expected.registered alive)
      (modifies _ List.mem_cons_self) _
  next kind =>
    exact importChildEvent_orderly orderly
      (live_of_kind expected.allocated kind ConnKind.noConfusion) kind _
  next kind => exact clientEvent_orderly orderly expected kind modifies

/-- A closed record of the batch is passed over. -/
theorem dispatchEvent_dead (allocated : r.allocated p = true) (dead : ¬r.Live p) (ready : Ready)
    (calls : EventCalls) : dispatchEvent conf r p ready calls = r := by
  have kind : (r.heap p).kind = .dead := by
    by_contra alive
    exact dead ⟨allocated, alive⟩
  unfold dispatchEvent
  rw [touch_of_allocated allocated]
  dsimp only
  rw [kind]

/-- Nothing was reported of a client that waits for its hash child, and nothing will be. -/
theorem Expected.hashed (other : Expected r (q, ready)) (live : r.Live q)
    (client : (r.heap q).kind = .client) (hashing : (r.heap q).state = .hashing)
    (after' : Orderly none after) (allocated : after.allocated q = true)
    (kept : after.Live q → (after.heap q).kind = (r.heap q).kind) :
    Expected after (q, ready) := by
  refine ⟨allocated, ?_, ?_, ?_⟩
  · intro alive
    cases after'.settled q (Option.some_ne_none _).symm alive ((kept alive).trans client) with
    | receives _ interest _ _ _ =>
        rw [interest]
        rfl
    | hashes _ interest _ _ _ =>
        rw [interest]
        rfl
    | sends _ interest _ _ =>
        rw [interest]
        rfl
  · intro _ _ readable
    have found := other.readable live client readable
    rw [hashing] at found
    exact found.elim ConnPhase.noConfusion ConnPhase.noConfusion
  · intro _ _ writable
    have found := other.writable live client writable
    rw [hashing] at found
    exact found.elim ConnPhase.noConfusion ConnPhase.noConfusion

/-- A record that is left alone. -/
theorem Expected.untouched {touched : List Ptr} (other : Expected r (q, ready))
    (frame : Frame touched r after) (outside : q ∉ touched) : Expected after (q, ready) := by
  refine ⟨frame.allocated q other.allocated, ?_, ?_, ?_⟩
  · intro alive
    obtain ⟨was, _⟩ := frame.kept q other.allocated alive
    obtain ⟨_, interest⟩ := frame.others q outside other.allocated alive
    rw [interest]
    exact other.registered was
  · intro alive client readable
    obtain ⟨was, kind⟩ := frame.kept q other.allocated alive
    obtain ⟨⟨link, same⟩, _⟩ := frame.others q outside other.allocated alive
    rw [same]
    exact other.readable was (kind.symm.trans client) readable
  · intro alive client writable
    obtain ⟨was, kind⟩ := frame.kept q other.allocated alive
    obtain ⟨⟨link, same⟩, _⟩ := frame.others q outside other.allocated alive
    rw [same]
    exact other.writable was (kind.symm.trans client) writable

/-- What the batch holds of the other records stays true of them. -/
theorem Expected.later (orderly : Orderly none r) {now : Ready} {calls : EventCalls}
    (expected : Expected r (p, now)) (modifies : (Step.event calls).Modifies)
    (other : Expected r (q, ready)) (different : q ≠ p) :
    Expected (dispatchEvent conf r p now calls) (q, ready) := by
  by_cases alive : r.Live p
  · have frame := @dispatchEvent_frame _ _ conf orderly.consistent expected.allocated now calls
    by_cases owner : (r.heap p).owner = some q
    · have hash := (orderly.consistent.owner p q alive owner).1
      obtain ⟨o, owned, ownerLive, client, _, hashing, _⟩ :=
        orderly.hashed alive hash (expected.registered alive)
      obtain rfl : q = o := Option.some.inj (owner.symm.trans owned)
      exact other.hashed ownerLive client hashing
        (dispatchEvent_orderly orderly expected modifies)
        (frame.allocated q other.allocated) fun live => (frame.kept q other.allocated live).2
    · apply other.untouched frame
      intro member
      rcases List.mem_cons.mp member with same | isOwner
      · exact different same
      · exact owner (Option.mem_toList.mp isOwner)
  · rw [dispatchEvent_dead expected.allocated alive]
    exact other

end Events

/-! ## Runs -/

/-- The state between two steps. -/
structure Steady (r : Reactor) : Prop where
  orderly : Orderly none r
  expected : ∀ event ∈ r.batch, Expected r event
  distinct : (r.batch.map Prod.fst).Nodup

section Runs

variable {r after : Reactor} {p : Ptr} {conf : Conf}

theorem Orderly.withBatch (orderly : Orderly none r) (waiting : Bool)
    (batch : List (Ptr × Ready)) :
    Orderly none { r with waiting := waiting, batch := batch } where
  consistent := orderly.consistent.withBatch waiting batch
  paired := orderly.paired
  settled q idle alive client :=
    (orderly.settled q idle alive client).congr ⟨(r.heap q).next, rfl⟩ rfl rfl fun _ _ => rfl
  begunOnce := orderly.begunOnce
  begunBy := orderly.begunBy
  closed := orderly.closed
  sound := orderly.sound

/-- What is reported of a record fits what it waits for. -/
theorem Reports.expected (orderly : Orderly none r) {event : Ptr × Ready}
    (reports : r.Reports event) : Expected r event := by
  have live := reports.live orderly.consistent
  unfold Reports at reports
  split at reports
  next => contradiction
  next interest found =>
    refine ⟨live.1, ?_, ?_, ?_⟩
    · intro _
      rw [found]
      rfl
    · intro alive client readable
      have asked := reports.1 readable
      cases orderly.settled event.1 (Option.some_ne_none _).symm alive client with
      | receives receives _ _ _ _ => exact receives
      | hashes _ quiet _ _ _ =>
          rw [Option.some.inj (found.symm.trans quiet)] at asked
          contradiction
      | sends _ output _ _ =>
          rw [Option.some.inj (found.symm.trans output)] at asked
          contradiction
    · intro alive client writable
      have asked := reports.2 writable
      cases orderly.settled event.1 (Option.some_ne_none _).symm alive client with
      | receives _ input _ _ _ =>
          rw [Option.some.inj (found.symm.trans input)] at asked
          contradiction
      | hashes _ quiet _ _ _ =>
          rw [Option.some.inj (found.symm.trans quiet)] at asked
          contradiction
      | sends sends _ _ _ => exact sends

theorem Sweeps.orderly {sys : Sys} {now : Int} {nodes : List Ptr}
    (sweeps : Sweeps sys now nodes r after) (orderly : Orderly none r) : Orderly none after := by
  induction sweeps with
  | done => exact orderly
  | spares _ _ inductionHypothesis => exact inductionHypothesis orderly
  | @closes p _ _ _ alive stalled _ inductionHypothesis =>
      apply inductionHypothesis
      exact (orderly.aside p).connClose alive
        (orderly.consistent.client_ownerless alive stalled.1) sys

theorem Orderly.drainPendingFree (orderly : Orderly none r) :
    Orderly none r.drainPendingFree := by
  obtain ⟨conns, pend, linked⟩ := orderly.consistent.lists
  have live : ∀ q, r.drainPendingFree.Live q ↔ r.Live q := fun q => drainPendingFree_live linked
  refine ⟨orderly.consistent.drainPendingFree, ?_, ?_, orderly.begunOnce, ?_, orderly.closed,
    orderly.sound⟩
  · intro c alive hash
    obtain ⟨o, owned, ownerLive, has⟩ := orderly.paired c ((live c).mp alive) hash
    exact ⟨o, owned, (live o).mpr ownerLive, has⟩
  · intro q idle alive client
    exact (orderly.settled q idle ((live q).mp alive) client).congr ⟨(r.heap q).next, rfl⟩ rfl rfl
      fun _ _ => rfl
  · intro q counted
    obtain ⟨small, client⟩ := orderly.begunBy q counted
    exact ⟨small, fun alive => client ((live q).mp alive)⟩

theorem step_steady (steady : Steady r) {s : Step} (legal : r.Legal s) (modifies : s.Modifies) :
    Steady (step conf r s) := by
  unfold step
  split
  next => exact steady
  next =>
    cases s with
    | wait batch =>
        dsimp only
        split
        next =>
          refine ⟨steady.orderly.withBatch false batch, ?_, legal.2.1⟩
          intro event member
          have expected := (legal.2.2 event member).expected steady.orderly
          exact ⟨expected.allocated, expected.registered, expected.readable, expected.writable⟩
        next => exact steady
    | event calls =>
        dsimp only
        split
        next => exact steady
        next p ready rest batch =>
          have expected : ∀ event ∈ (p, ready) :: rest, Expected { r with batch := rest } event := by
            rw [← batch]
            intro event member
            have was := steady.expected event member
            exact ⟨was.allocated, was.registered, was.readable, was.writable⟩
          have distinct := steady.distinct
          rw [batch, List.map_cons, List.nodup_cons] at distinct
          have orderly : Orderly none { r with batch := rest } :=
            steady.orderly.withBatch r.waiting rest
          have kept := @dispatchEvent_proceeds conf { r with batch := rest } p ready calls
          have now := expected _ List.mem_cons_self
          refine ⟨dispatchEvent_orderly orderly now modifies, ?_, ?_⟩
          · intro event member
            rw [kept.batch] at member
            have inside : event ∈ rest := member
            apply Expected.later orderly now modifies
              (expected event (List.mem_cons_of_mem _ inside))
            intro same
            rw [← same] at distinct
            exact distinct.1 (List.mem_map.mpr ⟨event, inside, rfl⟩)
          · rw [kept.batch]
            exact distinct.2
    | finish sys now =>
        dsimp only
        split
        next idle =>
          obtain ⟨conns, pend, linked⟩ := steady.orderly.consistent.lists
          obtain ⟨ahead, sweeps, _⟩ := sweepTimeouts_sweeps steady.orderly.consistent linked sys now
          have swept := sweeps.swept ahead
          have nothing : (r.sweepTimeouts sys now).batch = [] := swept.batch.trans idle.2
          refine ⟨(sweeps.orderly steady.orderly).drainPendingFree.withBatch true _, ?_, ?_⟩
          · intro event member
            have inside : event ∈ (r.sweepTimeouts sys now).batch := member
            rw [nothing] at inside
            exact absurd inside List.not_mem_nil
          · show ((r.sweepTimeouts sys now).batch.map Prod.fst).Nodup
            rw [nothing]
            exact List.nodup_nil
        next => exact steady
    | outside files =>
        refine ⟨steady.orderly.withStore _, ?_, steady.distinct⟩
        intro event member
        have was := steady.expected event member
        exact ⟨was.allocated, was.registered, was.readable, was.writable⟩

theorem start_steady (st : Store) (now : Int) : Steady (start st now) := by
  have kind : ∀ p, ((start st now).heap p).kind = .listener := fun _ => rfl
  refine ⟨⟨(start_tidy st now).consistent, ?_, ?_, fun _ => Nat.zero_le 1, ?_, fun _ _ => rfl, rfl,
    rfl⟩, ?_, List.nodup_nil⟩
  · intro c _ hash
    rw [kind] at hash
    contradiction
  · intro p _ _ client
    rw [kind] at client
    contradiction
  · intro p counted
    exact absurd rfl counted
  · intro event member
    exact absurd member List.not_mem_nil

theorem run_steady {st : Store} {now : Int} {steps : List Step}
    (legal : Along Legal (step conf) (start st now) steps) (modifies : ∀ s ∈ steps, s.Modifies) :
    Steady (run (step conf) (start st now) steps) := by
  have both := legal.and (@along_of_forall _ _ (fun _ s => Step.Modifies s) _ _ _
    fun s member _ => modifies s member)
  apply run_invariant (motive := Steady) _ (start_steady st now) both
  intro r s steady allowed
  exact step_steady steady allowed.1 allowed.2

/-! ## One response -/

/-- Where a connection can stand once its request was parsed. -/
inductive Stage where
  | receiving
  | hashing
  | sending
  | closed

def Stage.Holds (r : Reactor) (p : Ptr) : Stage → Prop
  | .receiving =>
      r.Live p ∧ (r.heap p).state = .recvBody ∧ (r.heap p).upReceived < (r.heap p).upExpect
  | .hashing =>
      r.Live p ∧ (r.heap p).state = .hashing ∧
        ∃ c, (r.heap p).child = some c ∧ r.Live c ∧ (r.heap c).kind = .hashChild
  | .sending => r.Live p ∧ (r.heap p).state.Sends
  | .closed => ¬r.Live p

/-- The request of a connection was parsed: it does not wait for one any more, or its
buffer holds one. -/
def Requested (r : Reactor) (p : Ptr) : Prop :=
  (r.heap p).state ≠ .readRequest ∨ ∃ req, httpConnTryParse (r.heap p).http = .complete req

theorem Stage.holds_unique {stage other : Stage} (here : stage.Holds r p)
    (there : other.Holds r p) : stage = other := by
  have states : ∀ {state : ConnPhase}, state.Sends → state ≠ .recvBody ∧ state ≠ .hashing := by
    intro state sends
    rcases sends with header | body
    · rw [header]
      exact ⟨ConnPhase.noConfusion, ConnPhase.noConfusion⟩
    · rw [body]
      exact ⟨ConnPhase.noConfusion, ConnPhase.noConfusion⟩
  cases stage <;> cases other <;> try rfl
  all_goals first
    | exact absurd here.1 there
    | exact absurd there.1 here
    | exact ConnPhase.noConfusion (here.2.1.symm.trans there.2.1)
    | exact absurd here.2.1 (states there.2).1
    | exact absurd here.2.1 (states there.2).2
    | exact absurd there.2.1 (states here.2).1
    | exact absurd there.2.1 (states here.2).2

theorem Steady.stage (steady : Steady r)
    (requested : r.Live p → (r.heap p).kind = .client ∧ Requested r p) :
    ∃ stage, Stage.Holds r p stage := by
  by_cases alive : r.Live p
  · obtain ⟨client, parsed⟩ := requested alive
    cases steady.orderly.settled p (Option.some_ne_none p).symm alive client with
    | receives state _ _ _ waits =>
        have receiving : (r.heap p).state = .recvBody := by
          rcases state with requesting | receiving
          · rcases parsed with other | ⟨req, complete⟩
            · exact absurd requesting other
            · refine absurd complete (waits.2 ?_ req)
              rw [requesting]
              exact ConnPhase.noConfusion
          · exact receiving
        exact ⟨.receiving, alive, receiving, waits.1 receiving⟩
    | @hashes state _ _ c child _ =>
        obtain ⟨_, childLive, hash, _⟩ := steady.orderly.consistent.child p c alive child
        exact ⟨.hashing, alive, state, c, child, childLive, hash⟩
    | sends state _ _ _ => exact ⟨.sending, alive, state⟩
  · exact ⟨.closed, alive⟩

/-- One response on a connection: while registrations can be changed, a response is begun
at most once, the connection then sends it until it is closed, and a connection whose
request was parsed stands in exactly one stage. -/
theorem one_response (conf : Conf) (st : Store) (now : Int) (steps : List Step)
    (legal : Along Legal (step conf) (start st now) steps) (modifies : ∀ s ∈ steps, s.Modifies) :
    let r := run (step conf) (start st now) steps
    (∀ p, r.log.begun p ≤ 1) ∧
      (∀ p, r.log.begun p ≠ 0 → r.Live p → (r.heap p).kind = .client ∧ (r.heap p).state.Sends) ∧
      ∀ p, (r.Live p → (r.heap p).kind = .client ∧ Requested r p) →
        ∃! stage, Stage.Holds r p stage := by
  have steady := run_steady legal modifies
  generalize run (step conf) (start st now) steps = r at steady
  refine ⟨steady.orderly.begunOnce, ?_, ?_⟩
  · intro p begun alive
    have client := (steady.orderly.begunBy p begun).2 alive
    refine ⟨client, ?_⟩
    cases steady.orderly.settled p (Option.some_ne_none p).symm alive client with
    | receives _ _ unbegun _ _ => exact absurd unbegun begun
    | hashes _ _ unbegun _ _ => exact absurd unbegun begun
    | sends state _ _ _ => exact state
  · intro p requested
    obtain ⟨stage, holds⟩ := steady.stage requested
    exact ⟨stage, holds, fun other there => Stage.holds_unique there holds⟩

/-! ## Records and lists -/

theorem Linked.counts {conns pend : List Ptr} (linked : r.Linked conns pend) (p : Ptr) :
    (r.Live p → conns.count p = 1 ∧ pend.count p = 0) ∧
      (r.Closed p → pend.count p = 1 ∧ conns.count p = 0) := by
  constructor
  · intro alive
    have member := (linked.live p).mpr alive
    exact ⟨List.count_eq_one_of_mem linked.nodup member,
      List.count_eq_zero_of_not_mem (linked.disjoint member)⟩
  · intro closed
    have member := (linked.closed p).mpr closed
    refine ⟨List.count_eq_one_of_mem linked.distinct member, List.count_eq_zero_of_not_mem ?_⟩
    intro onConns
    exact linked.disjoint onConns member

/-- A hash child and its owner name each other. -/
theorem Orderly.paired_iff (orderly : Orderly none r) {c o : Ptr} (child : r.allocated c = true)
    (owner : r.allocated o = true) (hash : (r.heap c).kind = .hashChild) :
    ((r.heap c).owner = some o ↔ (r.heap o).child = some c) ∧
      ((r.heap c).owner = some o → r.Live c ∧ r.Live o) := by
  have alive := live_of_kind child hash ConnKind.noConfusion
  obtain ⟨keeper, keeps, keeperLive, has⟩ := orderly.paired c alive hash
  have same : ∀ {other}, (r.heap c).owner = some other → keeper = other := by
    intro other owned
    exact Option.some.inj (keeps.symm.trans owned)
  refine ⟨⟨?_, ?_⟩, ?_⟩
  · intro owned
    rw [← same owned]
    exact has
  · intro hasChild
    have open' : r.Live o := by
      refine ⟨owner, fun dead => ?_⟩
      rw [orderly.closed o dead] at hasChild
      contradiction
    exact (orderly.consistent.child o c open' hasChild).2.2.2.1
  · intro owned
    rw [← same owned]
    exact ⟨alive, keeperLive⟩

/-- The bookkeeping of the records: while registrations can be changed, every open record
is on `g_conns` once, every closed one on the pending-free list once, and on no other
list; hash children and owners name each other; no event came to a freed record, and none
acted on a closed one. -/
theorem bookkeeping_consistent (conf : Conf) (st : Store) (now : Int) (steps : List Step)
    (legal : Along Legal (step conf) (start st now) steps) (modifies : ∀ s ∈ steps, s.Modifies) :
    let r := run (step conf) (start st now) steps
    (∃ conns pend, Chain r.links r.conns conns ∧ Chain r.links r.pendingFree pend ∧
        ∀ p, (r.Live p → conns.count p = 1 ∧ pend.count p = 0) ∧
          (r.Closed p → pend.count p = 1 ∧ conns.count p = 0)) ∧
      (∀ c o, r.allocated c = true → r.allocated o = true → (r.heap c).kind = .hashChild →
        ((r.heap c).owner = some o ↔ (r.heap o).child = some c) ∧
          ((r.heap c).owner = some o → r.Live c ∧ r.Live o)) ∧
      r.log.fault = false ∧ r.log.strayed = false := by
  have orderly := (run_steady legal modifies).orderly
  generalize run (step conf) (start st now) steps = r at orderly
  obtain ⟨conns, pend, linked⟩ := orderly.consistent.lists
  refine ⟨⟨conns, pend, linked.connsChain, linked.pendChain, linked.counts⟩, ?_, orderly.sound⟩
  intro c o child owner hash
  exact orderly.paired_iff child owner hash

end Runs

end Reactor

/-! ### Requests on the first connection -/

/-- The first client sends something and the loop comes round. -/
def Step.sent (a : CallResults) (bytes : Bytes) : List Step :=
  [.wait [(1, .input)],
    .event { EventCalls.answered a with reads := [(.data bytes true, a)] },
    .finish (Sys.succeeding fun _ => none) 0]

def fetchBytes : Bytes := ascii "GET /x HTTP/1.1\r\n\r\n"

/-- An upload of one byte that comes with its header block. -/
def uploadBytes : Bytes :=
  ascii "PUT /a-1-1.tar.gz HTTP/1.1\r\nContent-Length: 1\r\nX-Cix-Sha256: " ++
    ascii "ca978112ca1bbdcafac231b39a23dc4da786eff8147c4e72b9807785afee48bb" ++
      ascii "\r\n\r\na"

/-- The run of an empty store in which the first client sends this, piece by piece. -/
def Reactor.receiving (pieces : List (CallResults × Bytes)) : List Step :=
  Step.acceptedClient ++ pieces.flatMap fun piece => Step.sent piece.1 piece.2

/-- What a run of an empty store leaves. -/
def Reactor.after (steps : List Step) : Reactor :=
  run (step Conf.sample) (start (Store.holding [] []) 0) steps

theorem Reactor.after_eq (steps : List Step) :
    run (step Conf.sample) (start (Store.holding [] []) 0) steps = Reactor.after steps :=
  rfl

def fetched : List Step := Reactor.receiving [(.succeeding 0, fetchBytes)]

def uploaded : List Step := Reactor.receiving [(.succeeding 0, uploadBytes)]

theorem fetched_begun : (Reactor.after fetched).log.begun 1 ≠ 0 ∧ (Reactor.after fetched).Live 1 := by
  decide +kernel

/-- The response is begun and is being sent. -/
theorem fetch_answered_once :
    ((Reactor.after fetched).heap 1).kind = .client ∧
      ((Reactor.after fetched).heap 1).state.Sends := by
  have once := Reactor.one_response Conf.sample (Store.holding [] []) 0 fetched
    (by decide +kernel) (by decide +kernel)
  rw [Reactor.after_eq] at once
  exact once.2.1 1 fetched_begun.1 fetched_begun.2

theorem uploaded_records :
    (Reactor.after uploaded).Live 2 ∧ (Reactor.after uploaded).allocated 1 = true ∧
      ((Reactor.after uploaded).heap 2).kind = .hashChild ∧
        ((Reactor.after uploaded).heap 2).owner = some 1 := by
  decide +kernel

/-- The upload waits for its hash child, and the two name each other. -/
theorem upload_paired :
    ((Reactor.after uploaded).heap 1).child = some 2 ∧ (Reactor.after uploaded).Live 2 := by
  obtain ⟨live, allocated, hash, owned⟩ := uploaded_records
  have consistent := Reactor.bookkeeping_consistent Conf.sample (Store.holding [] []) 0 uploaded
    (by decide +kernel) (by decide +kernel)
  rw [Reactor.after_eq] at consistent
  exact ⟨(consistent.2.1 2 1 live.1 allocated hash).1.mp owned, live⟩

/-! ### A registration that could not be changed -/

/-- Every call but EPOLL_CTL_MOD succeeds. -/
def CallResults.unmodified : CallResults :=
  { CallResults.succeeding 0 with modifies := fun _ => false }

/-- A request, and one more byte. -/
def answeredAgain : List Step := Reactor.receiving [(.unmodified, fetchBytes), (.unmodified, [10])]

/-- An upload, and one more byte. -/
def hashedAgain : List Step := Reactor.receiving [(.unmodified, uploadBytes), (.unmodified, [10])]

/-- The byte is read as another request: the same buffer is parsed, dispatched and
answered again. -/
theorem unmodified_answered_twice :
    Along Reactor.Legal (Reactor.step Conf.sample) (Reactor.start (Store.holding [] []) 0)
        answeredAgain ∧
      (Reactor.after answeredAgain).log.begun 1 = 2 := by
  decide +kernel

/-- The upload is begun again: the first hash child keeps an owner that has another. -/
theorem unmodified_child_replaced :
    Along Reactor.Legal (Reactor.step Conf.sample) (Reactor.start (Store.holding [] []) 0)
        hashedAgain ∧
      (Reactor.after hashedAgain).Live 2 ∧
        ((Reactor.after hashedAgain).heap 2).kind = .hashChild ∧
          ((Reactor.after hashedAgain).heap 2).owner = some 1 ∧
            ((Reactor.after hashedAgain).heap 1).child = some 3 := by
  decide +kernel

end CixCache
