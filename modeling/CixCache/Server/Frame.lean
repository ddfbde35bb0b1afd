import CixCache.Server.Sweep

/-!
Contract: what an event on one record leaves alone.

Owns: `Frame`, that records which were there keep their fields and their registration if
they stay open, and that every handler and every event has it but for the record of the
event and its owner.

Does not own: what an event does to these.
-/

namespace CixCache

open CixCache.Lib

namespace Reactor

/-- No record is freed or opened again, and every one but the touched stays as it was or
is closed. -/
structure Frame (touched : List Ptr) (r after : Reactor) : Prop where
  allocated : ∀ q, r.allocated q = true → after.allocated q = true
  kept : ∀ q, r.allocated q = true → after.Live q →
    r.Live q ∧ (after.heap q).kind = (r.heap q).kind
  others : ∀ q, q ∉ touched → r.allocated q = true → after.Live q →
    (∃ link, after.heap q = (r.heap q).linkTo link) ∧ after.interest q = r.interest q

section Frame

variable {r mid after : Reactor} {p q c o : Ptr} {sys : Sys} {a : CallResults} {pid : Nat}
  {conf : Conf} {touched more : List Ptr}

theorem Frame.refl (touched : List Ptr) (r : Reactor) : Frame touched r r :=
  ⟨fun _ => id, fun _ _ alive => ⟨alive, rfl⟩, fun q _ _ _ => ⟨⟨(r.heap q).next, rfl⟩, rfl⟩⟩

theorem Frame.trans (first : Frame touched r mid) (second : Frame touched mid after) :
    Frame touched r after where
  allocated q found := second.allocated q (first.allocated q found)
  kept q found alive := by
    obtain ⟨was, kind⟩ := second.kept q (first.allocated q found) alive
    obtain ⟨before, firstKind⟩ := first.kept q found was
    exact ⟨before, kind.trans firstKind⟩
  others q outside found alive := by
    have middle := first.allocated q found
    obtain ⟨⟨link, same⟩, interest⟩ := second.others q outside middle alive
    obtain ⟨⟨firstLink, firstSame⟩, firstInterest⟩ :=
      first.others q outside found (second.kept q middle alive).1
    refine ⟨⟨link, ?_⟩, interest.trans firstInterest⟩
    rw [same, firstSame]
    rfl

theorem Frame.mono (frame : Frame touched r after) (inside : ∀ q ∈ touched, q ∈ more) :
    Frame more r after :=
  ⟨frame.allocated, frame.kept, fun q outside =>
    frame.others q fun member => outside (inside q member)⟩

/-- Assignments to the touched record, and whatever is not a record. -/
theorem frame_of_heap (others : ∀ q, q ≠ p → after.heap q = r.heap q)
    (kind : (after.heap p).kind = (r.heap p).kind) (allocated : after.allocated = r.allocated)
    (interest : ∀ q, q ≠ p → after.interest q = r.interest q) : Frame [p] r after where
  allocated q found := by
    rw [allocated]
    exact found
  kept q _ alive := by
    have same : (after.heap q).kind = (r.heap q).kind := by
      by_cases here : q = p
      · rw [here, kind]
      · rw [others q here]
    rw [Live, same, allocated] at alive
    exact ⟨alive, same⟩
  others q outside _ _ := by
    have different : q ≠ p := fun same => outside (List.mem_singleton.mpr same)
    exact ⟨⟨_, others q different⟩, interest q different⟩

theorem Local.frame (change : Local p r after) : Frame [p] r after :=
  frame_of_heap change.others change.kind change.allocated fun q _ => congrFun change.interest q

theorem Stages.frame (staged : Stages p r after) : Frame [p] r after :=
  frame_of_heap staged.others staged.kind staged.allocated fun q _ => congrFun staged.interest q

/-- A record at a new address. -/
theorem frame_of_fresh (consistent : Consistent r)
    (others : ∀ q, q ≠ p → q ≠ r.fresh → after.heap q = r.heap q)
    (kind : p ≠ r.fresh → (after.heap p).kind = (r.heap p).kind)
    (allocated : ∀ q, q ≠ r.fresh → after.allocated q = r.allocated q)
    (interest : ∀ q, q ≠ p → q ≠ r.fresh → after.interest q = r.interest q) :
    Frame [p] r after where
  allocated q found := by
    rw [allocated q (Nat.ne_of_lt (consistent.allocated_lt found))]
    exact found
  kept q found alive := by
    have old := Nat.ne_of_lt (consistent.allocated_lt found)
    have same : (after.heap q).kind = (r.heap q).kind := by
      by_cases here : q = p
      · rw [here] at old ⊢
        exact kind old
      · rw [others q here old]
    rw [Live, same, allocated q old] at alive
    exact ⟨alive, same⟩
  others q outside found _ := by
    have different : q ≠ p := fun same => outside (List.mem_singleton.mpr same)
    have old := Nat.ne_of_lt (consistent.allocated_lt found)
    exact ⟨⟨_, others q different old⟩, interest q different old⟩

/-! ## Registrations -/

theorem epollSet_of_ne {events : Interest} (different : q ≠ p) :
    (r.epollSet a p events).interest q = r.interest q := by
  unfold epollSet
  split
  next => exact Function.update_of_ne different _ _
  next => rfl

theorem epollSet_fields (r : Reactor) (a : CallResults) (p : Ptr) (events : Interest) :
    (r.epollSet a p events).allocated = r.allocated ∧
      (r.epollSet a p events).fresh = r.fresh := by
  unfold epollSet
  split <;> exact ⟨rfl, rfl⟩

theorem watchImporter_interest (different : q ≠ r.fresh) :
    (r.watchImporter a pid).interest q = r.interest q := by
  rw [watchImporter_eq]
  show (if _ then _ else _ : Ptr → Option Interest) q = _
  split
  next => exact Function.update_of_ne different _ _
  next => rfl

theorem linkHashChild_interest (different : q ≠ p) :
    (r.linkHashChild a p pid).interest q = r.interest q := by
  unfold linkHashChild epollSet
  split
  next => exact Function.update_of_ne different _ _
  next => rfl

/-! ## Handlers -/

theorem watchImporter_frame (consistent : Consistent r) (a : CallResults) (pid : Nat) :
    Frame [p] r (r.watchImporter a pid) := by
  apply frame_of_fresh consistent (fun q _ old => watchImporter_of_ne old)
  · intro old
    rw [watchImporter_of_ne old]
  · intro q old
    rw [watchImporter_eq]
    exact Function.update_of_ne old _ _
  · intro q _ old
    exact watchImporter_interest old

theorem linkHashChild_frame (consistent : Consistent r) (a : CallResults) (p : Ptr) (pid : Nat) :
    Frame [p] r (r.linkHashChild a p pid) := by
  apply frame_of_fresh consistent
  · intro q different old
    rw [linkHashChild_heap, pairHashChild_of_ne different old]
  · intro old
    rw [linkHashChild_heap, pairHashChild_self old]
    rfl
  · intro q old
    have allocated : (r.linkHashChild a p pid).allocated = (r.pairHashChild a p pid).allocated := by
      unfold linkHashChild epollSet
      split <;> rfl
    rw [allocated]
    exact Function.update_of_ne old _ _
  · intro q different _
    exact linkHashChild_interest different

/-- Closing a record without an owner touches no other record that stays. -/
theorem Removed.frame {doomed : List Ptr} (removed : Removed r sys p doomed after) :
    Frame [] r after where
  allocated q found := by
    rw [removed.allocated]
    exact found
  kept q _ alive := by
    obtain ⟨was, outside⟩ := removed.live.mp alive
    obtain ⟨link, same⟩ := removed.others q outside
    rw [same]
    exact ⟨was, rfl⟩
  others q _ _ alive := by
    obtain ⟨was, outside⟩ := removed.live.mp alive
    refine ⟨removed.others q outside, ?_⟩
    rw [removed.interest, if_neg outside]

theorem connClose_frame (consistent : Consistent r)
    (valid : r.Live p ∧ (r.heap p).owner = none ∨ (r.heap p).kind = .dead) (sys : Sys) :
    Frame touched r (r.connClose sys p) := by
  rcases valid with ⟨alive, ownerless⟩ | dead
  · exact (connClose_removed consistent alive ownerless).frame.mono fun _ none =>
      absurd none List.not_mem_nil
  · rw [connClose_dead dead]
    exact Frame.refl touched r

theorem sendHeader_frame (r : Reactor) (a : CallResults) (p : Ptr) (text : Bytes) :
    Frame [p] r (r.sendHeader a p text) := by
  apply frame_of_heap (fun q different => sendHeader_of_ne different)
  · rw [sendHeader_self]
    rfl
  · exact (epollSet_fields _ a p _).1
  · intro q different
    exact epollSet_of_ne different

theorem Responds.frame (consistent : Consistent r) (client : r.Live p → (r.heap p).kind = .client)
    (old : r.Live p ∨ (r.heap p).kind = .dead) (answered : Responds a p r after) :
    Frame [p] r after := by
  cases answered with
  | sends change text => exact change.frame.trans (sendHeader_frame _ a p text)
  | closes change =>
      have changed := change.consistent consistent client
      refine change.frame.trans (connClose_frame changed ?_ a.sys)
      rcases old with alive | dead
      · have still := change.live.mpr alive
        refine Or.inl ⟨still, changed.client_ownerless still ?_⟩
        rw [change.kind]
        exact client alive
      · rw [change.kind]
        exact Or.inr dead

theorem Handles.frame {allowed : CallResults → Prop} {settled : Prop}
    (handled : Handles allowed settled p r after) (serving : Serving p r) :
    Frame [p] r after := by
  induction handled with
  | done => exact Frame.refl _ _
  | changes change _ inductionHypothesis =>
      exact change.frame.trans (inductionHypothesis (change.serving serving))
  | stages staged _ inductionHypothesis =>
      exact staged.frame.trans (inductionHypothesis (staged.serving serving))
  | reaps _ inductionHypothesis =>
      have later := inductionHypothesis ((serving.withLog _).withLog _)
      exact ⟨later.allocated, later.kept, later.others⟩
  | untracked a _ _ _ inductionHypothesis =>
      have later := inductionHypothesis (serving.withLog _)
      exact ⟨later.allocated, later.kept, later.others⟩
  | @imports r _ a _ _ _ inductionHypothesis =>
      have forked : Serving p r.forkImporter := serving.withLog _
      have later := (watchImporter_frame forked.consistent a r.log.nextPid).trans
        (inductionHypothesis (forked.watchImporter a _))
      exact ⟨later.allocated, later.kept, later.others⟩
  | @hashes r a _ _ _ =>
      have forked : Serving p r.forkHasher := serving.withLog _
      have linked := linkHashChild_frame forked.consistent a p r.log.nextPid
      refine ⟨linked.allocated, linked.kept, ?_⟩
      intro q outside found alive
      obtain ⟨same, interest⟩ := linked.others q outside found alive
      refine ⟨same, .trans ?_ interest⟩
      exact Function.update_of_ne (Nat.ne_of_lt (serving.consistent.allocated_lt found)) _ _
  | @unwatched r _ a _ _ _ answered =>
      have forked : Serving p r.forkHasher := serving.withLog _
      have linked := linkHashChild_frame forked.consistent a p r.log.nextPid
      have later := forked.linkHashChild a r.log.nextPid
      have answer := linked.trans (answered.frame later.consistent (fun _ => later.client)
        (Or.inl later.alive))
      exact ⟨answer.allocated, answer.kept, answer.others⟩
  | answers a _ answered =>
      exact answered.frame serving.consistent (fun _ => serving.client) (Or.inl serving.alive)

theorem reapHashChild_frame (r : Reactor) (p : Ptr) : Frame [p] r (r.reapHashChild p) := by
  apply frame_of_heap (fun q different => reapHashChild_of_ne different)
  · rw [reapHashChild_self]
    rfl
  · unfold reapHashChild
    split <;> rfl
  · intro q _
    unfold reapHashChild
    split <;> rfl

theorem finishUpload_frame (consistent : Consistent r)
    (client : r.Live p → (r.heap p).kind = .client) (old : r.Live p ∨ (r.heap p).kind = .dead)
    (a : CallResults) (output : Bytes) : Frame [p] r (r.finishUpload a p output) := by
  have reaped := consistent.reapHashChild p
  have stillClient : (r.reapHashChild p).Live p → ((r.reapHashChild p).heap p).kind = .client := by
    intro alive
    rw [reapHashChild_self]
    exact client (reapHashChild_live.mp alive)
  have stillOld : (r.reapHashChild p).Live p ∨ ((r.reapHashChild p).heap p).kind = .dead := by
    rw [reapHashChild_live, reapHashChild_self]
    exact old
  apply (r.reapHashChild_frame p).trans
  rcases finishUpload_cases r a p output with ⟨response, answered⟩ | ⟨digest, response, answered⟩
  · rw [answered]
    exact (respond_responds _ a p response).frame reaped stillClient stillOld
  · rw [answered]
    generalize (commitUpload _ _ _ _ digest).1 = done
    generalize r.reapHashChild p = waited at reaped stillClient stillOld
    have dropped := (reaped.withStore done).unstaged stillClient
    have unstaged : Frame [p] waited ((waited.withStore done).modify p Record.unstaged) :=
      frame_of_heap (fun q different => modify_of_ne _ _ different) (by rw [modify_self]; rfl) rfl
        fun _ _ => rfl
    apply unstaged.trans
    apply (respond_responds _ a p response).frame dropped
    · intro alive
      rw [modify_self]
      rw [Live, modify_self] at alive
      exact stillClient alive
    · rw [Live, modify_self]
      exact stillOld

theorem connNew_frame (consistent : Consistent r) (kind : ConnKind) (now : Int) :
    Frame [] r (r.connNew kind now) where
  allocated := (connNew_proceeds r kind now).allocated
  kept q found alive := by
    have old := Nat.ne_of_lt (consistent.allocated_lt found)
    rw [Live, connNew_of_ne old, connNew_allocated_of_ne old] at alive
    rw [connNew_of_ne old]
    exact ⟨alive, rfl⟩
  others q _ found _ := by
    have old := Nat.ne_of_lt (consistent.allocated_lt found)
    exact ⟨⟨_, connNew_of_ne old⟩, rfl⟩

theorem acceptLoop_frame {accepts : List Accepted} (consistent : Consistent r) :
    Frame [] r (acceptLoop accepts r) := by
  induction accepts generalizing r with
  | nil => exact Frame.refl _ r
  | cons accept rest inductionHypothesis =>
      cases accept with
      | tryAgain => exact Frame.refl _ r
      | failed => exact Frame.refl _ r
      | interrupted => exact inductionHypothesis consistent
      | accepted a =>
          have made := @Consistent.connNew _ consistent .client ConnKind.noConfusion a.now
          have frame := connNew_frame consistent .client a.now
          have alive : (r.connNew .client a.now).Live r.fresh :=
            (connNew_live ConnKind.noConfusion).mpr (Or.inl rfl)
          rw [acceptLoop]
          split
          next => exact inductionHypothesis consistent
          next =>
            dsimp only
            split
            next =>
              have watched : Frame [] r ((r.connNew .client a.now).epollAdd r.fresh .input) := by
                refine ⟨frame.allocated, frame.kept, fun q outside found live => ?_⟩
                refine ⟨(frame.others q outside found live).1, ?_⟩
                exact Function.update_of_ne (Nat.ne_of_lt (consistent.allocated_lt found)) _ _
              exact watched.trans (inductionHypothesis (made.epollAdd alive _))
            next =>
              have valid : (r.connNew .client a.now).Live r.fresh ∧
                  ((r.connNew .client a.now).heap r.fresh).owner = none := by
                refine ⟨alive, ?_⟩
                rw [connNew_self]
                rfl
              exact (frame.trans (connClose_frame made (Or.inl valid) a.sys)).trans
                (inductionHypothesis (made.connClose a.sys (Or.inl valid)))

/-! ## Events -/

theorem Serving.connClose_frame (serving : Serving p r) (sys : Sys) :
    Frame touched r (r.connClose sys p) :=
  Reactor.connClose_frame serving.consistent (Or.inl ⟨serving.alive,
    serving.consistent.client_ownerless serving.alive serving.client⟩) sys

theorem handleWrite_frame (serving : Serving p r) (sys : Sys) (now : Int)
    (answers : List Written) : Frame [p] r (handleWrite sys now p answers r) := by
  rcases handleWrite_local (r := r) (p := p) sys now answers with change | ⟨mid, change, closed⟩
  · exact change.frame
  · rw [closed]
    exact change.frame.trans ((change.serving serving).connClose_frame sys)

theorem withLog_frame (r : Reactor) (log : History) : Frame touched r (r.withLog log) :=
  ⟨fun _ => id, fun _ _ alive => ⟨alive, rfl⟩, fun q _ _ _ => ⟨⟨(r.heap q).next, rfl⟩, rfl⟩⟩

theorem clientEvent_frame (serving : Serving p r) (ready : Ready) (calls : EventCalls) :
    Frame [p] r (r.clientEvent conf p ready calls) := by
  unfold clientEvent
  dsimp only
  split
  next => exact serving.connClose_frame calls.answers.sys
  next =>
    generalize reading : (if ready.readable then handleRead conf p calls.reads (r.enter p) else r)
      = read
    have kept : Frame [p] r read ∧ Served p read := by
      rw [← reading]
      split
      next =>
        have handled := @handleRead_all p conf calls.reads (r.enter p)
        have entered : Serving p (r.enter p) := serving.withLog _
        exact ⟨(withLog_frame r _).trans (handled.frame entered), handled.served entered⟩
      next => exact ⟨Frame.refl _ r, serving.served⟩
    split
    next writing =>
      have client := kept.2.kind.resolve_right writing.1
      have still : Serving p read := ⟨kept.2.consistent,
        live_of_kind (kept.1.allocated p serving.alive.1) client ConnKind.noConfusion, client⟩
      exact (kept.1.trans (withLog_frame read _)).trans (handleWrite_frame (still.withLog _) _ _ _)
    next => exact kept.1

theorem Consistent.letGo_frame (consistent : Consistent r) (alive : r.Live c)
    (owned : (r.heap c).owner = some o) : Frame [c, o] r (r.letGo c o) where
  allocated _ := id
  kept q _ live := by
    have different := consistent.owner_ne alive owned
    refine ⟨(consistent.letGo_live alive owned).mp live, ?_⟩
    by_cases isChild : q = c
    · rw [isChild, letGo_child different]
      rfl
    · by_cases isOwner : q = o
      · rw [isOwner, letGo_owner different]
        rfl
      · rw [letGo_of_ne isChild isOwner]
  others q outside _ _ := by
    have notChild : q ≠ c := fun same => outside (by simp [same])
    have notOwner : q ≠ o := fun same => outside (by simp [same])
    exact ⟨⟨_, letGo_of_ne notChild notOwner⟩, rfl⟩

theorem hashChildEvent_frame (consistent : Consistent r) (alive : r.Live c) (a : CallResults)
    (output : Bytes) :
    Frame (c :: (r.heap c).owner.toList) r (r.hashChildEvent a c output) := by
  have ends := r.hashChildEvent_ends a c output
  generalize r.hashChildEvent a c output = after at ends ⊢
  cases ends with
  | alone ownerless => exact connClose_frame consistent (Or.inl ⟨alive, ownerless⟩) a.sys
  | @finishes o owned =>
      rw [owned]
      have orphan := consistent.orphan alive owned a.sys
      have closed := (consistent.letGo_removed alive owned a.sys).frame
      have finished := finishUpload_frame orphan.consistent orphan.client orphan.old a output
      exact ((consistent.letGo_frame alive owned).trans (closed.mono fun _ none => absurd none List.not_mem_nil)).trans
        (finished.mono fun q member => List.mem_cons_of_mem _ member)

theorem importChildEvent_frame (consistent : Consistent r) (alive : r.Live c)
    (importer : (r.heap c).kind = .importChild) (sys : Sys) :
    Frame touched r (r.importChildEvent sys c) := by
  have reaped : Consistent (r.reapImporter c) := (consistent.withLog _).withImportRunning _
  have waited : Frame touched r (r.reapImporter c) :=
    ⟨fun _ => id, fun _ _ alive => ⟨alive, rfl⟩, fun q _ _ _ => ⟨⟨(r.heap q).next, rfl⟩, rfl⟩⟩
  rw [importChildEvent_eq]
  refine waited.trans (connClose_frame reaped (Or.inl ⟨alive, reaped.ownerless alive ?_⟩) sys)
  show (r.heap c).kind ≠ .hashChild
  rw [importer]
  exact ConnKind.noConfusion

/-- Whatever an event does, it does to its record and the owner of that. -/
theorem dispatchEvent_frame (consistent : Consistent r) (allocated : r.allocated p = true)
    (ready : Ready) (calls : EventCalls) :
    Frame (p :: (r.heap p).owner.toList) r (dispatchEvent conf r p ready calls) := by
  have only : ∀ q ∈ [p], q ∈ p :: (r.heap p).owner.toList := by
    intro q member
    rw [List.mem_singleton.mp member]
    exact List.mem_cons_self
  unfold dispatchEvent
  rw [touch_of_allocated allocated]
  dsimp only
  split
  next => exact Frame.refl _ r
  next =>
    have entered : Consistent (r.enter p) := consistent.withLog _
    exact (withLog_frame r _).trans ((acceptLoop_frame entered).mono fun _ none =>
      absurd none List.not_mem_nil)
  next kind =>
    exact hashChildEvent_frame consistent (live_of_kind allocated kind ConnKind.noConfusion) _ _
  next kind =>
    exact importChildEvent_frame consistent (live_of_kind allocated kind ConnKind.noConfusion)
      kind _
  next kind =>
    have serving : Serving p r :=
      ⟨consistent, live_of_kind allocated kind ConnKind.noConfusion, kind⟩
    exact (clientEvent_frame serving ready calls).mono only

end Frame

end Reactor

end CixCache
