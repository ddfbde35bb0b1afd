import CixCache.Server.Consistency
import CixCache.Server.Reactor

/-!
Contract: the loop of the reactor keeps its records consistent, and its sweep closes
what is overdue.

Owns: that every event, the sweep and every step keep `Consistent`, and so every run from
the start; `Sweeps`, the closings of `sweep_timeouts` one by one; which records it closes
and which links it follows.

Does not own: what holds only while registrations succeed.
-/

namespace CixCache

open CixCache.Lib

namespace Reactor

section Events

variable {r after : Reactor} {p q c o : Ptr} {sys : Sys} {a : CallResults} {pid : Nat}
  {conf : Conf}

/-! ## Events -/

/-- What no event takes back. -/
structure Proceeds (r after : Reactor) : Prop where
  batch : after.batch = r.batch
  waiting : after.waiting = r.waiting
  allocated : ∀ q, r.allocated q = true → after.allocated q = true

theorem Proceeds.refl (r : Reactor) : Proceeds r r := ⟨rfl, rfl, fun _ => id⟩

theorem Proceeds.trans {mid : Reactor} (first : Proceeds r mid) (second : Proceeds mid after) :
    Proceeds r after where
  batch := second.batch.trans first.batch
  waiting := second.waiting.trans first.waiting
  allocated q found := second.allocated q (first.allocated q found)

/-- Closing frees nothing yet. -/
theorem connCloseWithin_proceeds (sys : Sys) (bound : Nat) (p : Ptr) (r : Reactor) :
    Proceeds r (connCloseWithin sys bound p r) := by
  induction bound generalizing p r with
  | zero => exact Proceeds.refl r
  | succ bound inductionHypothesis =>
      rw [connCloseWithin]
      split
      next => exact Proceeds.refl r
      next =>
        dsimp only
        cases ((r.release sys p).heap p).child with
        | none =>
            dsimp only
            split <;> exact ⟨rfl, rfl, fun _ => id⟩
        | some child =>
            dsimp only
            have closed := inductionHypothesis child
              (((r.release sys p).touch child).modify child fun cc => cc.ownedBy none)
            split <;> exact ⟨closed.batch, closed.waiting, closed.allocated⟩

theorem epollSet_proceeds (r : Reactor) (a : CallResults) (p : Ptr) (events : Interest) :
    Proceeds r (r.epollSet a p events) := by
  unfold epollSet
  split <;> exact ⟨rfl, rfl, fun _ => id⟩

theorem Local.proceeds (change : Local p r after) : Proceeds r after where
  batch := change.batch
  waiting := change.waiting
  allocated q found := by
    rw [change.allocated]
    exact found

theorem Stages.proceeds (staged : Stages p r after) : Proceeds r after where
  batch := staged.batch
  waiting := staged.waiting
  allocated q found := by
    rw [staged.allocated]
    exact found

theorem Responds.proceeds (answered : Responds a p r after) : Proceeds r after := by
  cases answered with
  | sends change text =>
      refine change.proceeds.trans (.trans ?_ (epollSet_proceeds _ a p _))
      exact ⟨rfl, rfl, fun _ => id⟩
  | closes change => exact change.proceeds.trans (connCloseWithin_proceeds a.sys _ p _)

theorem connNew_proceeds (r : Reactor) (kind : ConnKind) (now : Int) :
    Proceeds r (r.connNew kind now) where
  batch := rfl
  waiting := rfl
  allocated q found := by
    by_cases same : q = r.fresh
    · rw [same]
      exact connNew_allocated_self r kind now
    · rwa [connNew_allocated_of_ne same]

theorem linkHashChild_proceeds (r : Reactor) (a : CallResults) (p : Ptr) (pid : Nat) :
    Proceeds r (r.linkHashChild a p pid) := by
  refine (connNew_proceeds r .hashChild a.now).trans (.trans ?_ (epollSet_proceeds _ a p _))
  exact ⟨rfl, rfl, fun _ => id⟩

theorem watchImporter_proceeds (r : Reactor) (a : CallResults) (pid : Nat) :
    Proceeds r (r.watchImporter a pid) := by
  have made := connNew_proceeds r .importChild a.now
  rw [watchImporter_eq]
  exact ⟨made.batch, made.waiting, made.allocated⟩

theorem Handles.proceeds {allowed : CallResults → Prop} {settled : Prop}
    (handled : Handles allowed settled p r after) : Proceeds r after := by
  induction handled with
  | done => exact Proceeds.refl _
  | changes change _ inductionHypothesis => exact change.proceeds.trans inductionHypothesis
  | stages staged _ inductionHypothesis => exact staged.proceeds.trans inductionHypothesis
  | reaps _ inductionHypothesis =>
      exact ⟨inductionHypothesis.batch, inductionHypothesis.waiting, inductionHypothesis.allocated⟩
  | untracked _ _ _ _ inductionHypothesis =>
      exact ⟨inductionHypothesis.batch, inductionHypothesis.waiting, inductionHypothesis.allocated⟩
  | imports a _ _ _ inductionHypothesis =>
      have watched := (watchImporter_proceeds (forkImporter _) a _).trans inductionHypothesis
      exact ⟨watched.batch, watched.waiting, watched.allocated⟩
  | @hashes r a _ _ _ =>
      have linked := linkHashChild_proceeds r.forkHasher a p r.log.nextPid
      exact ⟨linked.batch, linked.waiting, linked.allocated⟩
  | @unwatched r _ a _ _ _ answered =>
      have linked := (linkHashChild_proceeds r.forkHasher a p r.log.nextPid).trans
        answered.proceeds
      exact ⟨linked.batch, linked.waiting, linked.allocated⟩
  | answers _ _ answered => exact answered.proceeds

theorem finishUpload_proceeds (r : Reactor) (a : CallResults) (p : Ptr) (output : Bytes) :
    Proceeds r (r.finishUpload a p output) := by
  have reaped : Proceeds r (r.reapHashChild p) := by
    unfold reapHashChild
    split <;> exact ⟨rfl, rfl, fun _ => id⟩
  rcases finishUpload_cases r a p output with ⟨response, answered⟩ | ⟨digest, response, answered⟩
  · rw [answered]
    exact reaped.trans (respond_responds _ a p response).proceeds
  · rw [answered]
    generalize (commitUpload _ _ _ _ digest).1 = done
    have dropped : Proceeds r (((r.reapHashChild p).withStore done).modify p Record.unstaged) :=
      ⟨reaped.batch, reaped.waiting, reaped.allocated⟩
    exact dropped.trans (respond_responds _ a p response).proceeds

theorem acceptLoop_proceeds (accepts : List Accepted) (r : Reactor) :
    Proceeds r (acceptLoop accepts r) := by
  induction accepts generalizing r with
  | nil => exact Proceeds.refl r
  | cons accept rest inductionHypothesis =>
      cases accept with
      | tryAgain => exact Proceeds.refl r
      | failed => exact Proceeds.refl r
      | interrupted => exact inductionHypothesis r
      | accepted a =>
          have made := connNew_proceeds r .client a.now
          rw [acceptLoop]
          split
          next => exact inductionHypothesis r
          next =>
            dsimp only
            split
            next =>
              have watched : Proceeds r ((r.connNew .client a.now).epollAdd r.fresh .input) :=
                ⟨made.batch, made.waiting, made.allocated⟩
              exact watched.trans (inductionHypothesis _)
            next =>
              exact (made.trans (connCloseWithin_proceeds a.sys _ _ _)).trans
                (inductionHypothesis _)

/-- A record that was registered and is not closed. -/
theorem live_of_kind {kind : ConnKind} (allocated : r.allocated p = true)
    (same : (r.heap p).kind = kind) (alive : kind ≠ .dead) : r.Live p := by
  refine ⟨allocated, ?_⟩
  rw [same]
  exact alive

theorem Consistent.handleWrite (serving : Serving p r) (sys : Sys) (now : Int)
    (answers : List Written) : Consistent (handleWrite sys now p answers r) := by
  rcases handleWrite_local (r := r) (p := p) sys now answers with change | ⟨mid, change, closed⟩
  · exact (change.serving serving).consistent
  · rw [closed]
    exact ((change.serving serving).connClose sys).consistent

theorem handleWrite_proceeds (sys : Sys) (now : Int) (p : Ptr) (answers : List Written)
    (r : Reactor) : Proceeds r (handleWrite sys now p answers r) := by
  rcases handleWrite_local (r := r) (p := p) sys now answers with change | ⟨mid, change, closed⟩
  · exact change.proceeds
  · rw [closed]
    exact change.proceeds.trans (connCloseWithin_proceeds sys _ p mid)

/-- The handling of what a client sent. -/
theorem handleRead_all (reads : List (ReadOutcome × CallResults)) (r : Reactor) :
    Handles (fun _ => True) False p r (handleRead conf p reads r) :=
  handleRead_handles (fun _ _ => trivial) False.elim

theorem clientEvent_proceeds (r : Reactor) (p : Ptr) (ready : Ready) (calls : EventCalls) :
    Proceeds r (r.clientEvent conf p ready calls) := by
  have entered : ∀ mid, Proceeds mid (mid.enter p) := fun mid => ⟨rfl, rfl, fun _ => id⟩
  unfold clientEvent
  dsimp only
  split
  next => exact connCloseWithin_proceeds _ _ p r
  next =>
    generalize reading : (if ready.readable then handleRead conf p calls.reads (r.enter p) else r)
      = read
    have kept : Proceeds r read := by
      rw [← reading]
      split
      next => exact (entered r).trans (handleRead_all calls.reads _).proceeds
      next => exact Proceeds.refl r
    split
    next => exact (kept.trans (entered read)).trans (handleWrite_proceeds _ _ p _ _)
    next => exact kept

/-- The event of a client. -/
theorem Consistent.clientEvent (serving : Serving p r) (ready : Ready) (calls : EventCalls) :
    Consistent (r.clientEvent conf p ready calls) := by
  unfold Reactor.clientEvent
  dsimp only
  split
  next => exact (serving.connClose calls.answers.sys).consistent
  next =>
    generalize reading : (if ready.readable then handleRead conf p calls.reads (r.enter p) else r)
      = read
    have served : Served p read ∧ read.allocated p = true := by
      rw [← reading]
      split
      next =>
        have handled := @handleRead_all p conf calls.reads (r.enter p)
        exact ⟨handled.served (serving.withLog _), handled.proceeds.allocated p serving.alive.1⟩
      next => exact ⟨serving.served, serving.alive.1⟩
    split
    next writing =>
      have client := served.1.kind.resolve_right writing.1
      have still : Serving p read :=
        ⟨served.1.consistent, live_of_kind served.2 client ConnKind.noConfusion, client⟩
      exact Consistent.handleWrite (still.withLog _) _ _ _
    next => exact served.1.consistent

theorem Consistent.live_or_dead (consistent : Consistent r) (small : p < r.fresh) :
    r.Live p ∨ (r.heap p).kind = .dead := by
  by_cases dead : (r.heap p).kind = .dead
  · exact Or.inr dead
  · refine Or.inl ⟨?_, dead⟩
    by_contra absent
    exact dead (consistent.gone p small (Bool.eq_false_iff.mpr absent))

/-- Only clients have a child. -/
theorem Consistent.childless (consistent : Consistent r) (alive : r.Live p)
    (other : (r.heap p).kind ≠ .client) : (r.heap p).child = none := by
  by_contra has
  obtain ⟨child, same⟩ := Option.ne_none_iff_exists'.mp has
  exact other (consistent.child p child alive same).1

theorem modify_unchanged {change : Record → Record} (same : change (r.heap p) = r.heap p) :
    r.modify p change = r := by
  unfold modify
  rw [same, Function.update_eq_self]

/-- A hash child and its owner let go of each other. -/
def letGo (r : Reactor) (c o : Ptr) : Reactor :=
  ((r.modify c fun cc => cc.ownedBy none).enter o).modify o Record.childless

theorem letGo_child (different : c ≠ o) : (r.letGo c o).heap c = (r.heap c).ownedBy none := by
  rw [letGo, modify_of_ne _ _ different, enter, withLog_heap, modify_self]

theorem letGo_owner (different : c ≠ o) : (r.letGo c o).heap o = (r.heap o).childless := by
  rw [letGo, modify_self, enter, withLog_heap, modify_of_ne _ _ different.symm]

theorem letGo_of_ne (notChild : q ≠ c) (notOwner : q ≠ o) : (r.letGo c o).heap q = r.heap q := by
  rw [letGo, modify_of_ne _ _ notOwner, enter, withLog_heap, modify_of_ne _ _ notChild]

/-- The end of a hash child. -/
inductive Ends (a : CallResults) (c : Ptr) (output : Bytes) (r : Reactor) : Reactor → Prop
  | alone (ownerless : (r.heap c).owner = none) : Ends a c output r (r.connClose a.sys c)
  | finishes {o : Ptr} (owned : (r.heap c).owner = some o) :
      Ends a c output r (((r.letGo c o).connClose a.sys c).finishUpload a o output)

theorem hashChildEvent_ends (r : Reactor) (a : CallResults) (c : Ptr) (output : Bytes) :
    Ends a c output r (r.hashChildEvent a c output) := by
  unfold hashChildEvent
  cases owned : (r.heap c).owner with
  | none =>
      have same : (r.modify c fun cc => cc.ownedBy none) = r := by
        apply modify_unchanged
        rw [Record.ownedBy, ← owned]
      dsimp only
      rw [same]
      exact .alone owned
  | some o => exact .finishes owned

section Owned

variable (consistent : Consistent r) (alive : r.Live c) (owned : (r.heap c).owner = some o)

include consistent alive owned

theorem Consistent.owner_ne : c ≠ o := Nat.ne_of_gt (consistent.owner c o alive owned).2.1

theorem Consistent.letGo : Consistent (r.letGo c o) :=
  (consistent.disown alive owned).withLog
    ((r.modify c fun cc => cc.ownedBy none).enter o).log

theorem Consistent.letGo_live : (r.letGo c o).Live q ↔ r.Live q := by
  have different := consistent.owner_ne alive owned
  rw [Live, Live]
  by_cases isChild : q = c
  · rw [isChild, letGo_child different]
    exact Iff.rfl
  · by_cases isOwner : q = o
    · rw [isOwner, letGo_owner different]
      exact Iff.rfl
    · rw [letGo_of_ne isChild isOwner]
      exact Iff.rfl

/-- Closing a hash child whose owner let it go. -/
theorem Consistent.letGo_removed (sys : Sys) :
    Removed (r.letGo c o) sys c [c] ((r.letGo c o).connClose sys c) := by
  have different := consistent.owner_ne alive owned
  have noChild : (r.heap c).child = none := by
    apply consistent.childless alive
    rw [(consistent.owner c o alive owned).1]
    exact ConnKind.noConfusion
  have removed := @connClose_removed _ sys _ (consistent.letGo alive owned)
    ((consistent.letGo_live alive owned).mpr alive) (by
      rw [letGo_child different]
      rfl)
  rw [letGo_child different] at removed
  have doomed : ((r.heap c).ownedBy none).child.toList ++ [c] = [c] := by
    show (r.heap c).child.toList ++ [c] = [c]
    rw [noChild]
    rfl
  rwa [doomed] at removed

/-- The owner of a hash child that is closed. -/
structure Orphan (r : Reactor) (o : Ptr) : Prop where
  consistent : Consistent r
  client : r.Live o → (r.heap o).kind = .client
  old : r.Live o ∨ (r.heap o).kind = .dead

theorem Consistent.orphan (sys : Sys) : Orphan ((r.letGo c o).connClose sys c) o := by
  obtain ⟨hash, older, client⟩ := consistent.owner c o alive owned
  have different := consistent.owner_ne alive owned
  have removed := consistent.letGo_removed alive owned sys
  obtain ⟨link, same⟩ := removed.others o fun member =>
    different (List.mem_singleton.mp member).symm
  have closed : Consistent ((r.letGo c o).connClose sys c) := by
    apply (consistent.letGo alive owned).connClose
    refine Or.inl ⟨(consistent.letGo_live alive owned).mpr alive, ?_⟩
    rw [letGo_child different]
    rfl
  refine ⟨closed, ?_, ?_⟩
  · intro ownerLive
    rw [same, letGo_owner different]
    exact client ((consistent.letGo_live alive owned).mp (removed.live.mp ownerLive).1)
  · apply closed.live_or_dead
    rw [removed.fresh]
    exact Nat.lt_trans older (consistent.allocated_lt alive.1)

end Owned

/-- The event of a hash child. -/
theorem Consistent.hashChildEvent (consistent : Consistent r) (alive : r.Live c)
    (a : CallResults) (output : Bytes) : Consistent (r.hashChildEvent a c output) := by
  have ends := r.hashChildEvent_ends a c output
  generalize r.hashChildEvent a c output = after at ends ⊢
  cases ends with
  | alone ownerless => exact consistent.connClose a.sys (Or.inl ⟨alive, ownerless⟩)
  | finishes owned =>
      have orphan := consistent.orphan alive owned a.sys
      exact orphan.consistent.finishUpload orphan.client orphan.old a output

/-- The importer a record watches was waited for. -/
def reapImporter (r : Reactor) (c : Ptr) : Reactor :=
  (r.withLog { r.log with waited := (r.heap c).childPid.toList ++ r.log.waited }).withImportRunning
    false

theorem importChildEvent_eq (r : Reactor) (sys : Sys) (c : Ptr) :
    r.importChildEvent sys c = (r.reapImporter c).connClose sys c := by
  unfold importChildEvent reapImporter
  cases (r.heap c).childPid <;> rfl

/-- The event of an importer. -/
theorem Consistent.importChildEvent (consistent : Consistent r) (alive : r.Live c)
    (importer : (r.heap c).kind = .importChild) (sys : Sys) :
    Consistent (r.importChildEvent sys c) := by
  have reaped : Consistent (r.reapImporter c) := (consistent.withLog _).withImportRunning _
  rw [importChildEvent_eq]
  refine reaped.connClose sys (Or.inl ⟨alive, reaped.ownerless alive ?_⟩)
  show (r.heap c).kind ≠ .hashChild
  rw [importer]
  exact ConnKind.noConfusion

/-- Every event keeps the records consistent, whatever the calls answer. -/
theorem Consistent.dispatchEvent (consistent : Consistent r) (allocated : r.allocated p = true)
    (ready : Ready) (calls : EventCalls) :
    Consistent (dispatchEvent conf r p ready calls) := by
  unfold Reactor.dispatchEvent
  rw [touch_of_allocated allocated]
  dsimp only
  split
  next => exact consistent
  next => exact acceptLoop_consistent (consistent.withLog _)
  next kind =>
    exact consistent.hashChildEvent (live_of_kind allocated kind ConnKind.noConfusion) _ _
  next kind =>
    exact consistent.importChildEvent (live_of_kind allocated kind ConnKind.noConfusion) kind _
  next kind =>
    have serving : Serving p r :=
      ⟨consistent, live_of_kind allocated kind ConnKind.noConfusion, kind⟩
    exact Consistent.clientEvent serving ready calls

theorem hashChildEvent_proceeds (r : Reactor) (a : CallResults) (c : Ptr) (output : Bytes) :
    Proceeds r (r.hashChildEvent a c output) := by
  have ends := r.hashChildEvent_ends a c output
  generalize r.hashChildEvent a c output = after at ends ⊢
  cases ends with
  | alone _ => exact connCloseWithin_proceeds a.sys _ c r
  | @finishes o _ =>
      have loose : Proceeds r (r.letGo c o) := ⟨rfl, rfl, fun _ => id⟩
      exact (loose.trans (connCloseWithin_proceeds a.sys _ c _)).trans
        (finishUpload_proceeds _ a o output)

theorem dispatchEvent_proceeds (r : Reactor) (p : Ptr) (ready : Ready) (calls : EventCalls) :
    Proceeds r (dispatchEvent conf r p ready calls) := by
  have touched : Proceeds r (r.touch p) := ⟨rfl, rfl, fun _ => id⟩
  unfold dispatchEvent
  dsimp only
  refine touched.trans ?_
  generalize r.touch p = r
  split
  next => exact Proceeds.refl r
  next =>
    have entered : Proceeds r (r.enter p) := ⟨rfl, rfl, fun _ => id⟩
    exact entered.trans (acceptLoop_proceeds _ _)
  next => exact hashChildEvent_proceeds _ _ _ _
  next =>
    unfold importChildEvent
    refine .trans ?_ (connCloseWithin_proceeds _ _ _ _)
    split <;> exact ⟨rfl, rfl, fun _ => id⟩
  next => exact clientEvent_proceeds _ _ _ _

end Events

/-! ## The sweep -/

/-- The closings of the sweep over a list of records, one by one. -/
inductive Sweeps (sys : Sys) (now : Int) : List Ptr → Reactor → Reactor → Prop
  | done {r : Reactor} : Sweeps sys now [] r r
  | spares {p : Ptr} {rest : List Ptr} {r after : Reactor} (fresh : ¬Stalled (r.heap p) now)
      (later : Sweeps sys now rest r after) : Sweeps sys now (p :: rest) r after
  | closes {p : Ptr} {rest : List Ptr} {r after : Reactor} (alive : r.Live p)
      (stalled : Stalled (r.heap p) now) (later : Sweeps sys now rest (r.connClose sys p) after) :
      Sweeps sys now (p :: rest) r after

section Sweep

variable {r after : Reactor} {sys : Sys} {now : Int} {p q : Ptr} {nodes rest : List Ptr}

/-- A record and its newer child leave the front of the list. -/
theorem diff_doomed {before : List Ptr} (sorted : (before ++ p :: rest).Pairwise (· > ·))
    {child : Option Ptr} (newer : ∀ c, child = some c → p < c) :
    ∃ less, (before ++ p :: rest).diff (child.toList ++ [p]) = less ++ rest := by
  have distinct : (before ++ p :: rest).Nodup := sorted.imp fun older => Nat.ne_of_gt older
  have outside : p ∉ before := by
    have middle := List.nodup_middle.mp distinct
    intro member
    exact (List.nodup_cons.mp middle).1 (List.mem_append_left _ member)
  have alone : ∀ less : List Ptr, p ∉ less → (less ++ p :: rest).diff [p] = less ++ rest := by
    intro less absent
    rw [List.diff_cons, List.diff_nil, List.erase_append_right _ absent, List.erase_cons_head]
  cases child with
  | none => exact ⟨before, alone before outside⟩
  | some c =>
      have notBehind : c ∉ p :: rest := by
        intro member
        have older := (List.pairwise_append.mp sorted).2.1
        rcases List.mem_cons.mp member with same | behind
        · exact Nat.lt_irrefl c (same ▸ newer c rfl)
        · have less := (List.pairwise_cons.mp older).1 c behind
          exact Nat.lt_asymm less (newer c rfl)
      have erased : (before ++ p :: rest).diff [c] = before.erase c ++ p :: rest := by
        rw [List.diff_cons, List.diff_nil]
        by_cases member : c ∈ before
        · exact List.erase_append_left _ member
        · rw [List.erase_of_not_mem member, List.erase_of_not_mem]
          intro inside
          exact (List.mem_append.mp inside).elim member notBehind
      refine ⟨before.erase c, ?_⟩
      rw [Option.toList_some, List.diff_append, erased]
      exact alone _ fun member => outside (List.mem_of_mem_erase member)

/-- Where the loop of the sweep stands: the records ahead are the end of `g_conns`. -/
structure Ahead (r : Reactor) (nodes : List Ptr) : Prop where
  consistent : Consistent r
  linked : ∃ before pend, r.Linked (before ++ nodes) pend

theorem Ahead.alive (ahead : Ahead r (p :: rest)) : r.Live p := by
  obtain ⟨before, pend, linked⟩ := ahead.linked
  exact (linked.live p).mp (by simp)

theorem Ahead.next_eq (ahead : Ahead r (p :: rest)) : (r.heap p).next = rest.head? := by
  obtain ⟨before, pend, linked⟩ := ahead.linked
  exact linked.connsChain.next_eq

theorem Ahead.spare (ahead : Ahead r (p :: rest)) : Ahead r rest := by
  obtain ⟨before, pend, linked⟩ := ahead.linked
  refine ⟨ahead.consistent, before ++ [p], pend, ?_⟩
  rwa [List.append_assoc]

/-- Closing a client and its child leaves the records ahead where they are. -/
theorem Ahead.close (ahead : Ahead r (p :: rest)) (client : (r.heap p).kind = .client)
    (sys : Sys) : Ahead (r.connClose sys p) rest := by
  have consistent := ahead.consistent
  have ownerless := consistent.client_ownerless ahead.alive client
  obtain ⟨before, pend, linked⟩ := ahead.linked
  have removed := @connClose_removed _ sys _ consistent ahead.alive ownerless
  obtain ⟨less, left⟩ := diff_doomed linked.sorted fun c child =>
    (consistent.child p c ahead.alive child).2.2.2.2
  refine ⟨consistent.connClose sys (Or.inl ⟨ahead.alive, ownerless⟩), less,
    ((r.heap p).child.toList ++ [p]).reverse ++ pend, ?_⟩
  rw [← left]
  exact removed.lists _ _ linked

theorem sweepFrom_sweeps {bound : Nat} (ahead : Ahead r nodes) (enough : nodes.length ≤ bound) :
    Sweeps sys now nodes r (sweepFrom sys now bound nodes.head? r) := by
  induction nodes generalizing r bound with
  | nil =>
      cases bound <;> exact .done
  | cons p rest inductionHypothesis =>
      obtain ⟨bound, rfl⟩ : ∃ less, bound = less + 1 :=
        Nat.exists_eq_succ_of_ne_zero (Nat.ne_zero_of_lt enough)
      have fits : rest.length ≤ bound := Nat.le_of_succ_le_succ enough
      rw [List.head?_cons, sweepFrom, ahead.next_eq]
      split
      next stalled =>
        exact .closes ahead.alive stalled (inductionHypothesis (ahead.close stalled.1 sys) fits)
      next fresh => exact .spares fresh (inductionHypothesis ahead.spare fits)

/-- What closing the first record does to those ahead. -/
theorem Ahead.kept (ahead : Ahead r (p :: rest)) (client : (r.heap p).kind = .client)
    (member : q ∈ rest) : ∃ link, (r.connClose sys p).heap q = (r.heap q).linkTo link := by
  have consistent := ahead.consistent
  obtain ⟨before, pend, linked⟩ := ahead.linked
  have older : q < p :=
    (List.pairwise_cons.mp (List.pairwise_append.mp linked.sorted).2.1).1 q member
  apply (connClose_removed consistent ahead.alive
    (consistent.client_ownerless ahead.alive client)).others q
  intro doomed
  rcases List.mem_append.mp doomed with isChild | isRecord
  · have newer := (consistent.child p q ahead.alive (Option.mem_toList.mp isChild)).2.2.2.2
    exact Nat.lt_asymm older newer
  · exact Nat.ne_of_lt older (List.mem_singleton.mp isRecord)

/-- The sweep follows the links of the records of `g_conns`, each still open. -/
theorem sweepVisits_eq {bound : Nat} (ahead : Ahead r nodes) (enough : nodes.length ≤ bound) :
    sweepVisits sys now bound nodes.head? r = nodes.map fun p => (p, (r.heap p).kind) := by
  induction nodes generalizing r bound with
  | nil => cases bound <;> rfl
  | cons p rest inductionHypothesis =>
      obtain ⟨bound, rfl⟩ : ∃ less, bound = less + 1 :=
        Nat.exists_eq_succ_of_ne_zero (Nat.ne_zero_of_lt enough)
      have fits : rest.length ≤ bound := Nat.le_of_succ_le_succ enough
      rw [List.head?_cons, sweepVisits, List.map_cons, ahead.next_eq]
      congr 1
      split
      next stalled =>
        rw [inductionHypothesis (ahead.close stalled.1 sys) fits]
        apply List.map_congr_left
        intro q member
        obtain ⟨link, same⟩ := @Ahead.kept _ sys _ _ _ ahead stalled.1 member
        rw [same]
        rfl
      next => exact inductionHypothesis ahead.spare fits

/-- The sweep closes a record: it is overdue, or its owner is. -/
def Overdue (r : Reactor) (now : Int) (nodes : List Ptr) (q : Ptr) : Prop :=
  ∃ p ∈ nodes, Stalled (r.heap p) now ∧ (q = p ∨ (r.heap p).child = some q)

/-- Everything the sweep changes. -/
structure Swept (r : Reactor) (doomed : Ptr → Prop) (after : Reactor) : Prop where
  consistent : Consistent after
  dead : ∀ q, doomed q → (after.heap q).kind = .dead ∧ after.interest q = none
  others : ∀ q, ¬doomed q →
    (∃ link, after.heap q = (r.heap q).linkTo link) ∧ after.interest q = r.interest q
  allocated : after.allocated = r.allocated
  importRunning : after.importRunning = r.importRunning
  waiting : after.waiting = r.waiting
  batch : after.batch = r.batch
  log : after.log = r.log

/-- Who is overdue behind a closed record was so before. -/
theorem Ahead.overdue_close (ahead : Ahead r (p :: rest)) (client : (r.heap p).kind = .client) :
    Overdue (r.connClose sys p) now rest q ↔ Overdue r now rest q := by
  unfold Overdue
  apply exists_congr
  intro owner
  apply and_congr_right
  intro member
  obtain ⟨link, same⟩ := @Ahead.kept _ sys _ _ _ ahead client member
  rw [same]
  exact Iff.rfl

theorem Sweeps.swept (sweeps : Sweeps sys now nodes r after) (ahead : Ahead r nodes) :
    Swept r (Overdue r now nodes) after := by
  induction sweeps with
  | @done r =>
      have nobody : ∀ q, ¬Overdue r now [] q := by
        intro q overdue
        obtain ⟨p, member, _⟩ := overdue
        exact List.not_mem_nil member
      exact ⟨ahead.consistent, fun q overdue => absurd overdue (nobody q),
        fun q _ => ⟨⟨_, rfl⟩, rfl⟩, rfl, rfl, rfl, rfl, rfl⟩
  | @spares p rest r after fresh later inductionHypothesis =>
      have same : Overdue r now (p :: rest) = Overdue r now rest := by
        funext q
        simp [Overdue, fresh]
      rw [same]
      exact inductionHypothesis ahead.spare
  | @closes p rest r after alive stalled later inductionHypothesis =>
      have consistent := ahead.consistent
      have removed := @connClose_removed _ sys _ consistent alive
        (consistent.client_ownerless alive stalled.1)
      have swept := inductionHypothesis (ahead.close stalled.1 sys)
      have split : ∀ q, Overdue r now (p :: rest) q ↔
          q ∈ (r.heap p).child.toList ++ [p] ∨ Overdue (r.connClose sys p) now rest q := by
        intro q
        rw [@Ahead.overdue_close _ sys _ _ _ _ ahead stalled.1]
        unfold Overdue
        simp only [List.mem_cons, exists_eq_or_imp, List.mem_append, Option.mem_toList,
          List.not_mem_nil, or_false]
        rw [and_iff_right stalled, or_comm (a := q = p)]
      refine ⟨swept.consistent, ?_, ?_, swept.allocated.trans removed.allocated,
        swept.importRunning.trans removed.importRunning, swept.waiting.trans removed.waiting,
        swept.batch.trans removed.batch, swept.log.trans removed.log⟩
      · intro q overdue
        by_cases later : Overdue (r.connClose sys p) now rest q
        · exact swept.dead q later
        · have doomed := ((split q).mp overdue).resolve_right later
          obtain ⟨⟨link, same⟩, interest⟩ := swept.others q later
          rw [same, interest, removed.interest, if_pos doomed]
          exact ⟨removed.dead q doomed, rfl⟩
      · intro q spared
        have notLater := fun later => spared ((split q).mpr (Or.inr later))
        have notDoomed := fun doomed => spared ((split q).mpr (Or.inl doomed))
        obtain ⟨⟨link, same⟩, interest⟩ := swept.others q notLater
        obtain ⟨firstLink, firstSame⟩ := removed.others q notDoomed
        rw [same, interest, removed.interest, if_neg notDoomed, firstSame]
        exact ⟨⟨link, rfl⟩, rfl⟩

theorem sweepTimeouts_sweeps {conns pend : List Ptr} (consistent : Consistent r)
    (linked : r.Linked conns pend) (sys : Sys) (now : Int) :
    Ahead r conns ∧ Sweeps sys now conns r (r.sweepTimeouts sys now) ∧
      sweepVisits sys now r.fresh r.conns r = conns.map fun p => (p, (r.heap p).kind) := by
  have ahead : Ahead r conns := ⟨consistent, [], pend, linked⟩
  have enough := linked.conns_length
  unfold sweepTimeouts
  rw [linked.connsChain.head_eq]
  exact ⟨ahead, sweepFrom_sweeps ahead enough, sweepVisits_eq ahead enough⟩

end Sweep

/-! ## Runs -/

/-- What holds between two steps: the batch names no freed record either. -/
structure Tidy (r : Reactor) : Prop where
  consistent : Consistent r
  batch : ∀ event ∈ r.batch, r.allocated event.1 = true

section Runs

variable {conf : Conf} {r : Reactor} {p : Ptr}

theorem drainPendingFree_live {conns pend : List Ptr} (linked : r.Linked conns pend) :
    r.drainPendingFree.Live p ↔ r.Live p := by
  rw [← linked.live p]
  exact (linked.drainPendingFree.live p).symm

theorem Consistent.drainPendingFree (consistent : Consistent r) :
    Consistent r.drainPendingFree := by
  obtain ⟨conns, pend, linked⟩ := consistent.lists
  have live : ∀ q, r.drainPendingFree.Live q ↔ r.Live q := fun q => drainPendingFree_live linked
  have heap : r.drainPendingFree.heap = r.heap := rfl
  constructor
  case lists => exact ⟨conns, [], linked.drainPendingFree⟩
  case child =>
    intro p c alive child
    rw [live, heap]
    exact consistent.child p c ((live p).mp alive) child
  case owner =>
    intro c o alive owned
    rw [live, heap]
    exact consistent.owner c o ((live c).mp alive) owned
  case plain =>
    intro p alive other
    exact consistent.plain p ((live p).mp alive) other
  case registered =>
    intro p found
    exact (live p).mpr (consistent.registered p found)
  case gone =>
    intro p small absent
    by_contra alive
    have free : ¬r.Live p := by
      intro isLive
      rw [((live p).mpr isLive).1] at absent
      contradiction
    exact free (⟨by_contra fun missing => alive (consistent.gone p small
      (Bool.eq_false_iff.mpr missing)), alive⟩)

theorem Consistent.withBatch (consistent : Consistent r) (waiting : Bool)
    (batch : List (Ptr × Ready)) :
    Consistent { r with waiting := waiting, batch := batch } :=
  consistent.congr (fun _ => ⟨rfl, rfl, rfl, rfl⟩) (fun _ _ _ => rfl) rfl rfl rfl rfl fun _ => id

theorem Reports.live (consistent : Consistent r) {event : Ptr × Ready} (reports : r.Reports event) :
    r.Live event.1 := by
  apply consistent.registered
  unfold Reports at reports
  split at reports
  next => contradiction
  next interest found =>
    rw [found]
    rfl

theorem step_tidy (tidy : Tidy r) {s : Step} (legal : r.Legal s) : Tidy (step conf r s) := by
  unfold step
  split
  next => exact tidy
  next =>
    cases s with
    | wait batch =>
        dsimp only
        split
        next =>
          refine ⟨tidy.consistent.withBatch false batch, ?_⟩
          intro event member
          exact (Reports.live tidy.consistent (legal.2.2 event member)).1
        next => exact tidy
    | event calls =>
        dsimp only
        split
        next => exact tidy
        next p ready rest batch =>
          have allocated : ∀ event ∈ (p, ready) :: rest, r.allocated event.1 = true := by
            rw [← batch]
            exact tidy.batch
          have taken : Consistent { r with batch := rest } :=
            tidy.consistent.withBatch r.waiting rest
          have kept := @dispatchEvent_proceeds conf { r with batch := rest } p ready calls
          refine ⟨taken.dispatchEvent (allocated _ List.mem_cons_self) ready calls, ?_⟩
          intro event member
          rw [kept.batch] at member
          exact kept.allocated event.1 (allocated event (List.mem_cons_of_mem _ member))
    | finish sys now =>
        dsimp only
        split
        next idle =>
          obtain ⟨conns, pend, linked⟩ := tidy.consistent.lists
          obtain ⟨ahead, sweeps, _⟩ := sweepTimeouts_sweeps tidy.consistent linked sys now
          have swept := sweeps.swept ahead
          refine ⟨swept.consistent.drainPendingFree.withBatch true _, ?_⟩
          intro event member
          have inside : event ∈ (r.sweepTimeouts sys now).batch := member
          rw [swept.batch, idle.2] at inside
          exact absurd inside List.not_mem_nil
        next => exact tidy
    | outside files => exact ⟨tidy.consistent.withStore _, tidy.batch⟩

theorem start_tidy (st : Store) (now : Int) : Tidy (start st now) := by
  have live : ∀ p, (start st now).Live p ↔ p = 0 := by
    intro p
    show decide (p = 0) = true ∧ ConnKind.listener ≠ .dead ↔ p = 0
    rw [decide_eq_true_eq]
    exact ⟨fun found => found.1, fun first => ⟨first, ConnKind.noConfusion⟩⟩
  refine ⟨⟨⟨[0], [], ⟨⟨rfl, rfl⟩, rfl, List.pairwise_singleton _ _, List.nodup_nil, ?_, ?_, ?_⟩⟩,
    ?_, ?_, ?_, ?_, ?_⟩, ?_⟩
  · intro p
    rw [live, List.mem_singleton]
  · intro p
    exact ⟨fun member => absurd member List.not_mem_nil, fun closed => ConnKind.noConfusion closed.2⟩
  · intro p allocated
    have first : p = 0 := of_decide_eq_true allocated
    rw [first]
    exact Nat.one_pos
  · intro p c _ child
    contradiction
  · intro c o _ owned
    contradiction
  · intro p _ _
    rfl
  · intro p found
    rw [live]
    by_contra other
    have absent : (start st now).interest p = none := if_neg other
    rw [absent] at found
    contradiction
  · intro p small absent
    have first : p = 0 := Nat.lt_one_iff.mp small
    rw [first] at absent
    contradiction
  · intro event member
    exact absurd member List.not_mem_nil

/-- Every state of every run is tidy, whatever the system calls answer. -/
theorem run_tidy {st : Store} {now : Int} {steps : List Step}
    (legal : Along Legal (step conf) (start st now) steps) :
    Tidy (run (step conf) (start st now) steps) := by
  apply run_invariant (motive := Tidy) _ (start_tidy st now) legal
  intro r s tidy allowed
  exact step_tidy tidy allowed

/-- A record goes in a sweep: it is an overdue client, or the hash child of one. -/
def TimedOut (r : Reactor) (now : Int) (q : Ptr) : Prop :=
  ∃ p, r.Live p ∧ Stalled (r.heap p) now ∧ (q = p ∨ (r.heap p).child = some q)

theorem timedOut_overdue {conns pend : List Ptr} (linked : r.Linked conns pend) (now : Int) :
    Overdue r now conns = TimedOut r now := by
  funext q
  unfold Overdue TimedOut
  simp only [linked.live]

theorem TimedOut.live (consistent : Consistent r) {now : Int} {q : Ptr}
    (timedOut : TimedOut r now q) : r.Live q := by
  obtain ⟨p, alive, _, rfl | child⟩ := timedOut
  · exact alive
  · exact (consistent.child p q alive child).2.1

/-- The sweep in any reachable state: it closes the overdue clients and their hash
children, leaves everything else but the links as it was, and follows the link of every
live record once, none of them closed by then. -/
theorem sweepTimeouts_closes_overdue (conf : Conf) (st : Store) (now : Int) (steps : List Step)
    (legal : Along Legal (step conf) (start st now) steps) (sys : Sys) (later : Int) :
    let r := run (step conf) (start st now) steps
    let after := r.sweepTimeouts sys later
    let visits := sweepVisits sys later r.fresh r.conns r
    (∀ q, after.Live q ↔ r.Live q ∧ ¬TimedOut r later q) ∧
      (∀ q, after.Closed q ↔ r.Closed q ∨ TimedOut r later q) ∧
      (∀ q, ¬TimedOut r later q → ∃ link, after.heap q = (r.heap q).linkTo link) ∧
      (∀ p c, r.Live p → (r.heap p).child = some c →
        (r.heap c).kind = .hashChild ∧ (r.heap c).owner = some p) ∧
      (visits.map Prod.fst).Nodup ∧ (∀ q, q ∈ visits.map Prod.fst ↔ r.Live q) ∧
      ∀ visit ∈ visits, visit.2 ≠ .dead := by
  dsimp only
  have consistent := (run_tidy legal).consistent
  generalize run (step conf) (start st now) steps = r at consistent
  obtain ⟨conns, pend, linked⟩ := consistent.lists
  obtain ⟨ahead, sweeps, visits⟩ := sweepTimeouts_sweeps consistent linked sys later
  have swept := sweeps.swept ahead
  rw [timedOut_overdue linked] at swept
  have names : (conns.map fun p => (p, (r.heap p).kind)).map Prod.fst = conns := by
    rw [List.map_map]
    exact List.map_id conns
  rw [visits, names]
  refine ⟨?_, ?_, fun q spared => (swept.others q spared).1, ?_, linked.nodup, linked.live, ?_⟩
  · intro q
    rw [Live, swept.allocated]
    by_cases timedOut : TimedOut r later q
    · simp [(swept.dead q timedOut).1, timedOut]
    · obtain ⟨⟨link, same⟩, _⟩ := swept.others q timedOut
      rw [same, and_iff_left timedOut]
      exact Iff.rfl
  · intro q
    rw [Closed, swept.allocated]
    by_cases timedOut : TimedOut r later q
    · simp [(swept.dead q timedOut).1, timedOut, (timedOut.live consistent).1]
    · obtain ⟨⟨link, same⟩, _⟩ := swept.others q timedOut
      rw [same, or_iff_left timedOut]
      exact Iff.rfl
  · intro p c alive child
    obtain ⟨_, _, hash, owned, _⟩ := consistent.child p c alive child
    exact ⟨hash, owned⟩
  · intro visit member
    obtain ⟨p, onList, rfl⟩ := List.mem_map.mp member
    exact ((linked.live p).mp onList).2

end Runs

end Reactor

/-! ### A client that sends nothing -/

/-- Every call succeeds. -/
def CallResults.succeeding (now : Int) : CallResults where
  sys := Sys.succeeding fun _ => none
  now := now
  modifies := fun _ => true
  opensPidfd := fun _ => true
  allocates := fun _ => true
  registers := fun _ => true
  mallocs := true
  document := []
  asset := .whole

/-- An event that reads, writes and accepts nothing. -/
def EventCalls.answered (a : CallResults) : EventCalls := ⟨[], [], [], [], a⟩

/-- A record was reported readable and nothing else. -/
def Ready.input : Ready := ⟨true, false, false⟩

/-- One connection is accepted. -/
def Step.acceptedClient : List Step :=
  [.wait [(0, .input)],
    .event { EventCalls.answered (.succeeding 0) with accepts := [.accepted (.succeeding 0)] },
    .finish (Sys.succeeding fun _ => none) 0]

/-- The sweep a minute later closes that connection. -/
theorem acceptedClient_swept :
    let r := run (Reactor.step Conf.sample) (Reactor.start (Store.holding [] []) 0)
      Step.acceptedClient
    r.Live 1 ∧ (r.sweepTimeouts (Sys.succeeding fun _ => none) 60001).Closed 1 := by
  have overdue : (run (Reactor.step Conf.sample) (Reactor.start (Store.holding [] []) 0)
      Step.acceptedClient).Live 1 ∧ Reactor.Stalled ((run (Reactor.step Conf.sample)
        (Reactor.start (Store.holding [] []) 0) Step.acceptedClient).heap 1) 60001 := by
    decide +kernel
  have closes := Reactor.sweepTimeouts_closes_overdue Conf.sample (Store.holding [] []) 0
    Step.acceptedClient (by decide +kernel) (Sys.succeeding fun _ => none) 60001
  exact ⟨overdue.1, (closes.2.1 1).mpr (Or.inr ⟨1, overdue.1, overdue.2, Or.inl rfl⟩)⟩

end CixCache
