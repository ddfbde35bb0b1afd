import CixCache.Server.Steady

/-!
Contract: the staging files of the uploads, as long as the file of an upload that is
published can be renamed and no connection is given a second upload while it holds one.

Owns: `Staged`, who holds the staging files that are in the tree; `Holds`, a change that
leaves none without its holder; that every event, the sweep and every step keep these; a
run in which a staging file stays behind.

Does not own: the processes.
-/

namespace CixCache

open CixCache.Lib

/-- The bytes a `read` brought. -/
def ReadOutcome.arrived : ReadOutcome → Bytes
  | .data bytes _ => bytes
  | _ => []

/-- No `unlink` of a step fails. -/
def Step.Unlinks : Step → Prop
  | .finish sys _ => sys.Unlinks
  | s => ∀ a ∈ s.answers, a.sys.Unlinks

namespace Reactor

/-- `finish_upload` comes to a publication of a digest that no blob has yet. -/
def Adopts (r : Reactor) (o : Ptr) (output : Bytes) : Prop :=
  r.Declares o output ∧
    (storeResolve r.store (r.heap o).upName = .ok (output.take storeSha256HexLen) ∨
      storeResolve r.store (r.heap o).upName = .error .notFound) ∧
    stat r.store.files (.blobs (output.take storeSha256HexLen)) = none

instance (r : Reactor) (o : Ptr) (output : Bytes) : Decidable (r.Adopts o output) :=
  inferInstanceAs (Decidable ((_ ∧ _ ∧ _) ∧ (_ ∨ _) ∧ _))

/-- The staging file of an upload that ends here can be renamed. -/
def Renames (r : Reactor) (o : Ptr) (sys : Sys) (output : Bytes) : Prop :=
  match (r.heap o).upPath with
  | none => True
  | some path =>
      r.Adopts o output →
        sys.allows (.rename path (.blobs (output.take storeSha256HexLen))) = true

instance (r : Reactor) (o : Ptr) (sys : Sys) (output : Bytes) :
    Decidable (r.Renames o sys output) := by
  unfold Renames
  split <;> infer_instance

/-- Nothing arrives on a connection that holds a staging file and does not receive its
body. -/
def Silent (r : Reactor) (event : Ptr × Ready) (calls : EventCalls) : Prop :=
  (r.heap event.1).kind = .client → event.2.readable = true → event.2.hangup = false →
    (r.heap event.1).state ≠ .recvBody → (r.heap event.1).upPath ≠ none →
      ∀ read ∈ calls.reads, read.1.arrived = []

instance (r : Reactor) (event : Ptr × Ready) (calls : EventCalls) :
    Decidable (r.Silent event calls) :=
  inferInstanceAs (Decidable (_ → _ → _ → _ → _ → ∀ _ ∈ _, _))

/-- The staging file of an upload whose hash ended becomes a blob, where it has to. -/
def Finishes (r : Reactor) (event : Ptr × Ready) (calls : EventCalls) : Prop :=
  (r.heap event.1).kind = .hashChild →
    ∀ o ∈ (r.heap event.1).owner, r.Renames o calls.answers.sys calls.output

instance (r : Reactor) (event : Ptr × Ready) (calls : EventCalls) :
    Decidable (r.Finishes event calls) :=
  inferInstanceAs (Decidable (_ → ∀ _ ∈ _, _))

/-- The next event loses no staging file. -/
def Releases (r : Reactor) : Step → Prop
  | .event calls => ∀ event ∈ r.batch.head?, r.Silent event calls ∧ r.Finishes event calls
  | _ => True

instance (r : Reactor) : (s : Step) → Decidable (r.Releases s)
  | .event _ => inferInstanceAs (Decidable (∀ _ ∈ _, _ ∧ _))
  | .wait _ => isTrue trivial
  | .finish _ _ => isTrue trivial
  | .outside _ => isTrue trivial

/-- What is left of the staging files of closed connections. -/
def LeavesNothing (r : Reactor) : Prop :=
  ∀ p path, (p, path) ∈ r.log.staged → ¬r.Live p → r.store.files path = none

/-- A staging file that is in the tree is held by the open connection it was made for. -/
structure Staged (r : Reactor) : Prop where
  named : ∀ p path, (p, path) ∈ r.log.staged →
    ∃ counter < r.store.tmpCounter, path = .tmp (.up r.store.pid counter)
  held : ∀ p path, (p, path) ∈ r.log.staged → (r.store.files path).isSome →
    r.Live p ∧ (r.heap p).upPath = some path

section Assignments

variable {r mid after : Reactor} {p q c o : Ptr} {sys : Sys} {a : CallResults} {pid : Nat}

/-! ## Staging files left alone -/

/-- No staging file appears, and what is still there of those that are held is held by the
same records. -/
structure Holds (r after : Reactor) : Prop where
  staged : after.log.staged = r.log.staged
  store : StagingKept r.store after.store
  held : ∀ q pid counter, r.Live q → (r.heap q).upPath = some (.tmp (.up pid counter)) →
    (after.store.files (.tmp (.up pid counter))).isSome →
      after.Live q ∧ (after.heap q).upPath = some (.tmp (.up pid counter))

theorem Holds.keeps (holds : Holds r after) (staged : Staged r) : Staged after where
  named p path member := by
    rw [holds.staged] at member
    obtain ⟨counter, old, named⟩ := staged.named p path member
    rw [holds.store.pid]
    exact ⟨counter, Nat.lt_of_lt_of_le old holds.store.counter, named⟩
  held p path member present := by
    rw [holds.staged] at member
    obtain ⟨counter, _, rfl⟩ := staged.named p path member
    obtain ⟨alive, held⟩ := staged.held p _ member (holds.store.files _ _ present)
    exact holds.held p _ counter alive held present

theorem Holds.refl (r : Reactor) : Holds r r :=
  ⟨rfl, StagingKept.refl _, fun _ _ _ alive held _ => ⟨alive, held⟩⟩

theorem Holds.trans (first : Holds r mid) (second : Holds mid after) : Holds r after where
  staged := second.staged.trans first.staged
  store := first.store.trans second.store
  held q pid counter alive held present := by
    obtain ⟨stillAlive, stillHeld⟩ :=
      first.held q pid counter alive held (second.store.files _ _ present)
    exact second.held q pid counter stillAlive stillHeld present

/-- Changes of other fields of the open records. -/
theorem holds_of_records (live : ∀ q, r.Live q → after.Live q)
    (upPath : ∀ q, r.Live q → (after.heap q).upPath = (r.heap q).upPath)
    (staged : after.log.staged = r.log.staged) (store : StagingKept r.store after.store) :
    Holds r after where
  staged := staged
  store := store
  held q _ _ alive held _ := ⟨live q alive, (upPath q alive).trans held⟩

theorem withLog_holds (r : Reactor) {log : History} (staged : log.staged = r.log.staged) :
    Holds r (r.withLog log) :=
  holds_of_records (fun _ => id) (fun _ _ => rfl) staged (StagingKept.refl _)

theorem enter_holds (r : Reactor) (p : Ptr) : Holds r (r.enter p) := withLog_holds r rfl

theorem forkHasher_holds (r : Reactor) : Holds r r.forkHasher := withLog_holds r rfl

theorem waitpid_holds (r : Reactor) (pid : Nat) : Holds r (r.waitpid pid) := withLog_holds r rfl

/-- Assigning to other fields of a record. -/
theorem modify_holds (r : Reactor) (p : Ptr) {change : Record → Record}
    (kind : (change (r.heap p)).kind = (r.heap p).kind)
    (upPath : (change (r.heap p)).upPath = (r.heap p).upPath) : Holds r (r.modify p change) := by
  refine holds_of_records ?_ ?_ rfl (StagingKept.refl _)
  · intro q alive
    by_cases same : q = p
    · rw [Live, same, modify_self, kind]
      exact same ▸ alive
    · rw [Live, modify_of_ne _ _ same]
      exact alive
  · intro q _
    by_cases same : q = p
    · rw [same, modify_self]
      exact upPath
    · rw [modify_of_ne _ _ same]

/-- A record that does not receive a body holds no staging file. -/
def Unstaged (p : Ptr) (r : Reactor) : Prop :=
  (r.heap p).state ≠ .recvBody → (r.heap p).upPath = none

theorem Local.upPath_eq (change : Local p r after) (unstaged : Unstaged p r) :
    (after.heap p).upPath = (r.heap p).upPath := by
  rcases change.upPath with kept | ⟨other, dropped⟩
  · exact kept
  · rw [dropped, unstaged other]

theorem Local.holds (change : Local p r after)
    (kept : (after.heap p).upPath = (r.heap p).upPath) : Holds r after := by
  refine holds_of_records (fun q => change.live.mpr) ?_ (by rw [change.log]) change.store
  intro q _
  by_cases same : q = p
  · rw [same]
    exact kept
  · rw [change.others q same]

theorem Local.unstaged (change : Local p r after) (unstaged : Unstaged p r) :
    Unstaged p after := by
  intro other
  rw [change.upPath_eq unstaged]
  apply unstaged
  rcases change.state with same | sent
  · rwa [same] at other
  · rw [sent.1]
    exact ConnPhase.noConfusion

/-- A connection that holds nothing begins an upload. -/
theorem Stages.staged (stages : Stages p r after) (serving : Serving p r)
    (unstaged : Unstaged p r) (staged : Staged r) : Staged after where
  named q path member := by
    rw [stages.log] at member
    rw [stages.pid, stages.counter]
    rcases List.mem_cons.mp member with new | old
    · obtain ⟨-, rfl⟩ := Prod.mk.inj new
      exact ⟨_, Nat.lt_succ_self _, rfl⟩
    · obtain ⟨counter, older, named⟩ := staged.named q path old
      exact ⟨counter, Nat.lt_succ_of_lt older, named⟩
  held q path member present := by
    rw [stages.log] at member
    rcases List.mem_cons.mp member with new | old
    · obtain ⟨rfl, rfl⟩ := Prod.mk.inj new
      exact ⟨stages.live.mpr serving.alive, stages.upPath⟩
    · obtain ⟨counter, older, rfl⟩ := staged.named q path old
      have before := stages.files _ _ (fun same => Nat.ne_of_lt older same.2) present
      obtain ⟨alive, held⟩ := staged.held q _ old before
      have other : q ≠ p := by
        rintro rfl
        rw [unstaged stages.before] at held
        contradiction
      rw [stages.live, stages.others q other]
      exact ⟨alive, held⟩

/-! ## Calls -/

theorem epollSet_holds (r : Reactor) (a : CallResults) (p : Ptr) (events : Interest) :
    Holds r (r.epollSet a p events) := by
  unfold epollSet
  split
  next =>
    exact holds_of_records (fun _ => id) (fun _ _ => rfl) rfl (StagingKept.refl _)
  next => exact Holds.refl r

theorem epollAdd_holds (r : Reactor) (p : Ptr) (events : Interest) :
    Holds r (r.epollAdd p events) :=
  holds_of_records (fun _ => id) (fun _ _ => rfl) rfl (StagingKept.refl _)

theorem sendHeader_holds (r : Reactor) (a : CallResults) (p : Ptr) (text : Bytes) :
    Holds r (r.sendHeader a p text) := by
  have counted : Holds (r.modify p fun cc => cc.sending text a.now)
      ((r.modify p fun cc => cc.sending text a.now).began p) := withLog_holds _ rfl
  exact ((modify_holds r p rfl rfl).trans counted).trans (epollSet_holds _ a p _)

theorem connNew_holds (consistent : Consistent r) {kind : ConnKind} (alive : kind ≠ .dead)
    (now : Int) : Holds r (r.connNew kind now) := by
  refine holds_of_records (fun q live => (connNew_live alive).mpr (Or.inr live)) ?_ rfl
    (StagingKept.refl _)
  intro q live
  rw [connNew_of_ne (consistent.ne_fresh live)]

theorem linkHashChild_holds (serving : Serving p r) (a : CallResults) (pid : Nat) :
    Holds r (r.linkHashChild a p pid) := by
  have old := serving.consistent.ne_fresh serving.alive
  have paired : Holds r (r.pairHashChild a p pid) := by
    refine holds_of_records (fun q live => (pairHashChild_live old).mpr (Or.inr live)) ?_ rfl
      (StagingKept.refl _)
    intro q live
    by_cases same : q = p
    · rw [same, pairHashChild_self old]
      rfl
    · rw [pairHashChild_of_ne same (serving.consistent.ne_fresh live)]
  exact paired.trans (epollSet_holds _ a p _)

theorem watchImporter_holds (consistent : Consistent r) (a : CallResults) (pid : Nat) :
    Holds r (r.watchImporter a pid) := by
  refine holds_of_records (fun q live => watchImporter_live.mpr (Or.inr live)) ?_ ?_ ?_
  · intro q live
    rw [watchImporter_of_ne (consistent.ne_fresh live)]
  · rw [watchImporter_eq]
    rfl
  · rw [watchImporter_eq]
    exact StagingKept.refl _

theorem unlink_gone {files : Files} {path : Path} (allowed : sys.allows (.unlink path) = true) :
    (unlink sys files path).1 path = none := by
  unfold unlink
  split
  next absent => exact absent
  next =>
    rw [if_pos allowed]
    exact Function.update_self _ _ _

/-- `conn_close` removes the staging file of the record it closes. -/
theorem connClose_holds (consistent : Consistent r)
    (valid : r.Live p ∧ (r.heap p).owner = none ∨ (r.heap p).kind = .dead)
    (unlinks : ∀ path, (r.heap p).upPath = some path → sys.allows (.unlink path) = true) :
    Holds r (r.connClose sys p) := by
  rcases valid with ⟨alive, ownerless⟩ | dead
  · have removed := @connClose_removed _ sys _ consistent alive ownerless
    have kept := unlinkStaged_stagingKept sys r.store (r.heap p).upPath
    rw [← removed.store] at kept
    refine ⟨by rw [removed.log], kept, ?_⟩
    intro q pid counter live held present
    by_cases doomed : q ∈ (r.heap p).child.toList ++ [p]
    · exfalso
      rcases List.mem_append.mp doomed with isChild | isRecord
      · -- The child is a hash child, which stages nothing.
        obtain ⟨_, _, hash, _⟩ := consistent.child p q alive (Option.mem_toList.mp isChild)
        rw [consistent.plain q live (by rw [hash]; exact ConnKind.noConfusion)] at held
        contradiction
      · rw [List.mem_singleton.mp isRecord] at held
        rw [removed.store, held] at present
        have gone := @unlink_gone _ r.store.files _ (unlinks _ held)
        rw [unlinkStaged, Store.withFiles_files, gone] at present
        contradiction
    · obtain ⟨link, same⟩ := removed.others q doomed
      rw [removed.live, same]
      exact ⟨⟨live, doomed⟩, held⟩
  · rw [connClose_dead dead]
    exact Holds.refl r

theorem Serving.connClose_holds (serving : Serving p r) (unlinks : sys.Unlinks) :
    Holds r (r.connClose sys p) :=
  Reactor.connClose_holds serving.consistent (Or.inl ⟨serving.alive,
    serving.consistent.client_ownerless serving.alive serving.client⟩) fun path _ => unlinks path

/-- However a response is begun, the connection still holds what it held, or was closed. -/
theorem Responds.holds (answered : Responds a p r after) (consistent : Consistent r)
    (client : r.Live p → (r.heap p).kind = .client) (old : r.Live p ∨ (r.heap p).kind = .dead)
    (unlinks : a.sys.Unlinks) : Holds r after := by
  cases answered with
  | sends change text kept => exact (change.holds kept).trans (sendHeader_holds _ a p text)
  | closes change kept =>
      have changed := change.consistent consistent client
      refine (change.holds kept).trans (connClose_holds changed ?_ fun path _ => unlinks path)
      rw [change.live, change.kind, change.owner]
      exact old.imp_left fun alive => ⟨alive, consistent.client_ownerless alive (client alive)⟩

/-! ## The handling of input -/

/-- Whatever a handler does, the staging files have their holders. -/
theorem Handles.staged {settled : Prop}
    (handled : Handles (fun a => a.sys.Unlinks) settled p r after) (serving : Serving p r)
    (unstaged : Unstaged p r) (staged : Staged r) : Staged after := by
  induction handled with
  | done => exact staged
  | changes change _ inductionHypothesis =>
      exact inductionHypothesis (change.serving serving) (change.unstaged unstaged)
        ((change.holds (change.upPath_eq unstaged)).keeps staged)
  | stages stages _ inductionHypothesis =>
      exact inductionHypothesis (stages.serving serving) (absurd stages.state)
        (stages.staged serving unstaged staged)
  | @reaps r _ _ inductionHypothesis =>
      have reaped := (forkHasher_holds r).trans (waitpid_holds _ r.log.nextPid)
      exact inductionHypothesis ((serving.withLog _).withLog _) unstaged (reaped.keeps staged)
  | @untracked r _ a _ _ _ inductionHypothesis =>
      have forked : Holds r r.forkImporter := withLog_holds r rfl
      exact inductionHypothesis (serving.withLog _) unstaged (forked.keeps staged)
  | @imports r _ a _ _ _ inductionHypothesis =>
      have forked : Holds r r.forkImporter := withLog_holds r rfl
      have consistent : Consistent r.forkImporter := serving.consistent.withLog _
      have watched := forked.trans (watchImporter_holds consistent a r.log.nextPid)
      apply inductionHypothesis (Serving.watchImporter (serving.withLog _) a _) _
        (watched.keeps staged)
      unfold Unstaged
      rw [watchImporter_of_ne (consistent.ne_fresh serving.alive)]
      exact unstaged
  | @hashes r a _ _ _ =>
      have forked : Serving p r.forkHasher := serving.withLog _
      have linked := (forkHasher_holds r).trans (linkHashChild_holds forked a r.log.nextPid)
      exact (linked.trans (epollAdd_holds _ _ _)).keeps staged
  | @unwatched r _ a unlinks _ _ answered =>
      have forked : Serving p r.forkHasher := serving.withLog _
      have linked := (forkHasher_holds r).trans (linkHashChild_holds forked a r.log.nextPid)
      have later := forked.linkHashChild a r.log.nextPid
      exact (linked.trans (answered.holds later.consistent (fun _ => later.client)
        (Or.inl later.alive) unlinks)).keeps staged
  | answers a unlinks answered =>
      exact (answered.holds serving.consistent (fun _ => serving.client) (Or.inl serving.alive)
        unlinks).keeps staged

/-- Reading where nothing has arrived. -/
theorem handleRead_silent {conf : Conf} {reads : List (ReadOutcome × CallResults)}
    (silent : ∀ read ∈ reads, read.1.arrived = []) :
    handleRead conf p reads r = r ∨
      ∃ read ∈ reads, handleRead conf p reads r = r.connClose read.2.sys p := by
  induction reads with
  | nil => exact Or.inl rfl
  | cons read rest inductionHypothesis =>
      obtain ⟨outcome, a⟩ := read
      cases outcome with
      | tryAgain => exact Or.inl rfl
      | failed => exact Or.inr ⟨_, List.mem_cons_self, rfl⟩
      | interrupted =>
          rcases inductionHypothesis fun read member => silent read (List.mem_cons_of_mem _ member)
            with same | ⟨read, member, closed⟩
          · exact Or.inl same
          · exact Or.inr ⟨read, List.mem_cons_of_mem _ member, closed⟩
      | data bytes grows =>
          have nothing : bytes = [] := silent _ List.mem_cons_self
          refine Or.inr ⟨_, List.mem_cons_self, ?_⟩
          rw [handleRead, if_pos nothing]

theorem handleWrite_holds (serving : Serving p r) (unlinks : sys.Unlinks) (now : Int)
    (answers : List Written) : Holds r (handleWrite sys now p answers r) := by
  induction answers generalizing r with
  | nil => exact Holds.refl r
  | cons answer rest inductionHypothesis =>
      unfold handleWrite
      dsimp only
      split
      next => exact serving.connClose_holds unlinks
      next stays =>
        cases answer with
        | tryAgain => exact Holds.refl r
        | failed => exact Holds.refl r
        | interrupted => exact inductionHypothesis serving
        | wrote n =>
            refine (modify_holds r p rfl rfl).trans (inductionHypothesis ?_)
            exact (local_sentBy r p now stays).serving serving

theorem acceptLoop_holds {accepts : List Accepted} (consistent : Consistent r) :
    Holds r (acceptLoop accepts r) := by
  induction accepts generalizing r with
  | nil => exact Holds.refl r
  | cons accept rest inductionHypothesis =>
      cases accept with
      | tryAgain => exact Holds.refl r
      | failed => exact Holds.refl r
      | interrupted => exact inductionHypothesis consistent
      | accepted a =>
          have made := @Consistent.connNew _ consistent .client ConnKind.noConfusion a.now
          have alive : (r.connNew .client a.now).Live r.fresh :=
            (connNew_live ConnKind.noConfusion).mpr (Or.inl rfl)
          have grown := @connNew_holds _ consistent .client ConnKind.noConfusion a.now
          rw [acceptLoop]
          split
          next => exact inductionHypothesis consistent
          next =>
            dsimp only
            split
            next =>
              exact (grown.trans (epollAdd_holds _ _ _)).trans
                (inductionHypothesis (made.epollAdd alive _))
            next =>
              have record := connNew_self r .client a.now
              have valid : (r.connNew .client a.now).Live r.fresh ∧
                  ((r.connNew .client a.now).heap r.fresh).owner = none :=
                ⟨alive, by rw [record]; rfl⟩
              refine (grown.trans (connClose_holds made (Or.inl valid) ?_)).trans
                (inductionHypothesis (made.connClose a.sys (Or.inl valid)))
              intro path held
              rw [record] at held
              contradiction

/-! ## The end of an upload -/

/-- Unless its renaming is refused, the end of an upload takes the staging file away. -/
theorem commitUpload_gone {st : Store} {name digest : Bytes} {counter : Nat}
    (valid : storeDigestIsValid digest = true) (unlinks : sys.Unlinks)
    (renames : storeResolve st name = .ok digest ∨ storeResolve st name = .error .notFound →
      stat st.files (.blobs digest) = none →
        sys.allows (.rename (.tmp (.up pid counter)) (.blobs digest)) = true) :
    (commitUpload sys st (some (.tmp (.up pid counter))) name digest).1.files
      (.tmp (.up pid counter)) = none := by
  have dropped : (unlinkStaged sys st (some (.tmp (.up pid counter)))).files
      (.tmp (.up pid counter)) = none := unlink_gone (unlinks _)
  have adopted : storeResolve st name = .ok digest ∨ storeResolve st name = .error .notFound →
      (adoptUpload sys st (some (.tmp (.up pid counter))) name digest).1.files
        (.tmp (.up pid counter)) = none := by
    intro publishes
    have taken : (adoptStaged sys st (some (.tmp (.up pid counter))) digest).1.files
        (.tmp (.up pid counter)) = none := by
      show (storeBlobAdopt sys st (.tmp (.up pid counter)) digest).1.files _ = none
      rw [storeBlobAdopt_of_valid valid]
      split
      next => exact dropped
      next absent =>
        have allowed := renames publishes (Option.not_isSome_iff_eq_none.mp absent)
        cases present : st.files (.tmp (.up pid counter)) with
        | none =>
            rw [rename, present]
            exact present
        | some node =>
            rw [rename_of_present present allowed]
            dsimp only [Store.withFiles_files]
            rw [Function.update_of_ne Path.noConfusion, Function.update_self]
    unfold adoptUpload
    split
    next adopted reason same =>
      rw [same] at taken
      exact taken
    next adopted same =>
      rw [same] at taken
      have kept := storePublish_stagingKept sys adopted name digest
      by_contra present
      have before := kept.files _ _ (Option.isSome_iff_ne_none.mpr present)
      rw [taken] at before
      contradiction
  unfold commitUpload
  split
  next existing found =>
    split
    next => exact dropped
    next same => exact adopted (Or.inl (by rw [found, not_not.mp same]))
  next missing => exact adopted (Or.inr missing)
  next => exact dropped

theorem reapHashChild_holds (r : Reactor) (p : Ptr) : Holds r (r.reapHashChild p) := by
  unfold reapHashChild
  split
  next => exact modify_holds r p rfl rfl
  next pid _ => exact (waitpid_holds r pid).trans (modify_holds _ p rfl rfl)

theorem finishUpload_holds (orphan : Orphan r p) (unlinks : a.sys.Unlinks) {output : Bytes}
    (renames : r.Renames p a.sys output) : Holds r (r.finishUpload a p output) := by
  have reaped := reapHashChild_holds r p
  have consistent := orphan.consistent.reapHashChild p
  have client : (r.reapHashChild p).Live p → ((r.reapHashChild p).heap p).kind = .client := by
    intro alive
    rw [reapHashChild_self]
    exact orphan.client (reapHashChild_live.mp alive)
  have old : (r.reapHashChild p).Live p ∨ ((r.reapHashChild p).heap p).kind = .dead := by
    rw [reapHashChild_live, reapHashChild_self]
    exact orphan.old
  rcases finishUpload_commits r a p output with
    ⟨response, answered⟩ | ⟨declares, response, answered⟩
  · rw [answered]
    exact reaped.trans ((respond_responds _ a p response).holds consistent client old unlinks)
  · rw [answered]
    have kept := commitUpload_stagingKept a.sys r.store (r.heap p).upPath (r.heap p).upName
      (output.take storeSha256HexLen)
    generalize committed : (commitUpload a.sys r.store (r.heap p).upPath (r.heap p).upName
      (output.take storeSha256HexLen)).1 = done at kept ⊢
    have dropped : Holds r (((r.reapHashChild p).withStore done).modify p Record.unstaged) := by
      refine ⟨reaped.staged, kept, ?_⟩
      intro q pid counter alive held present
      by_cases same : q = p
      · exfalso
        rw [same] at held
        unfold Renames at renames
        rw [held] at renames committed
        have gone := commitUpload_gone declares.2.1 unlinks fun publishes absent =>
          renames ⟨declares, publishes, absent⟩
        rw [committed] at gone
        rw [show ((((r.reapHashChild p).withStore done).modify p Record.unstaged).store.files
          (.tmp (.up pid counter))) = none from gone] at present
        contradiction
      · have still := (reapHashChild_live (p := p)).mpr alive
        rw [Live, modify_of_ne _ _ same, withStore_heap, reapHashChild_of_ne same]
        exact ⟨⟨still.1, alive.2⟩, held⟩
    refine dropped.trans ((respond_responds _ a p response).holds
      ((consistent.withStore done).unstaged client) ?_ ?_ unlinks)
    · intro alive
      rw [modify_self]
      rw [Live, modify_self] at alive
      exact client alive
    · rw [Live, modify_self]
      exact old

/-- The event of a hash child. -/
theorem hashChildEvent_holds (consistent : Consistent r) (alive : r.Live c)
    (unlinks : a.sys.Unlinks) {output : Bytes}
    (renames : ∀ o ∈ (r.heap c).owner, r.Renames o a.sys output) :
    Holds r (r.hashChildEvent a c output) := by
  have ends := r.hashChildEvent_ends a c output
  generalize r.hashChildEvent a c output = after at ends ⊢
  cases ends with
  | alone ownerless =>
      exact connClose_holds consistent (Or.inl ⟨alive, ownerless⟩) fun path _ => unlinks path
  | @finishes o owned =>
      have different := consistent.owner_ne alive owned
      have apart : Holds r (r.letGo c o) :=
        (modify_holds r c rfl rfl).trans ((enter_holds _ o).trans (modify_holds _ o rfl rfl))
      have closed : Holds (r.letGo c o) ((r.letGo c o).connClose a.sys c) := by
        apply connClose_holds (consistent.letGo alive owned) _ fun path _ => unlinks path
        refine Or.inl ⟨(consistent.letGo_live alive owned).mpr alive, ?_⟩
        rw [letGo_child different]
        rfl
      have removed := consistent.letGo_removed alive owned a.sys
      obtain ⟨link, atOwner⟩ := removed.others o fun member =>
        different (List.mem_singleton.mp member).symm
      rw [letGo_owner different] at atOwner
      have store : ((r.letGo c o).connClose a.sys c).store = r.store := by
        have plain := consistent.plain c alive (by
          rw [(consistent.owner c o alive owned).1]
          exact ConnKind.noConfusion)
        rw [removed.store, letGo_child different]
        show unlinkStaged _ _ (r.heap c).upPath = _
        rw [plain]
        rfl
      refine (apart.trans closed).trans
        (finishUpload_holds (consistent.orphan alive owned a.sys) unlinks ?_)
      have given := renames o owned
      unfold Renames Adopts Declares at given ⊢
      rw [atOwner, store]
      exact given

theorem importChildEvent_holds (consistent : Consistent r) (alive : r.Live c)
    (importer : (r.heap c).kind = .importChild) (unlinks : sys.Unlinks) :
    Holds r (r.importChildEvent sys c) := by
  have reaped : Holds r (r.reapImporter c) :=
    holds_of_records (fun _ => id) (fun _ _ => rfl) rfl (StagingKept.refl _)
  have consistent : Consistent (r.reapImporter c) := (consistent.withLog _).withImportRunning _
  rw [importChildEvent_eq]
  refine reaped.trans (connClose_holds consistent (Or.inl ⟨alive, consistent.ownerless alive ?_⟩)
    fun path _ => unlinks path)
  show (r.heap c).kind ≠ .hashChild
  rw [importer]
  exact ConnKind.noConfusion

/-! ## Events -/

/-- What a client sent, or that it can be written to. -/
theorem clientEvent_staged {conf : Conf} (staged : Staged r) (serving : Serving p r)
    {ready : Ready} {calls : EventCalls} (unlinks : (Step.event calls).Unlinks)
    (silent : r.Silent (p, ready) calls) : Staged (r.clientEvent conf p ready calls) := by
  have answers : calls.answers.sys.Unlinks := unlinks _ List.mem_cons_self
  have reads : ∀ read ∈ calls.reads, read.2.sys.Unlinks := by
    intro read member
    exact unlinks read.2 (List.mem_cons_of_mem _ (List.mem_map_of_mem member))
  have entered : Serving p (r.enter p) := serving.withLog _
  have enteredStaged : Staged (r.enter p) := (enter_holds r p).keeps staged
  unfold clientEvent
  dsimp only
  split
  next => exact (serving.connClose_holds answers).keeps staged
  next present =>
    generalize reading : (if ready.readable then handleRead conf p calls.reads (r.enter p) else r)
      = read
    have kept : Staged read ∧ Served p read ∧ read.allocated p = true := by
      rw [← reading]
      split
      next readable =>
        have handled := @handleRead_handles (fun a => a.sys.Unlinks) False conf p (r.enter p) _
          reads False.elim
        refine ⟨?_, handled.served entered, handled.proceeds.allocated p serving.alive.1⟩
        by_cases unstaged : Unstaged p r
        · exact handled.staged entered unstaged enteredStaged
        · -- The connection waits for its hash child or is answered, and holds a file.
          obtain ⟨other, holds⟩ := Classical.not_imp.mp unstaged
          have nothing := silent serving.client readable (Bool.eq_false_iff.mpr present) other holds
          rcases @handleRead_silent (r.enter p) p conf _ nothing with same | ⟨read, member, closed⟩
          · rw [same]
            exact enteredStaged
          · rw [closed]
            exact (entered.connClose_holds (reads read member)).keeps enteredStaged
      next => exact ⟨staged, serving.served, serving.alive.1⟩
    split
    next writing =>
      have client := kept.2.1.kind.resolve_right writing.1
      have still : Serving p read :=
        ⟨kept.2.1.consistent, live_of_kind kept.2.2 client ConnKind.noConfusion, client⟩
      have writes : Serving p (read.enter p) := still.withLog _
      have wrote := handleWrite_holds writes answers calls.answers.now calls.writes
      exact wrote.keeps ((enter_holds read p).keeps kept.1)
    next => exact kept.1

/-- Every event that releases what it must keeps the staging files with their holders. -/
theorem dispatchEvent_staged {conf : Conf} (staged : Staged r) (consistent : Consistent r)
    (allocated : r.allocated p = true) {ready : Ready} {calls : EventCalls}
    (unlinks : (Step.event calls).Unlinks) (silent : r.Silent (p, ready) calls)
    (renames : r.Finishes (p, ready) calls) : Staged (dispatchEvent conf r p ready calls) := by
  have answers : calls.answers.sys.Unlinks := unlinks _ List.mem_cons_self
  unfold dispatchEvent
  rw [touch_of_allocated allocated]
  dsimp only
  split
  next => exact staged
  next =>
    have entered : Consistent (r.enter p) := consistent.withLog _
    exact (acceptLoop_holds entered).keeps ((enter_holds r p).keeps staged)
  next kind =>
    exact (hashChildEvent_holds consistent (live_of_kind allocated kind ConnKind.noConfusion)
      answers (renames kind)).keeps staged
  next kind =>
    exact (importChildEvent_holds consistent (live_of_kind allocated kind ConnKind.noConfusion)
      kind answers).keeps staged
  next kind =>
    exact clientEvent_staged staged
      ⟨consistent, live_of_kind allocated kind ConnKind.noConfusion, kind⟩ unlinks silent

end Assignments

/-! ## Runs -/

section Runs

variable {r after : Reactor} {conf : Conf}

theorem Sweeps.staged {sys : Sys} {now : Int} {nodes : List Ptr}
    (sweeps : Sweeps sys now nodes r after) (ahead : Ahead r nodes) (unlinks : sys.Unlinks)
    (staged : Staged r) : Staged after := by
  induction sweeps with
  | done => exact staged
  | spares _ _ inductionHypothesis => exact inductionHypothesis ahead.spare staged
  | closes alive stalled _ inductionHypothesis =>
      have serving : Serving _ _ := ⟨ahead.consistent, alive, stalled.1⟩
      exact inductionHypothesis (ahead.close stalled.1 sys)
        ((serving.connClose_holds unlinks).keeps staged)

theorem Consistent.drainPendingFree_holds (consistent : Consistent r) :
    Holds r r.drainPendingFree := by
  obtain ⟨conns, pend, linked⟩ := consistent.lists
  exact holds_of_records (fun q => (drainPendingFree_live linked).mpr) (fun _ _ => rfl) rfl
    (StagingKept.refl _)

theorem withBatch_holds (r : Reactor) (waiting : Bool) (batch : List (Ptr × Ready)) :
    Holds r { r with waiting := waiting, batch := batch } :=
  holds_of_records (fun _ => id) (fun _ _ => rfl) rfl (StagingKept.refl _)

/-- Other processes leave the staging files of this one alone. -/
theorem disturbed_staged (staged : Staged r) (files : Files) :
    Staged (r.withStore (r.store.withFiles (disturbed r.store files))) where
  named := staged.named
  held p path member present := by
    obtain ⟨counter, _, rfl⟩ := staged.named p path member
    apply staged.held p _ member
    have own : disturbed r.store files (.tmp (.up r.store.pid counter)) =
        r.store.files (.tmp (.up r.store.pid counter)) := if_pos rfl
    rw [← own]
    exact present

theorem step_staged (tidy : Tidy r) (staged : Staged r) {s : Step} (unlinks : s.Unlinks)
    (releases : r.Releases s) : Staged (step conf r s) := by
  unfold step
  split
  next => exact staged
  next =>
    cases s with
    | wait batch =>
        dsimp only
        split
        next => exact (withBatch_holds r false batch).keeps staged
        next => exact staged
    | event calls =>
        dsimp only
        split
        next => exact staged
        next p ready rest batch =>
          have allocated : r.allocated p = true :=
            tidy.batch (p, ready) (by rw [batch]; exact List.mem_cons_self)
          obtain ⟨silent, finishes⟩ := releases (p, ready) (by rw [batch]; rfl)
          exact dispatchEvent_staged ((withBatch_holds r r.waiting rest).keeps staged)
            (tidy.consistent.withBatch r.waiting rest) allocated unlinks silent finishes
    | finish sys now =>
        dsimp only
        split
        next =>
          obtain ⟨conns, pend, linked⟩ := tidy.consistent.lists
          obtain ⟨ahead, sweeps, _⟩ := sweepTimeouts_sweeps tidy.consistent linked sys now
          have consistent := (sweeps.swept ahead).consistent
          have swept := sweeps.staged ahead unlinks staged
          exact (withBatch_holds _ true _).keeps (consistent.drainPendingFree_holds.keeps swept)
        next => exact staged
    | outside files => exact disturbed_staged staged files

theorem start_staged (st : Store) (now : Int) : Staged (start st now) where
  named _ _ member := absurd member List.not_mem_nil
  held _ _ member := absurd member List.not_mem_nil

/-- No upload leaks its staging file: in every state of a run whose steps release the
staging files, none is in the tree that was made for a connection that was closed. -/
theorem staging_files_released (conf : Conf) (st : Store) (now : Int) (steps : List Step)
    (legal : Along Legal (step conf) (start st now) steps)
    (unlinks : ∀ s ∈ steps, s.Unlinks)
    (releases : Along Releases (step conf) (start st now) steps) :
    LeavesNothing (run (step conf) (start st now) steps) := by
  have removing := @along_of_forall _ _ (fun _ s => Step.Unlinks s) (step conf) (start st now)
    steps fun s member _ => unlinks s member
  have kept : Tidy (run (step conf) (start st now) steps) ∧
      Staged (run (step conf) (start st now) steps) := by
    apply run_invariant (motive := fun r => Tidy r ∧ Staged r) _
      ⟨start_tidy st now, start_staged st now⟩ (legal.and (removing.and releases))
    intro r s kept allowed
    exact ⟨step_tidy kept.1 allowed.1, step_staged kept.1 kept.2 allowed.2.1 allowed.2.2⟩
  intro p path member closed
  by_contra present
  exact closed (kept.2.held p path member (Option.isSome_iff_ne_none.mpr present)).1

end Runs

end Reactor

/-! ### An upload that is published -/

/-- The hash child of the first client wrote this, and the client hung up. -/
def Step.hashed (a : CallResults) (output : Bytes) : List Step :=
  [.wait [(2, .input)], .event { EventCalls.answered a with output := output },
    .finish (Sys.succeeding fun _ => none) 0, .wait [(1, ⟨false, false, true⟩)],
    .event (EventCalls.answered (.succeeding 0)), .finish (Sys.succeeding fun _ => none) 0]

/-- What `sha256sum` writes of the body of the upload. -/
def uploadDigest : Bytes :=
  ascii "ca978112ca1bbdcafac231b39a23dc4da786eff8147c4e72b9807785afee48bb  a"

def uploadPublished : List Step := uploaded ++ Step.hashed (.succeeding 0) uploadDigest

theorem uploadPublished_staged :
    (Along Reactor.Legal (Reactor.step Conf.sample) (Reactor.start (Store.holding [] []) 0)
        uploadPublished ∧
      Along Reactor.Releases (Reactor.step Conf.sample) (Reactor.start (Store.holding [] []) 0)
        uploadPublished) ∧
      (1, Path.tmp (.up 1 0)) ∈ (Reactor.after uploadPublished).log.staged ∧
        ¬(Reactor.after uploadPublished).Live 1 := by
  decide +kernel

/-- The staging file of the upload is gone. -/
theorem upload_released :
    (Reactor.after uploadPublished).store.files (.tmp (.up 1 0)) = none := by
  have unlinks : ∀ s ∈ uploadPublished, s.Unlinks := by
    simp [uploadPublished, uploaded, Reactor.receiving, Step.acceptedClient, Step.sent,
      Step.hashed, Step.Unlinks, Step.answers, EventCalls.answered, CallResults.succeeding,
      Sys.Unlinks, Sys.succeeding]
  obtain ⟨⟨legal, releases⟩, staged, closed⟩ := uploadPublished_staged
  have released := Reactor.staging_files_released Conf.sample (Store.holding [] []) 0
    uploadPublished legal unlinks releases
  rw [Reactor.after_eq] at released
  exact released 1 _ staged closed

/-! ### A staging file that cannot be renamed -/

/-- Every call but `rename` succeeds. -/
def CallResults.unrenamed : CallResults :=
  { CallResults.succeeding 0 with
    sys := { Sys.succeeding fun _ => none with
      allows := fun
        | .rename _ _ => false
        | _ => true } }

def uploadUnadopted : List Step := uploaded ++ Step.hashed .unrenamed uploadDigest

/-- A second upload arrives on the connection of the first. -/
def uploadedAgain : List Step :=
  hashedAgain ++ [.wait [(1, ⟨false, false, true⟩)],
    .event (EventCalls.answered (.succeeding 0)), .finish (Sys.succeeding fun _ => none) 0]

theorem uploadUnadopted_left :
    Along Reactor.Legal (Reactor.step Conf.sample) (Reactor.start (Store.holding [] []) 0)
        uploadUnadopted ∧
      (1, Path.tmp (.up 1 0)) ∈ (Reactor.after uploadUnadopted).log.staged ∧
        ¬(Reactor.after uploadUnadopted).Live 1 ∧
          (Reactor.after uploadUnadopted).store.files (.tmp (.up 1 0)) ≠ none := by
  decide +kernel

theorem uploadedAgain_left :
    Along Reactor.Legal (Reactor.step Conf.sample) (Reactor.start (Store.holding [] []) 0)
        uploadedAgain ∧
      (1, Path.tmp (.up 1 0)) ∈ (Reactor.after uploadedAgain).log.staged ∧
        ¬(Reactor.after uploadedAgain).Live 1 ∧
          (Reactor.after uploadedAgain).store.files (.tmp (.up 1 0)) ≠ none := by
  decide +kernel

/-- The staging file of an upload that cannot be renamed stays, and so does the first of
two that one connection was given. -/
theorem staging_file_left :
    (Along Reactor.Legal (Reactor.step Conf.sample) (Reactor.start (Store.holding [] []) 0)
        uploadUnadopted ∧
      ¬Reactor.LeavesNothing (Reactor.after uploadUnadopted)) ∧
      Along Reactor.Legal (Reactor.step Conf.sample) (Reactor.start (Store.holding [] []) 0)
          uploadedAgain ∧
        ¬Reactor.LeavesNothing (Reactor.after uploadedAgain) := by
  obtain ⟨legal, staged, closed, left⟩ := uploadUnadopted_left
  obtain ⟨againLegal, againStaged, againClosed, againLeft⟩ := uploadedAgain_left
  exact ⟨⟨legal, fun nothing => left (nothing 1 _ staged closed)⟩,
    againLegal, fun nothing => againLeft (nothing 1 _ againStaged againClosed)⟩

end CixCache
