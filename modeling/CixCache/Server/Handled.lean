import CixCache.Server.Bookkeeping

/-!
Contract: everything the handling of an input event on one connection can do.

Owns: `StagingKept`, for the operations of the store; `Local`, a change of one record and
the store; `Handles`, the ways a handler can go on and end, and that `handleRead` and the
handlers behind it are among them.

Does not own: what is kept by it.
-/

namespace CixCache

open CixCache.Lib

/-! ## Staging files and the store -/

/-- Staging files stay or go, and none appears. -/
structure StagingKept (st after : Store) : Prop where
  pid : after.pid = st.pid
  counter : st.tmpCounter ≤ after.tmpCounter
  files : ∀ pid counter, (after.files (.tmp (.up pid counter))).isSome →
    (st.files (.tmp (.up pid counter))).isSome

section Staging

variable {sys : Sys} {st mid after : Store}

theorem StagingKept.refl (st : Store) : StagingKept st st :=
  ⟨rfl, Nat.le_refl _, fun _ _ present => present⟩

theorem StagingKept.trans (first : StagingKept st mid) (second : StagingKept mid after) :
    StagingKept st after where
  pid := second.pid.trans first.pid
  counter := Nat.le_trans first.counter second.counter
  files pid counter present := first.files pid counter (second.files pid counter present)

theorem stagingKept_unlink (sys : Sys) (st : Store) (path : Path) :
    StagingKept st (st.withFiles (unlink sys st.files path).1) := by
  refine ⟨rfl, Nat.le_refl _, ?_⟩
  intro pid counter present
  rw [Store.withFiles_files] at present
  rcases unlink_files sys st.files path with same | removed
  · rwa [same] at present
  · rw [removed, Function.update_apply] at present
    split at present
    next => contradiction
    next => exact present

theorem stagingKept_append {path : Path} {bytes : Bytes} {files : Files}
    (written : append sys st.files path bytes = some files) :
    StagingKept st (st.withFiles files) := by
  obtain ⟨content, found, rfl⟩ := append_eq_some written
  refine ⟨rfl, Nat.le_refl _, ?_⟩
  intro pid counter present
  rw [Store.withFiles_files, Function.update_apply] at present
  split at present
  next here =>
    rw [here, found]
    rfl
  next => exact present

theorem unpublishEntry_stagingKept (sys : Sys) (st : Store) (path : Path) (sigGone : Bool) :
    StagingKept st (unpublishEntry sys st path sigGone).store := by
  have kept := stagingKept_unlink sys st path
  unfold unpublishEntry
  split
  all_goals
    next _ _ same => rwa [same] at kept

theorem storeUnpublish_stagingKept (sys : Sys) (st : Store) (name : Bytes) :
    StagingKept st (storeUnpublish sys st name).store := by
  unfold storeUnpublish
  split
  next => exact StagingKept.refl st
  next =>
    split
    next => exact StagingKept.refl st
    next path _ =>
      split
      next => exact unpublishEntry_stagingKept sys st path false
      next sigPath _ =>
        have kept := stagingKept_unlink sys st sigPath
        split
        next files same =>
          rw [same] at kept
          exact kept.trans (unpublishEntry_stagingKept sys _ path true)
        next files same =>
          rw [same] at kept
          exact kept.trans (unpublishEntry_stagingKept sys _ path false)
        next files same =>
          rw [same] at kept
          exact kept

theorem sweepBlobs_stagingKept (sys : Sys) (dryRun : Bool) (live names : List Bytes) (st : Store)
    (report : GcReport) : StagingKept st (sweepBlobs sys dryRun live names st report).1 := by
  induction names generalizing st report with
  | nil => exact StagingKept.refl st
  | cons name rest inductionHypothesis =>
      rw [sweepBlobs]
      split
      next => exact inductionHypothesis st report
      next =>
        split
        next => exact inductionHypothesis st report
        next =>
          cases blobPath st.root name with
          | none => exact inductionHypothesis st report
          | some path =>
              have kept := stagingKept_unlink sys st path
              dsimp only
              split
              next => exact inductionHypothesis st _
              next =>
                split
                next files same =>
                  rw [same] at kept
                  exact kept.trans (inductionHypothesis _ _)
                next files _ _ same =>
                  rw [same] at kept
                  exact kept.trans (inductionHypothesis _ _)

theorem storeGc_stagingKept (sys : Sys) (st : Store) (dryRun : Bool) :
    StagingKept st (storeGc sys st dryRun).1 := by
  unfold storeGc
  split
  next => exact StagingKept.refl st
  next =>
    split
    next => exact StagingKept.refl st
    next => exact sweepBlobs_stagingKept _ _ _ _ _ _

theorem publishLink_counter (sys : Sys) (st : Store) (path : Path) (digest : Bytes) :
    (publishLink sys st path digest).1.pid = st.pid ∧
      st.tmpCounter ≤ (publishLink sys st path digest).1.tmpCounter := by
  unfold publishLink
  split
  next => exact ⟨rfl, Nat.le_refl _⟩
  next =>
    dsimp only
    split
    next => exact ⟨rfl, Nat.le_succ _⟩
    next => split <;> exact ⟨rfl, Nat.le_succ _⟩

theorem storePublish_stagingKept (sys : Sys) (st : Store) (name digest : Bytes) :
    StagingKept st (storePublish sys st name digest).1 := by
  have counted : (storePublish sys st name digest).1.pid = st.pid ∧
      st.tmpCounter ≤ (storePublish sys st name digest).1.tmpCounter := by
    unfold storePublish
    repeat' split
    all_goals first
      | exact ⟨rfl, Nat.le_refl _⟩
      | exact publishLink_counter _ _ _ _
  refine ⟨counted.1, counted.2, ?_⟩
  intro pid counter present
  have same := @storePublish_tmp sys st name digest (.up pid counter) TmpName.noConfusion
  show (tmpOf st.files (.up pid counter)).isSome
  rw [← same]
  exact present

theorem deleteArtifact_stagingKept (conf : Conf) (sys : Sys) (st : Store) (req : HttpRequest)
    (name : Bytes) : StagingKept st (Response.deleteArtifact conf sys st req name).1 := by
  unfold Response.deleteArtifact
  split
  next => exact StagingKept.refl st
  next =>
    have kept := storeUnpublish_stagingKept sys st name
    dsimp only
    split
    next => exact kept
    next => exact kept

theorem apiGc_stagingKept (sys : Sys) (st : Store) (dryRun : Bool) :
    StagingKept st (Response.apiGc sys st dryRun).1 := by
  have kept := storeGc_stagingKept sys st dryRun
  unfold Response.apiGc
  split
  next swept same =>
    rw [same] at kept
    exact kept
  next swept report same =>
    rw [same] at kept
    exact kept

/-- Routing withdraws and collects, and makes nothing. -/
theorem route_stagingKept (conf : Conf) (a : CallResults) (st : Store) (req : HttpRequest) :
    StagingKept st (route conf a st req).1 := by
  unfold route
  cases dispatchPath req with
  | none => exact StagingKept.refl st
  | some path =>
      dsimp only
      split_ifs
      next =>
        unfold Routed.dispatchArtifact
        split_ifs
        next => exact StagingKept.refl st
        next => exact StagingKept.refl st
        next => exact StagingKept.refl st
        next => exact deleteArtifact_stagingKept conf a.sys st req _
        next => exact StagingKept.refl st
      next => exact StagingKept.refl st
      next =>
        unfold Routed.dispatchApi
        dsimp only
        split_ifs
        all_goals
          first
            | exact StagingKept.refl st
            | exact apiGc_stagingKept a.sys st _
      next => exact StagingKept.refl st
      next => exact StagingKept.refl st

theorem unlinkStaged_stagingKept (sys : Sys) (st : Store) (upPath : Option Path) :
    StagingKept st (Reactor.unlinkStaged sys st upPath) := by
  cases upPath with
  | none => exact StagingKept.refl st
  | some path => exact stagingKept_unlink sys st path

theorem storeBlobAdopt_stagingKept (sys : Sys) (st : Store) (path : Path) (digest : Bytes) :
    StagingKept st (storeBlobAdopt sys st path digest).1 := by
  unfold storeBlobAdopt
  split
  next => exact StagingKept.refl st
  next =>
    split
    next => exact StagingKept.refl st
    next blob located =>
      split
      next => exact stagingKept_unlink sys st path
      next =>
        split
        next => exact StagingKept.refl st
        next files renamed =>
          obtain ⟨node, _, rfl⟩ := rename_eq_some renamed
          refine ⟨rfl, Nat.le_refl _, ?_⟩
          intro pid counter present
          rw [Store.withFiles_files, blobPath_eq_some located,
            Function.update_of_ne Path.noConfusion, Function.update_apply] at present
          split at present
          next => contradiction
          next => exact present

theorem adoptStaged_stagingKept (sys : Sys) (st : Store) (upPath : Option Path) (digest : Bytes) :
    StagingKept st (Reactor.adoptStaged sys st upPath digest).1 := by
  unfold Reactor.adoptStaged
  split
  next => exact storeBlobAdopt_stagingKept sys st _ digest
  next =>
    split
    next => exact StagingKept.refl st
    next => split <;> exact StagingKept.refl st

theorem adoptUpload_stagingKept (sys : Sys) (st : Store) (upPath : Option Path)
    (name digest : Bytes) : StagingKept st (Reactor.adoptUpload sys st upPath name digest).1 := by
  have adopted := adoptStaged_stagingKept sys st upPath digest
  unfold Reactor.adoptUpload
  split
  next _ _ same =>
    rw [same] at adopted
    exact adopted
  next _ same =>
    rw [same] at adopted
    exact adopted.trans (storePublish_stagingKept sys _ name digest)

/-- The end of an upload makes no staging file. -/
theorem commitUpload_stagingKept (sys : Sys) (st : Store) (upPath : Option Path)
    (name digest : Bytes) : StagingKept st (Reactor.commitUpload sys st upPath name digest).1 := by
  unfold Reactor.commitUpload
  split
  next =>
    split
    next => exact unlinkStaged_stagingKept sys st upPath
    next => exact adoptUpload_stagingKept sys st upPath name digest
  next => exact adoptUpload_stagingKept sys st upPath name digest
  next => exact unlinkStaged_stagingKept sys st upPath

end Staging

/-! ## What a handler can do -/

namespace Reactor

/-- Fields of one record change, and the store, with nothing staged. The record stays in
its state, unless its header was sent. -/
structure Local (p : Ptr) (r after : Reactor) : Prop where
  others : ∀ q, q ≠ p → after.heap q = r.heap q
  kind : (after.heap p).kind = (r.heap p).kind
  state : (after.heap p).state = (r.heap p).state ∨
    (r.heap p).state = .sendHeader ∧ (after.heap p).state = .sendBody
  next : (after.heap p).next = (r.heap p).next
  owner : (after.heap p).owner = (r.heap p).owner
  child : (after.heap p).child = (r.heap p).child
  childPid : (after.heap p).childPid = (r.heap p).childPid
  upPath : (after.heap p).upPath = (r.heap p).upPath ∨
    (r.heap p).state ≠ .recvBody ∧ (after.heap p).upPath = none
  allocated : after.allocated = r.allocated
  fresh : after.fresh = r.fresh
  conns : after.conns = r.conns
  pendingFree : after.pendingFree = r.pendingFree
  interest : after.interest = r.interest
  importRunning : after.importRunning = r.importRunning
  waiting : after.waiting = r.waiting
  batch : after.batch = r.batch
  log : after.log = r.log
  store : StagingKept r.store after.store

/-- A staging file is created for a record, which waits for its body. -/
structure Stages (p : Ptr) (r after : Reactor) : Prop where
  others : ∀ q, q ≠ p → after.heap q = r.heap q
  kind : (after.heap p).kind = (r.heap p).kind
  before : (r.heap p).state ≠ .recvBody
  state : (after.heap p).state = .recvBody
  next : (after.heap p).next = (r.heap p).next
  owner : (after.heap p).owner = (r.heap p).owner
  child : (after.heap p).child = (r.heap p).child
  childPid : (after.heap p).childPid = (r.heap p).childPid
  upPath : (after.heap p).upPath = some (.tmp (.up r.store.pid r.store.tmpCounter))
  allocated : after.allocated = r.allocated
  fresh : after.fresh = r.fresh
  conns : after.conns = r.conns
  pendingFree : after.pendingFree = r.pendingFree
  interest : after.interest = r.interest
  importRunning : after.importRunning = r.importRunning
  waiting : after.waiting = r.waiting
  batch : after.batch = r.batch
  log : after.log =
    { r.log with staged := (p, .tmp (.up r.store.pid r.store.tmpCounter)) :: r.log.staged }
  pid : after.store.pid = r.store.pid
  counter : after.store.tmpCounter = r.store.tmpCounter + 1
  files : ∀ pid counter, ¬(pid = r.store.pid ∧ counter = r.store.tmpCounter) →
    (after.store.files (.tmp (.up pid counter))).isSome →
      (r.store.files (.tmp (.up pid counter))).isSome

/-- A response is begun, or the connection is closed instead. -/
inductive Responds (a : CallResults) (p : Ptr) (r : Reactor) : Reactor → Prop
  | sends {mid : Reactor} (change : Local p r mid) (text : Bytes)
      (kept : (mid.heap p).upPath = (r.heap p).upPath) : Responds a p r (mid.sendHeader a p text)
  | closes {mid : Reactor} (change : Local p r mid)
      (kept : (mid.heap p).upPath = (r.heap p).upPath) : Responds a p r (mid.connClose a.sys p)

/-- A record that waits for input: the body is not complete, or no request is. -/
def Waits (r : Reactor) (p : Ptr) : Prop :=
  ((r.heap p).state = .recvBody → (r.heap p).upReceived < (r.heap p).upExpect) ∧
    ((r.heap p).state ≠ .recvBody → ∀ req, httpConnTryParse (r.heap p).http ≠ .complete req)

/-- The ways the handling of input can go on and end. `settled` says that the record
waited for input when the event came. -/
inductive Handles (allowed : CallResults → Prop) (settled : Prop) (p : Ptr) :
    Reactor → Reactor → Prop
  | done {r : Reactor} (waits : settled → r.Waits p) : Handles allowed settled p r r
  | changes {r mid after : Reactor} (change : Local p r mid)
      (rest : Handles allowed settled p mid after) : Handles allowed settled p r after
  | stages {r mid after : Reactor} (staged : Stages p r mid)
      (rest : Handles allowed settled p mid after) : Handles allowed settled p r after
  | reaps {r after : Reactor}
      (rest : Handles allowed settled p (r.forkHasher.waitpid r.log.nextPid) after) :
      Handles allowed settled p r after
  | untracked {r after : Reactor} (a : CallResults) (permitted : allowed a)
      (failed : a.opensPidfd .importChild = false ∨ a.allocates .importChild = false)
      (rest : Handles allowed settled p r.forkImporter after) : Handles allowed settled p r after
  | imports {r after : Reactor} (a : CallResults) (permitted : allowed a)
      (idle : r.importRunning = false)
      (rest : Handles allowed settled p (r.forkImporter.watchImporter a r.log.nextPid) after) :
      Handles allowed settled p r after
  | hashes {r : Reactor} (a : CallResults) (permitted : allowed a)
      (state : (r.heap p).state = .recvBody) (registered : a.registers .hashChild = true) :
      Handles allowed settled p r
        ((r.forkHasher.linkHashChild a p r.log.nextPid).epollAdd r.fresh .input)
  | unwatched {r after : Reactor} (a : CallResults) (permitted : allowed a)
      (state : (r.heap p).state = .recvBody) (failed : a.registers .hashChild = false)
      (answered : Responds a p (r.forkHasher.linkHashChild a p r.log.nextPid) after) :
      Handles allowed settled p r after
  | answers {r after : Reactor} (a : CallResults) (permitted : allowed a)
      (answered : Responds a p r after) : Handles allowed settled p r after

/-! ## The handlers -/

section Handlers

variable {allowed : CallResults → Prop} {settled : Prop} {conf : Conf} {a : CallResults} {p : Ptr}
  {r mid after : Reactor}

theorem Local.refl (p : Ptr) (r : Reactor) : Local p r r where
  others _ _ := rfl
  kind := rfl
  state := Or.inl rfl
  next := rfl
  owner := rfl
  child := rfl
  childPid := rfl
  upPath := Or.inl rfl
  allocated := rfl
  fresh := rfl
  conns := rfl
  pendingFree := rfl
  interest := rfl
  importRunning := rfl
  waiting := rfl
  batch := rfl
  log := rfl
  store := StagingKept.refl _

theorem Local.state_eq (change : Local p r after) (other : (r.heap p).state ≠ .sendHeader) :
    (after.heap p).state = (r.heap p).state :=
  change.state.resolve_right fun sent => other sent.1

theorem Local.trans (first : Local p r mid) (second : Local p mid after) : Local p r after where
  others q different := (second.others q different).trans (first.others q different)
  kind := second.kind.trans first.kind
  state := by
    rcases first.state with same | sent
    · rw [← same]
      exact second.state
    · refine Or.inr ⟨sent.1, ?_⟩
      rw [second.state_eq (by rw [sent.2]; exact ConnPhase.noConfusion), sent.2]
  next := second.next.trans first.next
  owner := second.owner.trans first.owner
  child := second.child.trans first.child
  childPid := second.childPid.trans first.childPid
  upPath := by
    rcases second.upPath with same | dropped
    · rw [same]
      exact first.upPath
    · refine Or.inr ⟨?_, dropped.2⟩
      intro receiving
      have still := first.state_eq (by rw [receiving]; exact ConnPhase.noConfusion)
      exact dropped.1 (still.trans receiving)
  allocated := second.allocated.trans first.allocated
  fresh := second.fresh.trans first.fresh
  conns := second.conns.trans first.conns
  pendingFree := second.pendingFree.trans first.pendingFree
  interest := second.interest.trans first.interest
  importRunning := second.importRunning.trans first.importRunning
  waiting := second.waiting.trans first.waiting
  batch := second.batch.trans first.batch
  log := second.log.trans first.log
  store := first.store.trans second.store

/-- A change of fields that tie the record to nothing else. -/
theorem local_modify (r : Reactor) (p : Ptr) (change : Record → Record)
    (same : ∀ cc, (change cc).kind = cc.kind ∧ (change cc).state = cc.state ∧
      (change cc).next = cc.next ∧ (change cc).owner = cc.owner ∧ (change cc).child = cc.child ∧
      (change cc).childPid = cc.childPid ∧ (change cc).upPath = cc.upPath) :
    Local p r (r.modify p change) where
  others _ different := modify_of_ne r change different
  kind := by
    rw [modify_self]
    exact (same _).1
  state := by
    rw [modify_self]
    exact Or.inl (same _).2.1
  next := by
    rw [modify_self]
    exact (same _).2.2.1
  owner := by
    rw [modify_self]
    exact (same _).2.2.2.1
  child := by
    rw [modify_self]
    exact (same _).2.2.2.2.1
  childPid := by
    rw [modify_self]
    exact (same _).2.2.2.2.2.1
  upPath := by
    rw [modify_self]
    exact Or.inl (same _).2.2.2.2.2.2
  allocated := rfl
  fresh := rfl
  conns := rfl
  pendingFree := rfl
  interest := rfl
  importRunning := rfl
  waiting := rfl
  batch := rfl
  log := rfl
  store := StagingKept.refl _

theorem local_store (p : Ptr) {st : Store} (kept : StagingKept r.store st) :
    Local p r (r.withStore st) :=
  { Local.refl p r with store := kept }

theorem beginResponse_responds (change : Local p r mid)
    (kept : (mid.heap p).upPath = (r.heap p).upPath) (status : Nat) (contentType extra : Bytes)
    (contentLength : Nat) :
    Responds a p r (mid.beginResponse a p status contentType extra contentLength) := by
  unfold beginResponse
  cases httpFormatHeader status contentType contentLength extra with
  | none => exact .closes change kept
  | some text => exact .sends change text kept

/-- A response is begun behind an assignment to the fields it is sent from. -/
theorem modified_responds (r : Reactor) (a : CallResults) (p : Ptr) {change : Record → Record}
    (same : ∀ cc, (change cc).kind = cc.kind ∧ (change cc).state = cc.state ∧
      (change cc).next = cc.next ∧ (change cc).owner = cc.owner ∧ (change cc).child = cc.child ∧
        (change cc).childPid = cc.childPid ∧ (change cc).upPath = cc.upPath)
    (status : Nat) (contentType extra : Bytes) (contentLength : Nat) :
    Responds a p r
      ((r.modify p change).beginResponse a p status contentType extra contentLength) := by
  apply beginResponse_responds (local_modify r p change same)
  rw [modify_self]
  exact (same _).2.2.2.2.2.2

theorem respondBuffer_responds (r : Reactor) (a : CallResults) (p : Ptr) (status : Nat)
    (contentType body : Bytes) : Responds a p r (r.respondBuffer a p status contentType body) := by
  unfold respondBuffer
  apply modified_responds
  exact fun _ => ⟨rfl, rfl, rfl, rfl, rfl, rfl, rfl⟩

theorem respond_responds (r : Reactor) (a : CallResults) (p : Ptr) (response : Response) :
    Responds a p r (r.respond a p response) := by
  unfold respond
  cases response with
  | error status message =>
      dsimp only
      unfold respondError
      split
      next => exact respondBuffer_responds _ _ _ _ _ _
      next => exact .closes (Local.refl p r) rfl
  | json body =>
      dsimp only
      unfold respondJson
      split
      next => exact respondBuffer_responds _ _ _ _ _ _
      next => exact .closes (Local.refl p r) rfl
  | page contentType content => exact respondBuffer_responds _ _ _ _ _ _
  | bare contentType extra contentLength =>
      apply modified_responds
      exact fun _ => ⟨rfl, rfl, rfl, rfl, rfl, rfl, rfl⟩
  | blob contentType extra content =>
      apply modified_responds
      exact fun _ => ⟨rfl, rfl, rfl, rfl, rfl, rfl, rfl⟩
  | plain status => exact beginResponse_responds (Local.refl p r) rfl _ _ _ _

theorem handles_respond (permitted : allowed a) (response : Response) :
    Handles allowed settled p r (r.respond a p response) :=
  .answers a permitted (respond_responds r a p response)

theorem startHashChild_handles (permitted : allowed a) (state : (r.heap p).state = .recvBody) :
    Handles allowed settled p r (r.startHashChild a p) := by
  have change : Local p r (r.modify p Record.complete) :=
    local_modify r p Record.complete fun _ => ⟨rfl, rfl, rfl, rfl, rfl, rfl, rfl⟩
  refine .changes change ?_
  unfold startHashChild
  dsimp only
  split
  next => exact handles_respond permitted _
  next =>
    split
    next => exact handles_respond permitted _
    next =>
      split
      next => exact .reaps (handles_respond permitted _)
      next =>
        split
        next => exact .reaps (handles_respond permitted _)
        next =>
          have still : ((r.modify p Record.complete).heap p).state = .recvBody := by
            rw [modify_self]
            exact state
          split
          next registered => exact .hashes a permitted still registered
          next failed =>
            exact .unwatched a permitted still (Bool.eq_false_iff.mpr failed)
              (respond_responds _ _ _ _)

theorem hashWhenComplete_handles (permitted : allowed a) (state : (r.heap p).state = .recvBody) :
    Handles allowed settled p r (r.hashWhenComplete a p) := by
  unfold hashWhenComplete
  split
  next => exact startHashChild_handles permitted state
  next missing =>
    refine .done fun _ => ⟨fun _ => Nat.lt_of_not_le missing, ?_⟩
    intro other
    exact absurd state other

/-- The record once its staging file is open. -/
theorem stages_opened (r : Reactor) (p : Ptr) (name digest : Bytes) (expect : Nat)
    (before : (r.heap p).state ≠ .recvBody) {made : Files}
    (creates : create a.sys r.store.files (storeTmpPath r.store).1 = some made) :
    let named := (r.withStore (storeTmpPath r.store).2).modify p fun cc =>
      cc.naming (storeTmpPath r.store).1 name digest expect
    Stages p r (((named.withStore ((storeTmpPath r.store).2.withFiles made)).created p
      (storeTmpPath r.store).1).modify p Record.receiving) := by
  have atRecord : ∀ named : Reactor, (((named.withStore
      ((storeTmpPath r.store).2.withFiles made)).created p (storeTmpPath r.store).1).modify p
      Record.receiving).heap p = (named.heap p).receiving :=
    fun named => modify_self _ _ _
  dsimp only
  refine ⟨?_, ?_, before, ?_, ?_, ?_, ?_, ?_, ?_, rfl, rfl, rfl, rfl, rfl, rfl, rfl, rfl, rfl, rfl,
    rfl, ?_⟩
  · intro q different
    rw [modify_of_ne _ _ different, created_heap, withStore_heap, modify_of_ne _ _ different,
      withStore_heap]
  all_goals try rw [atRecord, modify_self]; rfl
  · intro pid counter other present
    obtain rfl := create_eq_some creates
    have elsewhere : Path.tmp (.up pid counter) ≠ (storeTmpPath r.store).1 := by
      intro same
      apply other
      simpa [storeTmpPath] using same
    have files : Function.update r.store.files (storeTmpPath r.store).1 (some (.regular []))
        (.tmp (.up pid counter)) = r.store.files (.tmp (.up pid counter)) :=
      Function.update_of_ne elsewhere _ _
    rw [← files]
    exact present

theorem stageUpload_handles (permitted : allowed a) (before : (r.heap p).state ≠ .recvBody)
    (req : HttpRequest) (name digest : Bytes) :
    Handles allowed settled p r (r.stageUpload a p req name digest) := by
  have counted : StagingKept r.store (storeTmpPath r.store).2 :=
    ⟨rfl, Nat.le_succ _, fun _ _ present => present⟩
  unfold stageUpload
  dsimp only
  split
  next failed =>
    apply Handles.changes _ (handles_respond permitted _)
    refine ⟨?_, ?_, Or.inl ?_, ?_, ?_, ?_, ?_, Or.inr ⟨before, ?_⟩, rfl, rfl, rfl, rfl, rfl, rfl,
      rfl, rfl, rfl, counted⟩
    · intro q different
      rw [modify_of_ne _ _ different]
      exact modify_of_ne _ _ different
    all_goals
      rw [modify_self, modify_self]
      rfl
  next made creates =>
    have staged := stages_opened r p name digest req.contentLength before creates
    apply Handles.stages staged
    have state := staged.state
    split
    next => exact hashWhenComplete_handles permitted state
    next =>
      split
      next => exact handles_respond permitted _
      next written wrote =>
        have appended : StagingKept ((storeTmpPath r.store).2.withFiles made)
            ((storeTmpPath r.store).2.withFiles written) :=
          stagingKept_append wrote
        refine .changes (local_store p appended) (.changes (local_modify _ p
          (fun cc => cc.received req.body.length) fun _ => ⟨rfl, rfl, rfl, rfl, rfl, rfl, rfl⟩) ?_)
        apply hashWhenComplete_handles permitted
        rw [modify_self]
        exact state

theorem apiImportStart_handles (permitted : allowed a) :
    Handles allowed settled p r (r.apiImportStart a p) := by
  unfold apiImportStart
  split
  next => exact handles_respond permitted _
  next idle =>
    split
    next => exact handles_respond permitted _
    next =>
      dsimp only
      split
      next failed => exact .untracked a permitted (Or.inl failed) (handles_respond permitted _)
      next =>
        split
        next failed => exact .untracked a permitted (Or.inr failed) (handles_respond permitted _)
        next =>
          exact .imports a permitted (Bool.eq_false_iff.mpr idle) (handles_respond permitted _)

theorem dispatch_handles (permitted : allowed a) (before : (r.heap p).state ≠ .recvBody)
    (req : HttpRequest) : Handles allowed settled p r (r.dispatch conf a p req) := by
  have kept := route_stagingKept conf a (r.modify p Record.reset).store req
  have change : Local p r ((r.modify p Record.reset).withStore
      (route conf a (r.modify p Record.reset).store req).1) :=
    (local_modify r p Record.reset fun _ => ⟨rfl, rfl, rfl, rfl, rfl, rfl, rfl⟩).trans
      (local_store p kept)
  apply Handles.changes change
  unfold dispatch
  dsimp only
  generalize route conf a (r.modify p Record.reset).store req = routed at *
  obtain ⟨st, choice⟩ := routed
  cases choice with
  | respond response => exact handles_respond permitted response
  | upload name digest =>
      apply stageUpload_handles permitted
      intro receiving
      rcases change.state with same | sent
      · exact before (same.symm.trans receiving)
      · rw [sent.2] at receiving
        contradiction
  | importer => exact apiImportStart_handles permitted

theorem stagedWrite_stagingKept {sys : Sys} {st written : Store} {cc : Record} {bytes : Bytes}
    (wrote : stagedWrite sys st cc bytes = some written) : StagingKept st written := by
  unfold stagedWrite at wrote
  split at wrote
  next =>
    split at wrote
    next => contradiction
    next path _ =>
      obtain ⟨files, appended, rfl⟩ := Option.map_eq_some_iff.mp wrote
      exact stagingKept_append appended
  next => contradiction

/-- What a turn of `handle_read` comes to: the handler returns, or the record waits on. -/
structure Turns (allowed : CallResults → Prop) (settled : Prop) (p : Ptr) (r : Reactor)
    (turn : Reactor × Bool) : Prop where
  returns : turn.2 = false → Handles allowed settled p r turn.1
  loops : turn.2 = true → Local p r turn.1 ∧ turn.1.Waits p

theorem turns_return (handled : Handles allowed settled p r after) :
    Turns allowed settled p r (after, false) :=
  ⟨fun _ => handled, fun more => absurd more Bool.false_ne_true⟩

theorem turns_loop (change : Local p r after) (waits : after.Waits p) :
    Turns allowed settled p r (after, true) :=
  ⟨fun ended => absurd ended.symm Bool.false_ne_true, fun _ => ⟨change, waits⟩⟩

theorem receiveBody_turns (permitted : allowed a) (receiving : (r.heap p).state = .recvBody)
    (bytes : Bytes) : Turns allowed settled p r (r.receiveBody a p bytes) := by
  unfold receiveBody
  dsimp only
  split
  next => exact turns_return (handles_respond permitted _)
  next written wrote =>
    generalize (r.heap p).upReceived + _ = total
    have change : Local p r ((r.withStore written).modify p fun cc => cc.received total) :=
      (local_store p (stagedWrite_stagingKept wrote)).trans
        (local_modify _ p _ fun _ => ⟨rfl, rfl, rfl, rfl, rfl, rfl, rfl⟩)
    have atRecord : ((r.withStore written).modify p fun cc => cc.received total).heap p =
        (r.heap p).received total := modify_self _ _ _
    split
    next =>
      refine turns_return (.changes change (startHashChild_handles permitted ?_))
      rw [atRecord]
      exact receiving
    next missing =>
      apply turns_loop change
      unfold Waits
      rw [atRecord]
      refine ⟨fun _ => Nat.lt_of_not_le missing, ?_⟩
      intro other
      exact absurd receiving other

theorem receiveHead_turns (permitted : allowed a) (requesting : (r.heap p).state ≠ .recvBody)
    (bytes : Bytes) (grows : Bool) :
    Turns allowed settled p r (r.receiveHead conf a p bytes grows) := by
  unfold receiveHead
  split
  next => exact turns_return (handles_respond permitted _)
  next =>
    dsimp only
    generalize httpConnFeed (r.heap p).http bytes = fed
    have change : Local p r (r.modify p fun cc => cc.fed fed.1) :=
      local_modify r p _ fun _ => ⟨rfl, rfl, rfl, rfl, rfl, rfl, rfl⟩
    have atRecord : (r.modify p fun cc => cc.fed fed.1).heap p = (r.heap p).fed fed.1 :=
      modify_self _ _ _
    split
    next => exact turns_return (.changes change (handles_respond permitted _))
    next =>
      cases parsed : httpConnTryParse fed.1 with
      | malformed => exact turns_return (.changes change (handles_respond permitted _))
      | needMore =>
          apply turns_loop change
          unfold Waits
          rw [atRecord]
          refine ⟨fun receiving => absurd receiving requesting, ?_⟩
          intro _ req complete
          have parsedAlready : httpConnTryParse fed.1 = .complete req := complete
          rw [parsed] at parsedAlready
          contradiction
      | complete req =>
          refine turns_return (.changes change (dispatch_handles permitted ?_ req))
          rw [atRecord]
          exact requesting

/-- The loop of `handle_read`. -/
theorem handleRead_handles {reads : List (ReadOutcome × CallResults)}
    (permitted : ∀ read ∈ reads, allowed read.2) (waits : settled → r.Waits p) :
    Handles allowed settled p r (handleRead conf p reads r) := by
  induction reads generalizing r with
  | nil => exact .done waits
  | cons read rest inductionHypothesis =>
      obtain ⟨outcome, a⟩ := read
      have now : allowed a := permitted _ List.mem_cons_self
      have later : ∀ read ∈ rest, allowed read.2 :=
        fun read member => permitted read (List.mem_cons_of_mem _ member)
      cases outcome with
      | tryAgain => exact .done waits
      | interrupted => exact inductionHypothesis later waits
      | failed => exact .answers a now (.closes (Local.refl p r) rfl)
      | data bytes grows =>
          rw [handleRead]
          split
          next => exact .answers a now (.closes (Local.refl p r) rfl)
          next =>
            have heard : Local p r (r.modify p fun cc => cc.heard a.now) :=
              local_modify r p _ fun _ => ⟨rfl, rfl, rfl, rfl, rfl, rfl, rfl⟩
            apply Handles.changes heard
            have turns : Turns allowed settled p (r.modify p fun cc => cc.heard a.now)
                ((r.modify p fun cc => cc.heard a.now).receive conf a p bytes grows) := by
              unfold receive
              split
              next receiving => exact receiveBody_turns now receiving bytes
              next requesting => exact receiveHead_turns now requesting bytes grows
            dsimp only
            split
            next more =>
              obtain ⟨change, waiting⟩ := turns.loops more
              exact .changes change (inductionHypothesis later fun _ => waiting)
            next ended => exact turns.returns (Bool.eq_false_iff.mpr ended)

/-- Nothing but a response is written. -/
theorem handleWrite_idle {cc : Record} (header : cc.state ≠ .sendHeader)
    (body : cc.state ≠ .sendBody) (answer : Written) :
    (cc.sender.handleWrite answer).state = .dead := by
  have idle : cc.sender.state = .readRequest := by
    unfold Record.sender ConnPhase.sending
    cases state : cc.state with
    | sendHeader => exact absurd state header
    | sendBody => exact absurd state body
    | readRequest => rfl
    | recvBody => rfl
    | hashing => rfl
  unfold Sender.handleWrite
  rw [idle]
  rfl

/-- A turn that wrote: only a header that was sent moves the record on. -/
theorem local_sentBy (r : Reactor) (p : Ptr) {answer : Written} (now : Int)
    (stays : ((r.heap p).sender.handleWrite answer).state ≠ .dead) :
    Local p r (r.modify p fun cc => cc.sentBy ((r.heap p).sender.handleWrite answer) now) := by
  refine ⟨fun q different => modify_of_ne _ _ different, ?_, ?_, ?_, ?_, ?_, ?_, Or.inl ?_, rfl, rfl,
    rfl, rfl, rfl, rfl, rfl, rfl, rfl, StagingKept.refl _⟩
  all_goals rw [modify_self]
  all_goals try rfl
  show (if _ then _ else (r.heap p).state) = _ ∨ _ ∧ (if _ then _ else (r.heap p).state) = _
  by_cases header : (r.heap p).state = .sendHeader
  · split
    next => exact Or.inr ⟨header, rfl⟩
    next => exact Or.inl rfl
  · by_cases body : (r.heap p).state = .sendBody
    · rw [body]
      exact Or.inl (ite_self _)
    · exact absurd (handleWrite_idle header body answer) stays

/-- The loop of `handle_write`. -/
theorem handleWrite_local (sys : Sys) (now : Int) (answers : List Written) :
    Local p r (handleWrite sys now p answers r) ∨
      ∃ mid, Local p r mid ∧ handleWrite sys now p answers r = mid.connClose sys p := by
  induction answers generalizing r with
  | nil => exact Or.inl (Local.refl p r)
  | cons answer rest inductionHypothesis =>
      unfold handleWrite
      dsimp only
      split
      next => exact Or.inr ⟨r, Local.refl p r, rfl⟩
      next stays =>
        cases answer with
        | tryAgain => exact Or.inl (Local.refl p r)
        | failed => exact Or.inl (Local.refl p r)
        | interrupted => exact inductionHypothesis
        | wrote n =>
            have change := local_sentBy r p now stays
            rcases inductionHypothesis
                (r := r.modify p fun cc => cc.sentBy ((r.heap p).sender.handleWrite (.wrote n)) now)
              with later | ⟨mid, later, closed⟩
            · exact Or.inl (change.trans later)
            · exact Or.inr ⟨mid, change.trans later, closed⟩

end Handlers

end Reactor

end CixCache
