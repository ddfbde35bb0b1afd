import CixCache.Lib.Simulation
import CixCache.Server.Immutability
import CixCache.Server.Steady
import CixCache.Server.Views

/-!
Contract: the handlers of a client do what the server does on its connection.

Owns: the calls of the server for a handler that sets up a record; which event of the server
matches an upload, an import, a request, a turn of the reading loop and the loop; and the
request that the reads of an event complete.

Does not own: events that are not on a client, and the loop.
-/

namespace CixCache

open CixCache.Lib

/-! ## The calls of the server -/

/-- The calls of a handler that sets up a record of a kind. -/
def CallResults.settingUp (a : CallResults) (kind : ConnKind) : Sys :=
  { a.sys with
    allows := fun call =>
      match call with
      | .pidfdOpen => a.opensPidfd kind
      | .connNew => a.allocates kind
      | .epollAdd => a.registers kind
      | other => a.sys.allows other }

theorem settingUp_create (a : CallResults) (kind : ConnKind) :
    create (a.settingUp kind) = create a.sys :=
  rfl

theorem settingUp_append (a : CallResults) (kind : ConnKind) :
    append (a.settingUp kind) = append a.sys :=
  rfl

section Choices

variable {conf : Conf} {sys : Sys} {st changed : Store} {req : HttpRequest} {choice : Routed}

theorem dispatchArtifact_choice (other : Sys) {name : Bytes}
    (routed : Routed.dispatchArtifact conf sys st req name = (changed, choice))
    (unanswered : ∀ response, choice ≠ .respond response) :
    Routed.dispatchArtifact conf other st req name = (st, choice) ∧ changed = st := by
  unfold Routed.dispatchArtifact at routed ⊢
  split_ifs at routed ⊢
  · exact absurd (Prod.mk.inj routed).2.symm (unanswered _)
  · exact absurd (Prod.mk.inj routed).2.symm (unanswered _)
  · exact ⟨Prod.ext rfl (Prod.mk.inj routed).2, (Prod.mk.inj routed).1.symm⟩
  · exact absurd (Prod.mk.inj routed).2.symm (unanswered _)
  · exact absurd (Prod.mk.inj routed).2.symm (unanswered _)

theorem dispatchApi_choice (other : Sys) {endpoint : Bytes}
    (routed : Routed.dispatchApi conf sys st req endpoint = (changed, choice))
    (unanswered : ∀ response, choice ≠ .respond response) :
    Routed.dispatchApi conf other st req endpoint = (st, choice) ∧ changed = st := by
  unfold Routed.dispatchApi at routed ⊢
  dsimp only at routed ⊢
  split_ifs at routed ⊢
  all_goals
    first
      | exact absurd (Prod.mk.inj routed).2.symm (unanswered _)
      | exact ⟨Prod.ext rfl (Prod.mk.inj routed).2, (Prod.mk.inj routed).1.symm⟩

/-- A choice of `dispatch` but for an answer does not depend on the calls. -/
theorem route_choice {a : CallResults} (other : CallResults)
    (routed : route conf a st req = (changed, choice))
    (unanswered : ∀ response, choice ≠ .respond response) :
    route conf other st req = (st, choice) ∧ changed = st := by
  unfold route at routed ⊢
  cases named : dispatchPath req with
  | none =>
      rw [named] at routed
      exact absurd (Prod.mk.inj routed).2.symm (unanswered _)
  | some path =>
      rw [named] at routed
      dsimp only at routed ⊢
      split_ifs at routed ⊢
      · exact dispatchArtifact_choice other.sys routed unanswered
      · exact absurd (Prod.mk.inj routed).2.symm (unanswered _)
      · exact dispatchApi_choice other.sys routed unanswered
      · exact absurd (Prod.mk.inj routed).2.symm (unanswered _)
      · exact absurd (Prod.mk.inj routed).2.symm (unanswered _)

/-- An asset that could not be read is answered in the place of its page. -/
theorem serveStatic_standsFor (conf : Conf) (read : AssetRead) (path : Bytes) (headOnly : Bool) :
    StandsFor (Response.serveStatic conf read path headOnly)
      (Response.serveStatic conf .whole path headOnly).reply := by
  unfold Response.serveStatic
  split
  next => exact Or.inl rfl
  next =>
    dsimp only
    generalize conf.webRoot ++ (if path = [slash] then ascii "/index.html" else path) = opened
    split
    next => exact Or.inl rfl
    next =>
      cases conf.webFiles opened with
      | none => exact Or.inl rfl
      | some content =>
          cases headOnly with
          | true => exact Or.inl rfl
          | false =>
              cases read with
              | noMemory => exact Or.inr ⟨_, _, _, rfl, rfl⟩
              | short => exact Or.inr ⟨_, _, _, rfl, rfl⟩
              | whole => exact Or.inl rfl

/-- An answer stands for one of the server, whose assets are read whole. -/
theorem route_respond {a : CallResults} {response : Response}
    (routed : route conf a st req = (changed, .respond response)) :
    ∃ other, route conf { a with asset := .whole } st req = (changed, .respond other) ∧
      StandsFor response other.reply := by
  unfold route at routed ⊢
  cases named : dispatchPath req with
  | none =>
      rw [named] at routed
      exact ⟨response, routed, Or.inl rfl⟩
  | some path =>
      rw [named] at routed
      dsimp only at routed ⊢
      split_ifs at routed ⊢
      · exact ⟨response, routed, Or.inl rfl⟩
      · exact ⟨response, routed, Or.inl rfl⟩
      · exact ⟨response, routed, Or.inl rfl⟩
      · obtain ⟨same, chosen⟩ := Prod.mk.inj routed
        refine ⟨_, Prod.ext same rfl, ?_⟩
        rw [← Routed.respond.inj chosen]
        exact serveStatic_standsFor conf a.asset path _
      · exact ⟨response, routed, Or.inl rfl⟩

end Choices

theorem Record.Shows.received {cc : Record} {conn : Conn} (shows : cc.Shows conn)
    (receiving : cc.state = .recvBody) :
    conn.state = .recvBody ∧ cc.SameUpload conn ∧ cc.upFd = true := by
  cases shows with
  | reads phase _ _ =>
      rw [phase] at receiving
      contradiction
  | receives _ state _ upload opened => exact ⟨state, upload, opened⟩
  | hashes phase _ _ _ _ _ =>
      rw [phase] at receiving
      contradiction
  | sends phase _ _ _ _ =>
      rw [receiving] at phase
      exact phase.elim ConnPhase.noConfusion ConnPhase.noConfusion

theorem Record.Shows.read {cc : Record} {conn : Conn} (shows : cc.Shows conn)
    (reading : cc.state = .readRequest) : conn.state = .readRequest := by
  cases shows with
  | reads _ state _ => exact state
  | receives phase _ _ _ _ =>
      rw [phase] at reading
      contradiction
  | hashes phase _ _ _ _ _ =>
      rw [phase] at reading
      contradiction
  | sends phase _ _ _ _ =>
      rw [reading] at phase
      exact phase.elim ConnPhase.noConfusion ConnPhase.noConfusion

namespace Reactor

section Handlers

variable {r mid after : Reactor} {p q : Ptr} {server : Server} {conn : Conn} {sys : Sys}
  {a : CallResults} {conf : Conf} {sha : Sha256sum} {pid : Nat}

/-! ## Records beside the clients -/

/-- A new record that is no client. -/
theorem beside_of_fresh (consistent : Consistent r)
    (others : ∀ q, q ≠ p → q ≠ r.fresh → after.heap q = r.heap q)
    (live : ∀ q, after.Live q ↔ q = r.fresh ∨ r.Live q)
    (other : (after.heap r.fresh).kind ≠ .client) : Beside p r after where
  clients q different := by
    unfold IsClient
    by_cases fresh : q = r.fresh
    · constructor
      · intro client
        rw [fresh] at client
        exact absurd client.2 other
      · intro client
        exact absurd fresh (consistent.ne_fresh client.1)
    · rw [live q, others q different fresh]
      simp only [fresh, false_or]
  shown q different client :=
    ⟨(r.heap q).next, others q different (consistent.ne_fresh client.1)⟩

theorem linkHashChild_beside (serving : Serving p r) (a : CallResults) (pid : Nat) :
    Beside p r (r.linkHashChild a p pid) := by
  have old := serving.consistent.ne_fresh serving.alive
  apply beside_of_fresh serving.consistent
  · intro q different notFresh
    rw [linkHashChild_heap, pairHashChild_of_ne different notFresh]
  · exact fun q => linkHashChild_live old
  · rw [linkHashChild_heap, pairHashChild_child old]
    exact ConnKind.noConfusion

theorem watchImporter_beside (consistent : Consistent r) (a : CallResults) (pid : Nat) :
    Beside p r (r.watchImporter a pid) := by
  apply beside_of_fresh consistent
  · exact fun q _ notFresh => watchImporter_of_ne notFresh
  · exact fun q => watchImporter_live
  · rw [watchImporter_self]
    exact ConnKind.noConfusion

/-- Whatever leaves the records alone. -/
theorem Pending.same (pending : Pending p r server conn) (heap : after.heap = r.heap)
    (allocated : after.allocated = r.allocated) (store : after.store = r.store)
    (importing : after.importRunning = r.importRunning) : Pending p after server conn :=
  pending.beside (beside_of_heap (fun _ _ => congrFun heap _) allocated) store importing
    (congrArg Record.upPath (congrFun heap p))

theorem Pending.withLog (pending : Pending p r server conn) (log : History) :
    Pending p (r.withLog log) server conn :=
  pending.same rfl rfl rfl rfl

theorem Pending.modify (pending : Pending p r server conn) {change : Record → Record}
    (path : ∀ cc, (change cc).upPath = cc.upPath) :
    Pending p (r.modify p change) server conn := by
  apply pending.beside (beside_modify r p change) rfl rfl
  rw [modify_self]
  exact path _

theorem linkHashChild_state (r : Reactor) (a : CallResults) (p : Ptr) (pid : Nat) :
    (r.linkHashChild a p pid).store = r.store ∧
      (r.linkHashChild a p pid).importRunning = r.importRunning :=
  epollSet_state (r.pairHashChild a p pid) a p .quiet

theorem Pending.linkHashChild (pending : Pending p r server conn) (serving : Serving p r)
    (a : CallResults) (pid : Nat) : Pending p (r.linkHashChild a p pid) server conn := by
  have state := linkHashChild_state r a p pid
  apply pending.beside (linkHashChild_beside serving a pid) state.1 state.2
  rw [linkHashChild_heap, pairHashChild_self (serving.consistent.ne_fresh serving.alive)]
  rfl

/-! ## Uploads -/

/-- The hash child of a complete upload is watched. -/
theorem Pending.hashes (pending : Pending p r server conn) (serving : Serving p r)
    (hashing : conn.state = .hashing) (watched : conn.child = .watched)
    (upload : (r.heap p).SameUpload conn) (a : CallResults) (pid : Nat) :
    Views ((r.linkHashChild a p pid).epollAdd r.fresh .input) server := by
  have linked : Pending p ((r.linkHashChild a p pid).epollAdd r.fresh .input) server conn :=
    (pending.linkHashChild serving a pid).same rfl rfl rfl rfl
  have record : ((r.linkHashChild a p pid).epollAdd r.fresh .input).heap p =
      (r.heap p).hashing r.fresh pid a.now := by
    show (r.linkHashChild a p pid).heap p = _
    rw [linkHashChild_heap]
    exact pairHashChild_self (serving.consistent.ne_fresh serving.alive)
  apply linked.settle (serving.linkHashChild a pid).isClient
  have path := linked.path
  rw [record] at path ⊢
  exact .hashes rfl hashing path ⟨upload.1, upload.2, upload.3, upload.4, upload.5⟩ watched rfl

/-- The hash child of a complete upload. -/
theorem Pending.startHashChild
    (pending : Pending p r server (CixCache.startHashChild (a.settingUp .hashChild) conn))
    (serving : Serving p r) (upload : (r.heap p).SameUpload conn) :
    Matched Views (serverStep conf sha) requestIn [] (r.startHashChild a p) server := by
  have untied : Record.Untied Record.complete := fun _ => ⟨rfl, rfl, rfl, rfl, rfl, rfl, rfl⟩
  have closed := pending.modify fun cc => (untied cc).2.2.2.2.2.2
  have served := untied_modify untied serving
  have atRecord := modify_self r p Record.complete
  -- The answers of the calls are the same on both sides.
  have pipe : (a.settingUp .hashChild).allows .pipe = a.sys.allows .pipe := rfl
  have fork : (a.settingUp .hashChild).allows .fork = a.sys.allows .fork := rfl
  have opens : (a.settingUp .hashChild).allows .pidfdOpen = a.opensPidfd .hashChild := rfl
  have allocates : (a.settingUp .hashChild).allows .connNew = a.allocates .hashChild := rfl
  have registers : (a.settingUp .hashChild).allows .epollAdd = a.registers .hashChild := rfl
  unfold Reactor.startHashChild
  unfold CixCache.startHashChild at pending closed
  rw [pipe, fork, opens, allocates, registers] at pending closed
  dsimp only at pending closed ⊢
  generalize r.modify p Record.complete = done at *
  split
  next failed =>
    rw [if_pos failed] at closed
    exact closed.respond served a _ rfl (Or.inl rfl)
  next piped =>
    rw [if_neg piped] at closed
    split
    next failed =>
      rw [if_pos failed] at closed
      exact closed.respond served a _ rfl (Or.inl rfl)
    next forked =>
      rw [if_neg forked] at closed
      have forking : Serving p done.forkHasher := served.withLog _
      have waited : Serving p (done.forkHasher.waitpid done.log.nextPid) := forking.withLog _
      have afterFork := closed.withLog (done.forkHasher).log
      have reaped := closed.withLog (done.forkHasher.waitpid done.log.nextPid).log
      split
      next failed =>
        rw [if_pos failed] at reaped
        exact reaped.respond waited a _ rfl (Or.inl rfl)
      next opened =>
        rw [if_neg opened] at afterFork reaped
        split
        next failed =>
          rw [if_pos failed] at reaped
          exact reaped.respond waited a _ rfl (Or.inl rfl)
        next allocated =>
          rw [if_neg allocated] at afterFork
          have linking := forking.linkHashChild a done.log.nextPid
          split
          next registered =>
            rw [if_neg (by rw [registered]; exact Bool.noConfusion)] at afterFork
            refine Matched.here (afterFork.hashes forking rfl rfl ?_ a done.log.nextPid)
            show (done.heap p).SameUpload _
            rw [atRecord]
            exact ⟨upload.1, upload.2, upload.3, upload.4, upload.5⟩
          next failed =>
            rw [if_pos (Bool.eq_false_iff.mpr failed)] at afterFork
            exact (afterFork.linkHashChild forking a _).respond linking a _ rfl (Or.inl rfl)

/-- A client whose body is received, complete or not. -/
theorem Pending.hashWhenComplete
    (pending : Pending p r server (CixCache.hashWhenComplete (a.settingUp .hashChild) conn))
    (serving : Serving p r) (upload : (r.heap p).SameUpload conn)
    (phase : (r.heap p).state = .recvBody) (state : conn.state = .recvBody)
    (opened : (r.heap p).upFd = true) :
    Matched Views (serverStep conf sha) requestIn [] (r.hashWhenComplete a p) server := by
  unfold Reactor.hashWhenComplete
  unfold CixCache.hashWhenComplete at pending
  rw [upload.expect, upload.received] at pending
  split
  next complete =>
    rw [if_pos complete] at pending
    exact pending.startHashChild serving upload
  next missing =>
    rw [if_neg missing] at pending
    exact Matched.here (pending.settle serving.isClient
      (.receives phase state pending.path upload opened))

/-- The record of an upload whose staging file could not be created. -/
theorem local_unnamed (r : Reactor) (p : Ptr) (name digest : Bytes) (expect : Nat)
    (before : (r.heap p).state ≠ .recvBody) :
    Local p r (((r.withStore (storeTmpPath r.store).2).modify p fun cc =>
      cc.naming (storeTmpPath r.store).1 name digest expect).modify p Record.unstaged) := by
  have counted : StagingKept r.store (storeTmpPath r.store).2 :=
    ⟨rfl, Nat.le_succ _, fun _ _ present => present⟩
  refine ⟨?_, ?_, Or.inl ?_, ?_, ?_, ?_, ?_, Or.inr ⟨before, ?_⟩, rfl, rfl, rfl, rfl, rfl, rfl,
    rfl, rfl, rfl, counted⟩
  · intro q different
    rw [modify_of_ne _ _ different]
    exact modify_of_ne _ _ different
  all_goals
    rw [modify_self, modify_self]
    rfl

theorem Local.beside (change : Local p r after) : Beside p r after :=
  beside_of_heap change.others change.allocated

theorem Stages.beside (staged : Stages p r after) : Beside p r after :=
  beside_of_heap staged.others staged.allocated

/-- The reactor once the staging file of an upload is open. -/
def stagedAt (r : Reactor) (p : Ptr) (name digest : Bytes) (expect : Nat) (made : Files) :
    Reactor :=
  ((((r.withStore (storeTmpPath r.store).2).modify p fun cc =>
    cc.naming (storeTmpPath r.store).1 name digest expect).withStore
      ((storeTmpPath r.store).2.withFiles made)).created p (storeTmpPath r.store).1).modify p
        Record.receiving

theorem stagedAt_eq (r : Reactor) (p : Ptr) (name digest : Bytes) (expect : Nat) (made : Files) :
    ((((r.withStore (storeTmpPath r.store).2).modify p fun cc =>
      cc.naming (storeTmpPath r.store).1 name digest expect).withStore
        ((storeTmpPath r.store).2.withFiles made)).created p (storeTmpPath r.store).1).modify p
          Record.receiving = r.stagedAt p name digest expect made :=
  rfl

theorem stagedAt_self (r : Reactor) (p : Ptr) (name digest : Bytes) (expect : Nat)
    (made : Files) :
    (r.stagedAt p name digest expect made).heap p =
      ((r.heap p).naming (storeTmpPath r.store).1 name digest expect).receiving := by
  unfold stagedAt
  rw [modify_self, created_heap, withStore_heap, modify_self]
  rfl

/-- The staging of an upload, as what a request of a client comes to. -/
theorem Views.stageUpload (views : Views mid server) (own : server.conns p = some conn)
    (beside : Beside p mid r) (importing : r.importRunning = mid.importRunning)
    (serving : Serving p r) (before : (r.heap p).state ≠ .recvBody)
    {req : HttpRequest} {name digest : Bytes}
    (turn : connStep conf sha (a.settingUp .hashChild) mid.store mid.importRunning conn
        (.request req) =
      ⟨(CixCache.stageUpload (a.settingUp .hashChild) r.store conn req name digest).1,
        mid.importRunning,
        (CixCache.stageUpload (a.settingUp .hashChild) r.store conn req name digest).2⟩) :
    Matched Views (serverStep conf sha) requestIn [(p, req)] (r.stageUpload a p req name digest)
      server := by
  have brings : requestIn (a.settingUp .hashChild, .input p (.request req)) = some (p, req) := rfl
  apply Matched.once brings
  unfold CixCache.stageUpload at turn
  unfold Reactor.stageUpload
  rw [settingUp_create, settingUp_append] at turn
  dsimp only at turn ⊢
  cases creates : create a.sys (storeTmpPath r.store).2.files (storeTmpPath r.store).1 with
  | none =>
      rw [creates] at turn
      dsimp only at turn ⊢
      have change := local_unnamed r p name digest req.contentLength before
      have dropped := views.input own turn (beside.trans change.beside) rfl importing.symm (by
        rw [modify_self]
        rfl)
      exact dropped.respond (change.serving serving) a _ rfl (Or.inl rfl)
  | some made =>
      rw [creates] at turn
      dsimp only at turn ⊢
      have staged := stages_opened r p name digest req.contentLength before creates
      dsimp only at staged
      rw [stagedAt_eq] at staged ⊢
      have record := stagedAt_self r p name digest req.contentLength made
      have stores : (r.stagedAt p name digest req.contentLength made).store =
          (storeTmpPath r.store).2.withFiles made := rfl
      have runs := staged.importRunning.trans importing
      generalize r.stagedAt p name digest req.contentLength made = opened at *
      have serves := staged.serving serving
      have nearby := beside.trans staged.beside
      cases body : req.body with
      | nil =>
          rw [body] at turn
          dsimp only at turn ⊢
          have begun := views.input own turn nearby stores.symm runs.symm (by
            rw [record]
            exact (continues_hashWhenComplete _ (Or.inl rfl)).path)
          refine begun.hashWhenComplete serves ?_ ?_ rfl ?_
          · rw [record]
            exact ⟨rfl, rfl, rfl, rfl, rfl⟩
          · rw [record]
            rfl
          · rw [record]
            rfl
      | cons first rest =>
          rw [body] at turn
          dsimp only at turn ⊢
          cases written : append a.sys made (storeTmpPath r.store).1 (first :: rest) with
          | none =>
              rw [written] at turn
              dsimp only at turn ⊢
              have begun := views.input own turn nearby stores.symm runs.symm (by
                rw [record]
                rfl)
              exact begun.respond serves a _ rfl (Or.inl rfl)
          | some grown =>
              rw [written] at turn
              dsimp only at turn ⊢
              have untied : Record.Untied fun cc => cc.received (first :: rest).length :=
                fun _ => ⟨rfl, rfl, rfl, rfl, rfl, rfl, rfl⟩
              have stored : Serving p (opened.withStore
                  ((storeTmpPath r.store).2.withFiles grown)) :=
                ⟨serves.consistent.withStore _, serves.alive, serves.client⟩
              have counted : Beside p opened ((opened.withStore
                  ((storeTmpPath r.store).2.withFiles grown)).modify p
                    fun cc => cc.received (first :: rest).length) :=
                beside_of_heap (fun _ different => modify_of_ne _ _ different) rfl
              have begun := views.input own turn (nearby.trans counted) rfl runs.symm (by
                rw [modify_self, withStore_heap, record]
                exact (continues_hashWhenComplete _ (Or.inl rfl)).path)
              refine begun.hashWhenComplete (untied_modify untied stored) ?_ ?_ rfl ?_
              · rw [modify_self, withStore_heap, record]
                exact ⟨rfl, rfl, rfl, rfl, rfl⟩
              · rw [modify_self, withStore_heap, record]
                rfl
              · rw [modify_self, withStore_heap, record]
                rfl

/-! ## Requests -/

/-- The start of an import, as what a request of a client comes to. -/
theorem Views.apiImportStart (views : Views mid server) (own : server.conns p = some conn)
    (beside : Beside p mid r) {req : HttpRequest} (serving : Serving p r) (path : conn.upPath = (r.heap p).upPath)
    (turn : connStep conf sha (a.settingUp .importChild) mid.store mid.importRunning conn
        (.request req) =
      ⟨r.store,
        (CixCache.apiImportStart (a.settingUp .importChild) r.importRunning conn).1,
        (CixCache.apiImportStart (a.settingUp .importChild) r.importRunning conn).2⟩) :
    Matched Views (serverStep conf sha) requestIn [(p, req)] (r.apiImportStart a p) server := by
  have brings : requestIn (a.settingUp .importChild, .input p (.request req)) = some (p, req) :=
    rfl
  apply Matched.once brings
  have fork : (a.settingUp .importChild).allows .fork = a.sys.allows .fork := rfl
  have opens : (a.settingUp .importChild).allows .pidfdOpen = a.opensPidfd .importChild := rfl
  have allocates : (a.settingUp .importChild).allows .connNew = a.allocates .importChild := rfl
  unfold CixCache.apiImportStart at turn
  unfold Reactor.apiImportStart
  rw [fork, opens, allocates] at turn
  have forking : Serving p r.forkImporter := serving.withLog _
  have forked : Beside p mid r.forkImporter :=
    beside.trans (beside_of_heap (fun _ _ => rfl) rfl)
  split
  next running =>
    rw [if_pos running] at turn
    have answered := views.input own turn beside rfl rfl path
    exact answered.respond serving a _ rfl (Or.inl rfl)
  next idle =>
    rw [if_neg idle] at turn
    split
    next failed =>
      rw [if_pos failed] at turn
      have answered := views.input own turn beside rfl rfl path
      exact answered.respond serving a _ rfl (Or.inl rfl)
    next started =>
      rw [if_neg started] at turn
      dsimp only
      split
      next failed =>
        rw [if_pos failed] at turn
        have answered := views.input own turn forked rfl rfl path
        exact answered.respond forking a _ rfl (Or.inl rfl)
      next opened =>
        rw [if_neg opened] at turn
        split
        next failed =>
          rw [if_pos failed] at turn
          have answered := views.input own turn forked rfl rfl path
          exact answered.respond forking a _ rfl (Or.inl rfl)
        next allocated =>
          rw [if_neg allocated] at turn
          have watched := watchImporter_beside (p := p) forking.consistent a r.log.nextPid
          have old := forking.consistent.ne_fresh forking.alive
          have state : (r.forkImporter.watchImporter a r.log.nextPid).store = r.store ∧
              (r.forkImporter.watchImporter a r.log.nextPid).importRunning = true := by
            rw [watchImporter_eq]
            exact ⟨rfl, rfl⟩
          have answered := views.input own turn (forked.trans watched) state.1.symm state.2.symm (by
            rw [watchImporter_of_ne old]
            exact path)
          exact answered.respond (forking.watchImporter a r.log.nextPid) a _ rfl (Or.inl rfl)

/-- A parsed request is the server's event. -/
theorem Views.dispatch (views : Views r server) (own : server.conns p = some conn)
    (serving : Serving p r) (phase : (r.heap p).state ≠ .recvBody)
    (reading : conn.state = .readRequest) (path : conn.upPath = (r.heap p).upPath)
    (req : HttpRequest) :
    Matched Views (serverStep conf sha) requestIn [(p, req)] (r.dispatch conf a p req) server := by
  have untied : Record.Untied Record.reset := fun _ => ⟨rfl, rfl, rfl, rfl, rfl, rfl, rfl⟩
  have reset := untied_modify untied serving
  have turned : ∀ calls : CallResults, calls.asset = .whole →
      connStep conf sha calls.sys r.store r.importRunning conn (.request req) =
        Routed.carriedOut calls.sys r.importRunning conn req (route conf calls r.store req) := by
    intro calls whole
    rw [← dispatch_routed whole]
    unfold connStep
    rw [reading]
  unfold Reactor.dispatch
  dsimp only
  cases routed : route conf a r.store req with
  | mk changed choice =>
      have routedToo : route conf a (r.modify p Record.reset).store req = (changed, choice) := routed
      rw [routedToo]
      have beside : Beside p r ((r.modify p Record.reset).withStore changed) :=
        beside_of_heap (fun _ different => modify_of_ne r _ different) rfl
      have serves : Serving p ((r.modify p Record.reset).withStore changed) :=
        ⟨reset.consistent.withStore _, reset.alive, reset.client⟩
      have record : ((r.modify p Record.reset).withStore changed).heap p = (r.heap p).reset :=
        modify_self _ _ _
      cases choice with
      | respond response =>
          obtain ⟨other, whole, same⟩ := route_respond routed
          have turn := turned { a with asset := .whole } rfl
          rw [whole] at turn
          have brings : requestIn (a.sys, .input p (.request req)) = some (p, req) := rfl
          apply Matched.once brings
          refine (views.input own turn beside rfl rfl ?_).respond serves a response rfl ?_
          · rw [record]
            exact path
          · exact same
      | upload name digest =>
          obtain ⟨chosen, rfl⟩ := route_choice
            { a with sys := a.settingUp .hashChild, asset := .whole } routed
            fun _ => Routed.noConfusion
          have turn := turned { a with sys := a.settingUp .hashChild, asset := .whole } rfl
          rw [chosen] at turn
          apply views.stageUpload own beside rfl serves _ turn
          rw [record]
          exact phase
      | importer =>
          obtain ⟨chosen, rfl⟩ := route_choice
            { a with sys := a.settingUp .importChild, asset := .whole } routed
            fun _ => Routed.noConfusion
          have turn := turned { a with sys := a.settingUp .importChild, asset := .whole } rfl
          rw [chosen] at turn
          apply views.apiImportStart own beside serves _ turn
          rw [record]
          exact path

/-! ## Reading -/

/-- A piece of a body. -/
theorem Views.receiveBody (views : Views r server) (serving : Serving p r)
    (receiving : (r.heap p).state = .recvBody) (bytes : Bytes) :
    Matched Views (serverStep conf sha) requestIn [] (r.receiveBody a p bytes).1 server := by
  obtain ⟨conn, own, shows⟩ := views.clients p serving.isClient
  obtain ⟨state, upload, opened⟩ := shows.received receiving
  obtain ⟨path, staged⟩ := Option.isSome_iff_exists.mp upload.staged
  have named : conn.upPath = some path := shows.path.trans staged
  have nothing : requestIn (a.settingUp .hashChild, .input p (.chunk bytes)) = none := rfl
  apply Matched.silent nothing
  have turn : connStep conf sha (a.settingUp .hashChild) r.store r.importRunning conn
      (.chunk bytes) = ⟨(recvBody (a.settingUp .hashChild) r.store conn bytes).1,
        r.importRunning, (recvBody (a.settingUp .hashChild) r.store conn bytes).2⟩ := by
    unfold connStep
    rw [state]
  unfold recvBody at turn
  rw [named, settingUp_append, upload.expect, upload.received] at turn
  unfold Reactor.receiveBody stagedWrite
  dsimp only at turn ⊢
  rw [opened, if_pos rfl, staged]
  dsimp only
  generalize bytes.take ((r.heap p).upExpect - (r.heap p).upReceived) = taken at turn ⊢
  cases appended : append a.sys r.store.files path taken with
  | none =>
      rw [appended] at turn
      dsimp only [Option.map_none] at turn ⊢
      have refused := views.input own turn (Beside.refl p r) rfl rfl shows.path
      exact refused.respond serving a _ rfl (Or.inl rfl)
  | some written =>
      rw [appended] at turn
      dsimp only [Option.map_some] at turn ⊢
      have stored : Serving p (r.withStore (r.store.withFiles written)) :=
        ⟨serving.consistent.withStore _, serving.alive, serving.client⟩
      have untied : Record.Untied fun cc => cc.received ((r.heap p).upReceived + taken.length) :=
        fun _ => ⟨rfl, rfl, rfl, rfl, rfl, rfl, rfl⟩
      have counted : Beside p r ((r.withStore (r.store.withFiles written)).modify p
          fun cc => cc.received ((r.heap p).upReceived + taken.length)) :=
        beside_of_heap (fun _ different => modify_of_ne _ _ different) rfl
      have record := modify_self (r.withStore (r.store.withFiles written)) p
        fun cc => cc.received ((r.heap p).upReceived + taken.length)
      have begun := views.input own turn counted rfl rfl (by
        rw [record]
        refine (continues_hashWhenComplete _ ?_).path.trans staged.symm
        exact Or.inl state)
      have serves := untied_modify untied stored
      generalize (r.withStore (r.store.withFiles written)).modify p _ = received at *
      have onwards : (if (r.heap p).upExpect ≤ (r.heap p).upReceived + taken.length then
          (received.startHashChild a p, false) else (received, true)).1 =
            received.hashWhenComplete a p := by
        unfold Reactor.hashWhenComplete
        rw [record]
        exact apply_ite Prod.fst _ _ _
      rw [onwards]
      refine begun.hashWhenComplete serves ?_ ?_ state ?_
      · rw [record]
        exact ⟨upload.staged, upload.digest, upload.name, rfl, rfl⟩
      · rw [record]
        exact receiving
      · rw [record]
        exact opened

/-- A client's record changes in what its connection has no part of. -/
theorem Views.assign (views : Views r server) (serving : Serving p r)
    {change : Record → Record} (untied : Record.Untied change)
    (shown : ∀ conn, (r.heap p).Shows conn → (change (r.heap p)).Shows conn) :
    Views (r.modify p change) server := by
  obtain ⟨conn, own, shows⟩ := views.clients p serving.isClient
  have pending := (views.pending serving.isClient own).modify fun cc => (untied cc).2.2.2.2.2.2
  apply pending.settle (untied_modify untied serving).isClient
  rw [modify_self]
  exact shown conn shows

/-- What is refused in a header block. -/
theorem Views.refuse (views : Views r server) (serving : Serving p r)
    (reading : (r.heap p).state = .readRequest) (input : Input) {status : Nat} {message : Bytes}
    (unasked : ∀ req, input ≠ .request req)
    (turn : ∀ conn : Conn, conn.state = .readRequest →
      connStep conf sha a.sys r.store r.importRunning conn input =
        ⟨r.store, r.importRunning, conn.respond (.error status message)⟩)
    {change : Record → Record} (untied : Record.Untied change) :
    Matched Views (serverStep conf sha) requestIn []
      ((r.modify p change).respond a p (.error status message)) server := by
  obtain ⟨conn, own, shows⟩ := views.clients p serving.isClient
  have nothing : requestIn (a.sys, .input p input) = none := by
    cases input with
    | request req => exact absurd rfl (unasked req)
    | overlong => rfl
    | malformed => rfl
    | chunk _ => rfl
    | hashed => rfl
  apply Matched.silent nothing
  have refused := views.input own (turn conn (shows.read reading)) (beside_modify r p change) rfl
    rfl (by
      rw [modify_self, (untied _).2.2.2.2.2.2]
      exact shows.path)
  exact refused.respond (untied_modify untied serving) a _ rfl (Or.inl rfl)

/-- The request that a piece of a header block completes. -/
def turnRequest (http : HttpConn) (bytes : Bytes) (grows : Bool) : Option HttpRequest :=
  if grows = false ∨ (httpConnFeed http bytes).2 = false then none
  else
    match httpConnTryParse (httpConnFeed http bytes).1 with
    | .complete req => some req
    | _ => none

/-- A piece of a header block. -/
theorem Views.receiveHead (views : Views r server) (serving : Serving p r)
    (reading : (r.heap p).state = .readRequest) (bytes : Bytes) (grows : Bool) :
    Matched Views (serverStep conf sha) requestIn
      ((turnRequest (r.heap p).http bytes grows).toList.map (Prod.mk p))
      (r.receiveHead conf a p bytes grows).1 server := by
  have overlong : ∀ conn : Conn, conn.state = .readRequest →
      connStep conf sha a.sys r.store r.importRunning conn .overlong =
        ⟨r.store, r.importRunning,
          conn.respond (.error 413 (ascii "request headers too large"))⟩ := by
    intro conn state
    unfold connStep
    rw [state]
  unfold Reactor.receiveHead turnRequest
  by_cases short : grows = false
  · rw [if_pos short, if_pos (Or.inl short)]
    have untied : Record.Untied id := fun _ => ⟨rfl, rfl, rfl, rfl, rfl, rfl, rfl⟩
    have refused := views.refuse serving reading .overlong
      (fun _ => Input.noConfusion) overlong untied
    rw [modify_id] at refused
    exact refused
  · rw [if_neg short]
    have untied : Record.Untied fun cc => cc.fed (httpConnFeed (r.heap p).http bytes).1 :=
      fun _ => ⟨rfl, rfl, rfl, rfl, rfl, rfl, rfl⟩
    have feeding := untied_modify untied serving
    have record := modify_self r p fun cc => cc.fed (httpConnFeed (r.heap p).http bytes).1
    -- The pieces of a header block are no part of a connection.
    have fed : Views (r.modify p fun cc => cc.fed (httpConnFeed (r.heap p).http bytes).1)
        server :=
      views.assign serving untied fun conn shows => shows.aside _ (r.heap p).lastMs (r.heap p).next
    dsimp only
    by_cases long : (httpConnFeed (r.heap p).http bytes).2 = false
    · rw [if_pos long, if_pos (Or.inr long)]
      exact views.refuse serving reading .overlong (fun _ => Input.noConfusion) overlong untied
    · rw [if_neg long, if_neg (not_or_intro short long)]
      cases parsed : httpConnTryParse (httpConnFeed (r.heap p).http bytes).1 with
      | malformed =>
          apply views.refuse serving reading .malformed (fun _ => Input.noConfusion) _
            untied
          intro conn state
          unfold connStep
          rw [state]
      | needMore => exact Matched.here fed
      | complete req =>
          obtain ⟨conn, own, shows⟩ := views.clients p serving.isClient
          apply fed.dispatch own feeding _ (shows.read reading) _ req
          · rw [record]
            show (r.heap p).state ≠ _
            rw [reading]
            exact ConnPhase.noConfusion
          · rw [record]
            exact shows.path

/-- The request a sequence of reads completes. -/
def requestRead : HttpConn → List (ReadOutcome × CallResults) → Option HttpRequest
  | _, [] => none
  | _, (.tryAgain, _) :: _ => none
  | http, (.interrupted, _) :: rest => requestRead http rest
  | _, (.failed, _) :: _ => none
  | http, (.data bytes grows, _) :: rest =>
      if bytes = [] ∨ grows = false ∨ (httpConnFeed http bytes).2 = false then none
      else
        match httpConnTryParse (httpConnFeed http bytes).1 with
        | .malformed => none
        | .needMore => requestRead (httpConnFeed http bytes).1 rest
        | .complete req => some req

/-- The request that reading from a connection completes. -/
def requestedBy (r : Reactor) (p : Ptr) (reads : List (ReadOutcome × CallResults)) :
    List (Ptr × HttpRequest) :=
  if (r.heap p).state = .recvBody then []
  else (requestRead (r.heap p).http reads).toList.map (Prod.mk p)

theorem requestedBy_none {reads : List (ReadOutcome × CallResults)}
    (nothing : requestRead (r.heap p).http reads = none) : r.requestedBy p reads = [] := by
  unfold requestedBy
  rw [nothing]
  exact ite_self _

theorem requestedBy_congr {reads : List (ReadOutcome × CallResults)}
    (state : (after.heap p).state = (r.heap p).state) (http : (after.heap p).http = (r.heap p).http) :
    after.requestedBy p reads = r.requestedBy p reads := by
  unfold requestedBy
  rw [state, http]

/-- A turn after which the loop goes on. -/
theorem receive_loops (r : Reactor) (a : CallResults) (p : Ptr) (bytes : Bytes) (grows : Bool)
    (more : (r.receive conf a p bytes grows).2 = true) :
    Local p r (r.receive conf a p bytes grows).1 := by
  have turns : Turns (fun _ => True) False p r (r.receive conf a p bytes grows) := by
    unfold Reactor.receive
    split
    next receiving => exact receiveBody_turns trivial receiving bytes
    next requesting => exact receiveHead_turns trivial requesting bytes grows
  exact (turns.loops more).1

/-- The request that a turn completes. -/
def turnRequests (r : Reactor) (p : Ptr) (bytes : Bytes) (grows : Bool) :
    List (Ptr × HttpRequest) :=
  if (r.heap p).state = .recvBody then []
  else (turnRequest (r.heap p).http bytes grows).toList.map (Prod.mk p)

/-- What the loop completes is what its first turn does, and the rest when it goes on. -/
theorem requestedBy_data (r : Reactor) (p : Ptr) {bytes : Bytes} (grows : Bool)
    (filled : bytes ≠ []) (rest : List (ReadOutcome × CallResults)) :
    r.requestedBy p ((.data bytes grows, a) :: rest) =
      if (r.receive conf a p bytes grows).2 then
        r.turnRequests p bytes grows ++ (r.receive conf a p bytes grows).1.requestedBy p rest
      else r.turnRequests p bytes grows := by
  by_cases receiving : (r.heap p).state = .recvBody
  · have nothing : r.turnRequests p bytes grows = [] := if_pos receiving
    have whole : r.requestedBy p ((.data bytes grows, a) :: rest) = [] := if_pos receiving
    rw [nothing, whole]
    split
    next more =>
      have state := (receive_loops r a p bytes grows more).state_eq (by
        rw [receiving]
        exact ConnPhase.noConfusion)
      unfold requestedBy
      rw [if_pos (state.trans receiving)]
      rfl
    next => rfl
  · unfold requestedBy turnRequests turnRequest Reactor.receive receiveHead
    rw [if_neg receiving, if_neg receiving, if_neg receiving, requestRead]
    by_cases short : grows = false
    · rw [if_pos (Or.inr (Or.inl short)), if_pos short, if_pos (Or.inl short)]
      rfl
    · dsimp only
      rw [if_neg short]
      by_cases long : (httpConnFeed (r.heap p).http bytes).2 = false
      · rw [if_pos (Or.inr (Or.inr long)), if_pos long, if_pos (Or.inr long)]
        rfl
      · rw [if_neg (not_or_intro filled (not_or_intro short long)), if_neg long,
          if_neg (not_or_intro short long)]
        cases httpConnTryParse (httpConnFeed (r.heap p).http bytes).1 with
        | malformed => rfl
        | complete req => rfl
        | needMore =>
            dsimp only
            rw [if_pos rfl, modify_self, if_neg]
            · rfl
            · exact receiving

/-- A turn of the reading loop. -/
theorem Views.receive (views : Views r server) (handling : Handling p r) (bytes : Bytes)
    (grows : Bool) :
    Matched Views (serverStep conf sha) requestIn (r.turnRequests p bytes grows)
      (r.receive conf a p bytes grows).1 server := by
  unfold Reactor.receive turnRequests
  split
  next receiving => exact views.receiveBody handling.serving receiving bytes
  next requesting =>
    exact views.receiveHead handling.serving (handling.state.resolve_right requesting) bytes grows

/-- A client that is closed. -/
theorem Views.connClose (views : Views r server) (serving : Serving p r) (sys : Sys) :
    Matched Views (serverStep conf sha) requestIn [] (r.connClose sys p) server := by
  obtain ⟨conn, own, _⟩ := views.clients p serving.isClient
  have nothing : requestIn (sys, .close p) = none := rfl
  exact Matched.silent nothing (Matched.here
    ((views.pending serving.isClient own).closes serving sys))

/-- The loop of `handle_read`. -/
theorem Views.handleRead {reads : List (ReadOutcome × CallResults)} (views : Views r server)
    (handling : Handling p r) :
    Matched Views (serverStep conf sha) requestIn (r.requestedBy p reads)
      (handleRead conf p reads r) server := by
  induction reads generalizing r server with
  | nil =>
      rw [requestedBy_none rfl]
      exact Matched.here views
  | cons read rest inductionHypothesis =>
      obtain ⟨outcome, a⟩ := read
      cases outcome with
      | tryAgain =>
          rw [requestedBy_none rfl]
          exact Matched.here views
      | interrupted => exact inductionHypothesis views handling
      | failed =>
          rw [requestedBy_none rfl]
          exact views.connClose handling.serving a.sys
      | data bytes grows =>
          rw [Reactor.handleRead]
          split
          next closed =>
            rw [requestedBy_none (by rw [requestRead, if_pos (Or.inl closed)])]
            exact views.connClose handling.serving a.sys
          next filled =>
            have untied : Record.Untied fun cc => cc.heard a.now :=
              fun _ => ⟨rfl, rfl, rfl, rfl, rfl, rfl, rfl⟩
            have heard := (local_modify r p _ untied).handling handling
            have seen : Views (r.modify p fun cc => cc.heard a.now) server :=
              views.assign handling.serving untied fun conn shows =>
                shows.aside (r.heap p).http a.now (r.heap p).next
            have unheard : (r.modify p fun cc => cc.heard a.now).requestedBy p
                ((.data bytes grows, a) :: rest) =
                  r.requestedBy p ((.data bytes grows, a) :: rest) :=
              requestedBy_congr (by rw [modify_self]; rfl) (by rw [modify_self]; rfl)
            have turn := @Views.receive _ p server a conf sha seen heard bytes grows
            rw [← unheard, @requestedBy_data a conf _ p bytes grows filled rest]
            dsimp only
            split
            next more =>
              refine turn.bind fun next related => ?_
              exact inductionHypothesis related
                ((receive_loops _ a p bytes grows more).handling heard)
            next => exact turn

end Handlers

end Reactor

end CixCache
