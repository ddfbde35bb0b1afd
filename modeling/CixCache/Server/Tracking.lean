import CixCache.Server.Steady

/-!
Contract: the server knows of every importer it forked, as long as importers can be watched.

Owns: `ImportKnown`, what the flag of a running import says of the importers; `Issued`,
whose processes the process numbers in use are; `Tracked`, one watched record for the one
importer that runs; that every event, the sweep and every step keep these while the calls
that watch an importer succeed; a run in which one fails.

Does not own: hash children and staging files.
-/

namespace CixCache

open CixCache.Lib

/-- The calls between the fork of an importer and its registration succeed. -/
def CallResults.WatchesImporters (a : CallResults) : Prop :=
  a.opensPidfd .importChild = true ∧ a.allocates .importChild = true ∧
    a.registers .importChild = true

instance (a : CallResults) : Decidable a.WatchesImporters :=
  inferInstanceAs (Decidable (_ ∧ _ ∧ _))

/-- Whatever importer a step forks is watched. -/
def Step.WatchesImporters (s : Step) : Prop := ∀ a ∈ s.answers, a.WatchesImporters

instance (s : Step) : Decidable s.WatchesImporters := inferInstanceAs (Decidable (∀ _ ∈ _, _))

namespace Reactor

/-- An importer was forked and was not waited for. -/
def Unreaped (r : Reactor) (pid : Nat) : Prop := pid ∈ r.log.importers ∧ pid ∉ r.log.waited

instance (r : Reactor) (pid : Nat) : Decidable (r.Unreaped pid) :=
  inferInstanceAs (Decidable (_ ∧ _))

/-- The flag says whether an importer runs, there is one at most, and its end can be
reported on a record whose event waits for it and clears the flag. -/
structure ImportKnown (r : Reactor) : Prop where
  known : r.importRunning = true ↔ ∃ pid, r.Unreaped pid
  single : ∀ pid other, r.Unreaped pid → r.Unreaped other → pid = other
  cleared : ∀ pid, r.Unreaped pid → ∃ c, r.Reports (c, .input) ∧
    ∀ conf ready calls, (dispatchEvent conf r c ready calls).importRunning = false ∧
      pid ∈ (dispatchEvent conf r c ready calls).log.waited

/-- The numbers of the processes, and that no client waits for an importer. -/
structure Issued (r : Reactor) : Prop where
  importers : ∀ pid ∈ r.log.importers, pid < r.log.nextPid
  waited : ∀ pid ∈ r.log.waited, pid < r.log.nextPid
  held : ∀ q pid, (r.heap q).childPid = some pid → pid < r.log.nextPid
  clients : ∀ q pid, r.Live q → (r.heap q).kind = .client → (r.heap q).childPid = some pid →
    pid ∉ r.log.importers
  owners : ∀ c o pid, r.Live c → (r.heap c).owner = some o → (r.heap o).childPid = some pid →
    pid ∉ r.log.importers

/-- A record for the importer that runs. -/
structure Tracked (r : Reactor) : Prop where
  known : r.importRunning = true ↔ ∃ pid, r.Unreaped pid
  single : ∀ pid other, r.Unreaped pid → r.Unreaped other → pid = other
  watched : ∀ pid, r.Unreaped pid → ∃ c, r.Live c ∧ (r.heap c).kind = .importChild ∧
    (r.heap c).childPid = some pid ∧ r.interest c = some .input
  records : ∀ c, r.Live c → (r.heap c).kind = .importChild →
    ∃ pid, (r.heap c).childPid = some pid ∧ r.Unreaped pid
  unique : ∀ c d, r.Live c → (r.heap c).kind = .importChild → r.Live d →
    (r.heap d).kind = .importChild → c = d

structure Importing (r : Reactor) : Prop where
  issued : Issued r
  tracked : Tracked r

section Assignments

variable {r mid after : Reactor} {p q c o : Ptr} {sys : Sys} {a : CallResults} {pid : Nat}

/-! ## Importers left alone -/

/-- The importers, their records and the flag stay, and nobody comes to wait for one. -/
structure Quiet (r after : Reactor) : Prop where
  running : after.importRunning = r.importRunning
  importers : after.log.importers = r.log.importers
  nextPid : after.log.nextPid = r.log.nextPid
  waits : ∀ pid, pid ∈ r.log.waited → pid ∈ after.log.waited
  waited : ∀ pid, pid ∈ after.log.waited →
    pid ∈ r.log.waited ∨ pid < r.log.nextPid ∧ pid ∉ r.log.importers
  held : ∀ q pid, (after.heap q).childPid = some pid →
    (r.heap q).childPid = some pid ∨ pid < r.log.nextPid ∧ pid ∉ r.log.importers
  clients : ∀ q, after.Live q → (after.heap q).kind = .client →
    (after.heap q).childPid = none ∨ r.Live q ∧ (r.heap q).kind = .client
  owners : ∀ c o, after.Live c → (after.heap c).owner = some o →
    (∃ d, r.Live d ∧ (r.heap d).owner = some o) ∨ r.Live o ∧ (r.heap o).kind = .client
  watchers : ∀ q, after.Live q ∧ (after.heap q).kind = .importChild ↔
    r.Live q ∧ (r.heap q).kind = .importChild
  record : ∀ q, r.Live q → (r.heap q).kind = .importChild →
    (after.heap q).childPid = (r.heap q).childPid ∧ after.interest q = r.interest q

theorem Quiet.issued (quiet : Quiet r after) (issued : Issued r) : Issued after where
  importers pid member := by
    rw [quiet.importers] at member
    rw [quiet.nextPid]
    exact issued.importers pid member
  waited pid member := by
    rw [quiet.nextPid]
    rcases quiet.waited pid member with before | other
    · exact issued.waited pid before
    · exact other.1
  held q pid holds := by
    rw [quiet.nextPid]
    rcases quiet.held q pid holds with before | other
    · exact issued.held q pid before
    · exact other.1
  clients q pid alive client holds := by
    rw [quiet.importers]
    rcases quiet.held q pid holds with before | other
    · rcases quiet.clients q alive client with nothing | was
      · rw [nothing] at holds
        contradiction
      · exact issued.clients q pid was.1 was.2 before
    · exact other.2
  owners c o pid alive owned holds := by
    rw [quiet.importers]
    rcases quiet.held o pid holds with before | other
    · rcases quiet.owners c o alive owned with ⟨d, live, owns⟩ | client
      · exact issued.owners d o pid live owns before
      · exact issued.clients o pid client.1 client.2 before
    · exact other.2

theorem Quiet.unreaped (quiet : Quiet r after) : after.Unreaped pid ↔ r.Unreaped pid := by
  unfold Unreaped
  rw [quiet.importers]
  constructor
  · intro runs
    exact ⟨runs.1, fun before => runs.2 (quiet.waits pid before)⟩
  · intro runs
    refine ⟨runs.1, fun later => ?_⟩
    rcases quiet.waited pid later with before | other
    · exact runs.2 before
    · exact other.2 runs.1

theorem Quiet.tracked (quiet : Quiet r after) (tracked : Tracked r) : Tracked after where
  known := by
    rw [quiet.running, tracked.known]
    exact exists_congr fun pid => quiet.unreaped.symm
  single pid other runs alsoRuns :=
    tracked.single pid other (quiet.unreaped.mp runs) (quiet.unreaped.mp alsoRuns)
  watched pid runs := by
    obtain ⟨c, alive, kind, holds, interest⟩ := tracked.watched pid (quiet.unreaped.mp runs)
    obtain ⟨stays, still⟩ := (quiet.watchers c).mpr ⟨alive, kind⟩
    obtain ⟨childPid, registered⟩ := quiet.record c alive kind
    exact ⟨c, stays, still, childPid.trans holds, registered.trans interest⟩
  records c alive kind := by
    obtain ⟨was, before⟩ := (quiet.watchers c).mp ⟨alive, kind⟩
    obtain ⟨pid, holds, runs⟩ := tracked.records c was before
    exact ⟨pid, (quiet.record c was before).1.trans holds, quiet.unreaped.mpr runs⟩
  unique c d alive kind alsoAlive alsoKind := by
    obtain ⟨was, before⟩ := (quiet.watchers c).mp ⟨alive, kind⟩
    obtain ⟨alsoWas, alsoBefore⟩ := (quiet.watchers d).mp ⟨alsoAlive, alsoKind⟩
    exact tracked.unique c d was before alsoWas alsoBefore

theorem Quiet.importing (quiet : Quiet r after) (importing : Importing r) : Importing after :=
  ⟨quiet.issued importing.issued, quiet.tracked importing.tracked⟩

/-- Changes of other fields of the records. -/
theorem quiet_of_books
    (books : ∀ q, (after.heap q).kind = (r.heap q).kind ∧ (after.heap q).owner = (r.heap q).owner ∧
      (after.heap q).childPid = (r.heap q).childPid)
    (allocated : after.allocated = r.allocated)
    (interest : ∀ q, r.Live q → (r.heap q).kind = .importChild → after.interest q = r.interest q)
    (running : after.importRunning = r.importRunning)
    (importers : after.log.importers = r.log.importers) (waited : after.log.waited = r.log.waited)
    (nextPid : after.log.nextPid = r.log.nextPid) : Quiet r after := by
  have live : ∀ q, after.Live q ↔ r.Live q := by
    intro q
    rw [Live, Live, allocated, (books q).1]
  constructor
  case running => exact running
  case importers => exact importers
  case nextPid => exact nextPid
  case waits =>
    intro pid member
    rw [waited]
    exact member
  case waited =>
    intro pid member
    rw [waited] at member
    exact Or.inl member
  case held =>
    intro q pid holds
    rw [(books q).2.2] at holds
    exact Or.inl holds
  case clients =>
    intro q alive client
    rw [(books q).1] at client
    exact Or.inr ⟨(live q).mp alive, client⟩
  case owners =>
    intro c o alive owned
    rw [(books c).2.1] at owned
    exact Or.inl ⟨c, (live c).mp alive, owned⟩
  case watchers =>
    intro q
    rw [live, (books q).1]
  case record =>
    intro q alive kind
    exact ⟨(books q).2.2, interest q alive kind⟩

theorem Local.quiet (change : Local p r after) : Quiet r after := by
  refine quiet_of_books ?_ change.allocated ?_ change.importRunning ?_ ?_ ?_
  · intro q
    by_cases same : q = p
    · rw [same]
      exact ⟨change.kind, change.owner, change.childPid⟩
    · rw [change.others q same]
      exact ⟨rfl, rfl, rfl⟩
  · intro q _ _
    rw [change.interest]
  all_goals rw [change.log]

theorem Stages.quiet (staged : Stages p r after) : Quiet r after := by
  refine quiet_of_books ?_ staged.allocated ?_ staged.importRunning ?_ ?_ ?_
  · intro q
    by_cases same : q = p
    · rw [same]
      exact ⟨staged.kind, staged.owner, staged.childPid⟩
    · rw [staged.others q same]
      exact ⟨rfl, rfl, rfl⟩
  · intro q _ _
    rw [staged.interest]
  all_goals rw [staged.log]

theorem sendHeader_quiet (other : (r.heap p).kind ≠ .importChild) (a : CallResults)
    (text : Bytes) : Quiet r (r.sendHeader a p text) := by
  have log := sendHeader_log r a p text
  refine quiet_of_books ?_ (epollSet_fields _ a p _).1 ?_ ?_ ?_ ?_ ?_
  · intro q
    by_cases same : q = p
    · rw [same, sendHeader_self]
      exact ⟨rfl, rfl, rfl⟩
    · rw [sendHeader_of_ne same]
      exact ⟨rfl, rfl, rfl⟩
  · intro q _ kind
    have different : q ≠ p := by
      intro same
      rw [same] at kind
      exact other kind
    exact epollSet_of_ne different
  · unfold sendHeader epollSet
    split <;> rfl
  all_goals rw [log]

/-- Registering a record that watches no importer. -/
theorem epollAdd_quiet (other : (r.heap p).kind ≠ .importChild) (events : Interest) :
    Quiet r (r.epollAdd p events) := by
  refine quiet_of_books (fun _ => ⟨rfl, rfl, rfl⟩) rfl ?_ rfl rfl rfl rfl
  intro q _ kind
  have different : q ≠ p := by
    intro same
    rw [same] at kind
    exact other kind
  exact Function.update_of_ne different _ _

/-! ## Closing -/

theorem modify_childPid (r : Reactor) (p q : Ptr) (change : Record → Record)
    (same : ∀ cc, (change cc).childPid = cc.childPid) :
    ((r.modify p change).heap q).childPid = (r.heap q).childPid := by
  by_cases here : q = p
  · rw [here, modify_self]
    exact same _
  · rw [modify_of_ne _ _ here]

theorem bury_childPid (r : Reactor) (p q : Ptr) :
    ((r.bury p).heap q).childPid = (r.heap q).childPid := by
  by_cases here : q = p
  · rw [here, bury_self]
    rfl
  · obtain ⟨link, same⟩ := r.bury_of_ne here
    rw [same]
    rfl

/-- Closing leaves the number of a child where it is. -/
theorem connCloseWithin_childPid (sys : Sys) (bound : Nat) (p q : Ptr) (r : Reactor) :
    ((connCloseWithin sys bound p r).heap q).childPid = (r.heap q).childPid := by
  induction bound generalizing p r with
  | zero => rfl
  | succ bound inductionHypothesis =>
      have released : ((r.release sys p).heap q).childPid = (r.heap q).childPid :=
        modify_childPid r p q Record.released fun _ => rfl
      have childless : ∀ (mid : Reactor) (o : Ptr),
          ((mid.modify o Record.childless).heap q).childPid = (mid.heap q).childPid :=
        fun mid o => modify_childPid mid o q Record.childless fun _ => rfl
      rw [connCloseWithin]
      split
      next => rfl
      next =>
        dsimp only
        rw [bury_childPid]
        cases ((r.release sys p).heap p).child with
        | none =>
            dsimp only
            split
            next => exact released
            next => exact (childless _ _).trans released
        | some child =>
            dsimp only
            let orphaned := ((r.release sys p).touch child).modify child fun cc => cc.ownedBy none
            have disowned : (orphaned.heap q).childPid = ((r.release sys p).heap q).childPid :=
              modify_childPid _ child q (fun cc => cc.ownedBy none) fun _ => rfl
            have closed : (((connCloseWithin sys bound child orphaned).modify p
                Record.childless).heap q).childPid = (r.heap q).childPid :=
              (childless _ _).trans
                ((inductionHypothesis child orphaned).trans (disowned.trans released))
            split
            next => exact closed
            next => exact (childless _ _).trans closed

/-- Closing a record that watches no importer. -/
theorem connClose_quiet (consistent : Consistent r)
    (valid : r.Live p ∧ (r.heap p).owner = none ∨ (r.heap p).kind = .dead)
    (other : (r.heap p).kind ≠ .importChild) (sys : Sys) : Quiet r (r.connClose sys p) := by
  rcases valid with ⟨alive, ownerless⟩ | dead
  · have removed := @connClose_removed _ sys _ consistent alive ownerless
    have spared : ∀ q, (r.heap q).kind = .importChild → q ∉ (r.heap p).child.toList ++ [p] := by
      intro q kind doomed
      rcases List.mem_append.mp doomed with isChild | isRecord
      · have hash := (consistent.child p q alive (Option.mem_toList.mp isChild)).2.2.1
        rw [kind] at hash
        contradiction
      · rw [List.mem_singleton.mp isRecord] at kind
        exact other kind
    have childPid := connCloseWithin_childPid sys (r.fresh + 1) p (r := r)
    constructor
    case running => exact removed.importRunning
    case importers => exact by rw [removed.log]
    case nextPid => exact by rw [removed.log]
    case waits =>
      intro pid member
      rw [removed.log]
      exact member
    case waited =>
      intro pid member
      rw [removed.log] at member
      exact Or.inl member
    case held =>
      intro q pid holds
      exact Or.inl ((childPid q).symm.trans holds)
    case clients =>
      intro q live client
      obtain ⟨was, outside⟩ := removed.live.mp live
      obtain ⟨link, same⟩ := removed.others q outside
      rw [same] at client
      exact Or.inr ⟨was, client⟩
    case owners =>
      intro c o live owned
      obtain ⟨was, outside⟩ := removed.live.mp live
      obtain ⟨link, same⟩ := removed.others c outside
      rw [same] at owned
      exact Or.inl ⟨c, was, owned⟩
    case watchers =>
      intro q
      rw [removed.live]
      constructor
      · rintro ⟨⟨was, outside⟩, kind⟩
        obtain ⟨link, same⟩ := removed.others q outside
        rw [same] at kind
        exact ⟨was, kind⟩
      · rintro ⟨was, kind⟩
        obtain ⟨link, same⟩ := removed.others q (spared q kind)
        rw [same]
        exact ⟨⟨was, spared q kind⟩, kind⟩
    case record =>
      intro q _ kind
      refine ⟨childPid q, ?_⟩
      rw [removed.interest, if_neg (spared q kind)]
  · rw [connClose_dead dead]
    exact quiet_of_books (fun _ => ⟨rfl, rfl, rfl⟩) rfl (fun _ _ _ => rfl) rfl rfl rfl rfl

/-! ## Processes -/

/-- A process that is no importer is forked. -/
theorem Importing.forkHasher (importing : Importing r) : Importing r.forkHasher where
  issued :=
    { importers := fun pid member => Nat.lt_succ_of_lt (importing.issued.importers pid member)
      waited := fun pid member => Nat.lt_succ_of_lt (importing.issued.waited pid member)
      held := fun q pid holds => Nat.lt_succ_of_lt (importing.issued.held q pid holds)
      clients := importing.issued.clients
      owners := importing.issued.owners }
  tracked :=
    ⟨importing.tracked.known, importing.tracked.single, importing.tracked.watched,
      importing.tracked.records, importing.tracked.unique⟩

theorem Issued.forked (issued : Issued r) :
    r.log.nextPid < r.forkHasher.log.nextPid ∧ r.log.nextPid ∉ r.forkHasher.log.importers :=
  ⟨Nat.lt_succ_self _, fun member => Nat.lt_irrefl _ (issued.importers _ member)⟩

/-- Waiting for a process that is no importer. -/
theorem waitpid_quiet (small : pid < r.log.nextPid) (other : pid ∉ r.log.importers) :
    Quiet r (r.waitpid pid) where
  running := rfl
  importers := rfl
  nextPid := rfl
  waits _ member := List.mem_cons_of_mem _ member
  waited found member := by
    rcases List.mem_cons.mp member with same | before
    · rw [same]
      exact Or.inr ⟨small, other⟩
    · exact Or.inl before
  held _ _ holds := Or.inl holds
  clients _ alive client := Or.inr ⟨alive, client⟩
  owners c _ alive owned := Or.inl ⟨c, alive, owned⟩
  watchers _ := Iff.rfl
  record _ _ _ := ⟨rfl, rfl⟩

/-! ## New records -/

/-- A connection is accepted. -/
theorem connNew_quiet (consistent : Consistent r) (now : Int) :
    Quiet r (r.connNew .client now) := by
  have old : ∀ {q}, r.Live q → (r.connNew .client now).heap q = r.heap q :=
    fun alive => connNew_of_ne (consistent.ne_fresh alive)
  have live : ∀ q, (r.connNew .client now).Live q ↔ q = r.fresh ∨ r.Live q :=
    fun q => connNew_live ConnKind.noConfusion
  have record := connNew_self r .client now
  constructor
  case running => exact rfl
  case importers => exact rfl
  case nextPid => exact rfl
  case waits => exact fun _ => id
  case waited => exact fun _ => Or.inl
  case held =>
    intro q pid holds
    by_cases fresh : q = r.fresh
    · rw [fresh, record] at holds
      contradiction
    · rw [connNew_of_ne fresh] at holds
      exact Or.inl holds
  case clients =>
    intro q alive client
    rcases (live q).mp alive with fresh | was
    · rw [fresh, record]
      exact Or.inl rfl
    · rw [old was] at client
      exact Or.inr ⟨was, client⟩
  case owners =>
    intro c o alive owned
    rcases (live c).mp alive with fresh | was
    · rw [fresh, record] at owned
      contradiction
    · rw [old was] at owned
      exact Or.inl ⟨c, was, owned⟩
  case watchers =>
    intro q
    rw [live]
    constructor
    · rintro ⟨fresh | was, kind⟩
      · rw [fresh, record] at kind
        contradiction
      · rw [old was] at kind
        exact ⟨was, kind⟩
    · rintro ⟨was, kind⟩
      rw [old was]
      exact ⟨Or.inr was, kind⟩
  case record =>
    intro q alive _
    rw [old alive]
    exact ⟨rfl, rfl⟩

/-- A client gets the record of a hash child. -/
theorem linkHashChild_spares (serving : Serving p r) (a : CallResults)
    (small : pid < r.log.nextPid) (other : pid ∉ r.log.importers) :
    Quiet r (r.linkHashChild a p pid) := by
  have consistent := serving.consistent
  have notFresh := consistent.ne_fresh serving.alive
  have live : ∀ q, (r.linkHashChild a p pid).Live q ↔ q = r.fresh ∨ r.Live q :=
    fun q => linkHashChild_live notFresh
  have atRecord : (r.linkHashChild a p pid).heap p = (r.heap p).hashing r.fresh pid a.now := by
    rw [linkHashChild_heap, pairHashChild_self notFresh]
  have atChild : (r.linkHashChild a p pid).heap r.fresh =
      ((Record.new .hashChild a.now).linkTo r.conns).ownedBy (some p) := by
    rw [linkHashChild_heap, pairHashChild_child notFresh]
  have elsewhere : ∀ q, q ≠ p → q ≠ r.fresh → (r.linkHashChild a p pid).heap q = r.heap q := by
    intro q different old
    rw [linkHashChild_heap, pairHashChild_of_ne different old]
  have log := (linkHashChild_grows r a p pid).1
  have watcher : ∀ q, r.Live q → (r.heap q).kind = .importChild → q ≠ p := by
    intro q _ kind same
    rw [same, serving.client] at kind
    contradiction
  constructor
  case running =>
    unfold linkHashChild epollSet
    split <;> rfl
  case importers => exact by rw [log]
  case nextPid => exact by rw [log]
  case waits =>
    intro found member
    rw [log]
    exact member
  case waited =>
    intro found member
    rw [log] at member
    exact Or.inl member
  case held =>
    intro q found holds
    by_cases same : q = p
    · rw [same, atRecord] at holds
      obtain rfl : pid = found := Option.some.inj holds
      exact Or.inr ⟨small, other⟩
    · by_cases fresh : q = r.fresh
      · rw [fresh, atChild] at holds
        contradiction
      · rw [elsewhere q same fresh] at holds
        exact Or.inl holds
  case clients =>
    intro q alive client
    by_cases same : q = p
    · rw [same]
      exact Or.inr ⟨serving.alive, serving.client⟩
    · rcases (live q).mp alive with fresh | was
      · rw [fresh, atChild] at client
        contradiction
      · rw [elsewhere q same (consistent.ne_fresh was)] at client
        exact Or.inr ⟨was, client⟩
  case owners =>
    intro c o alive owned
    by_cases same : c = p
    · rw [same, atRecord] at owned
      exact Or.inl ⟨p, serving.alive, owned⟩
    · rcases (live c).mp alive with fresh | was
      · rw [fresh, atChild] at owned
        obtain rfl : p = o := Option.some.inj owned
        exact Or.inr ⟨serving.alive, serving.client⟩
      · rw [elsewhere c same (consistent.ne_fresh was)] at owned
        exact Or.inl ⟨c, was, owned⟩
  case watchers =>
    intro q
    constructor
    · rintro ⟨alive, kind⟩
      have different : q ≠ p := by
        intro same
        rw [same, atRecord] at kind
        have client : (r.heap p).kind = .importChild := kind
        rw [serving.client] at client
        contradiction
      rcases (live q).mp alive with fresh | was
      · rw [fresh, atChild] at kind
        contradiction
      · rw [elsewhere q different (consistent.ne_fresh was)] at kind
        exact ⟨was, kind⟩
    · rintro ⟨was, kind⟩
      rw [elsewhere q (watcher q was kind) (consistent.ne_fresh was)]
      exact ⟨(live q).mpr (Or.inr was), kind⟩
  case record =>
    intro q was kind
    rw [elsewhere q (watcher q was kind) (consistent.ne_fresh was)]
    exact ⟨rfl, linkHashChild_interest (watcher q was kind)⟩

/-- A record for an importer that is forked while none runs. -/
theorem Importing.grown (importing : Importing r) (consistent : Consistent r)
    (idle : r.importRunning = false) {now : Int}
    (record : after.heap r.fresh =
      ((Record.new .importChild now).linkTo r.conns).watching r.log.nextPid)
    (elsewhere : ∀ q, q ≠ r.fresh → after.heap q = r.heap q)
    (live : ∀ q, after.Live q ↔ q = r.fresh ∨ r.Live q)
    (log : after.log = r.forkImporter.log) (running : after.importRunning = true)
    (watched : after.interest r.fresh = some .input) : Importing after := by
  have issued := importing.issued
  have nobody : ∀ pid, ¬r.Unreaped pid := by
    intro pid runs
    have running := importing.tracked.known.mpr ⟨pid, runs⟩
    rw [idle] at running
    contradiction
  have runs : after.Unreaped r.log.nextPid := by
    unfold Unreaped
    rw [log]
    exact ⟨List.mem_cons_self, fun member => Nat.lt_irrefl _ (issued.waited _ member)⟩
  have only : ∀ pid, after.Unreaped pid → pid = r.log.nextPid := by
    intro pid unreaped
    unfold Unreaped at unreaped
    rw [log] at unreaped
    rcases List.mem_cons.mp unreaped.1 with same | before
    · exact same
    · exact absurd ⟨before, unreaped.2⟩ (nobody pid)
  have fresh : ∀ c, after.Live c → (after.heap c).kind = .importChild → c = r.fresh := by
    intro c alive kind
    rcases (live c).mp alive with fresh | was
    · exact fresh
    · rw [elsewhere c (consistent.ne_fresh was)] at kind
      obtain ⟨pid, _, unreaped⟩ := importing.tracked.records c was kind
      exact absurd unreaped (nobody pid)
  have outside : ∀ q pid, (r.heap q).childPid = some pid → pid ∉ r.log.importers →
      pid ∉ after.log.importers := by
    intro q pid holds before member
    rw [log] at member
    rcases List.mem_cons.mp member with same | inside
    · exact Nat.ne_of_lt (issued.held q pid holds) same
    · exact before inside
  refine ⟨⟨?_, ?_, ?_, ?_, ?_⟩, ⟨?_, ?_, ?_, ?_, ?_⟩⟩
  · intro pid member
    rw [log] at member ⊢
    rcases List.mem_cons.mp member with same | before
    · rw [same]
      exact Nat.lt_succ_self _
    · exact Nat.lt_succ_of_lt (issued.importers pid before)
  · intro pid member
    rw [log] at member ⊢
    exact Nat.lt_succ_of_lt (issued.waited pid member)
  · intro q pid holds
    rw [log]
    by_cases isFresh : q = r.fresh
    · rw [isFresh, record] at holds
      obtain rfl : r.log.nextPid = pid := Option.some.inj holds
      exact Nat.lt_succ_self _
    · rw [elsewhere q isFresh] at holds
      exact Nat.lt_succ_of_lt (issued.held q pid holds)
  · intro q pid alive client holds
    rcases (live q).mp alive with isFresh | was
    · rw [isFresh, record] at client
      contradiction
    · rw [elsewhere q (consistent.ne_fresh was)] at client holds
      exact outside q pid holds (issued.clients q pid was client holds)
  · intro c o pid alive owned holds
    rcases (live c).mp alive with isFresh | was
    · rw [isFresh, record] at owned
      contradiction
    · rw [elsewhere c (consistent.ne_fresh was)] at owned
      have older := (consistent.owner c o was owned).2.1
      rw [elsewhere o (Nat.ne_of_lt (Nat.lt_trans older (consistent.allocated_lt was.1)))] at holds
      exact outside o pid holds (issued.owners c o pid was owned holds)
  · exact ⟨fun _ => ⟨_, runs⟩, fun _ => running⟩
  · intro pid other unreaped alsoUnreaped
    rw [only pid unreaped, only other alsoUnreaped]
  · intro pid unreaped
    rw [only pid unreaped]
    refine ⟨r.fresh, (live _).mpr (Or.inl rfl), ?_, ?_, watched⟩
    · rw [record]
      rfl
    · rw [record]
      rfl
  · intro c alive kind
    rw [fresh c alive kind, record]
    exact ⟨_, rfl, runs⟩
  · intro c d alive kind alsoAlive alsoKind
    rw [fresh c alive kind, fresh d alsoAlive alsoKind]

theorem Importing.imports (importing : Importing r) (consistent : Consistent r)
    (idle : r.importRunning = false) (watches : a.WatchesImporters) :
    Importing (r.forkImporter.watchImporter a r.log.nextPid) := by
  apply importing.grown consistent idle (watchImporter_self r.forkImporter a r.log.nextPid)
    (fun q different => watchImporter_of_ne different) (fun q => watchImporter_live)
  · rw [watchImporter_eq]
    rfl
  · rw [watchImporter_eq]
    rfl
  · rw [watchImporter_eq, if_pos watches.2.2]
    exact Function.update_self _ _ _

/-! ## Handlers -/

theorem Serving.notImporter (serving : Serving p r) : (r.heap p).kind ≠ .importChild := by
  rw [serving.client]
  exact ConnKind.noConfusion

theorem Responds.importing (answered : Responds a p r after) (importing : Importing r)
    (consistent : Consistent r) (client : r.Live p → (r.heap p).kind = .client)
    (old : r.Live p ∨ (r.heap p).kind = .dead) : Importing after := by
  have other : (r.heap p).kind ≠ .importChild := by
    rcases old with alive | dead
    · rw [client alive]
      exact ConnKind.noConfusion
    · rw [dead]
      exact ConnKind.noConfusion
  cases answered with
  | sends change text =>
      apply (sendHeader_quiet _ a text).importing (change.quiet.importing importing)
      rw [change.kind]
      exact other
  | closes change =>
      have changed := change.consistent consistent client
      apply (connClose_quiet changed _ _ a.sys).importing (change.quiet.importing importing)
      · rcases old with alive | dead
        · have still := change.live.mpr alive
          refine Or.inl ⟨still, changed.client_ownerless still ?_⟩
          rw [change.kind]
          exact client alive
        · rw [change.kind]
          exact Or.inr dead
      · rw [change.kind]
        exact other

/-- Whatever a handler does, the server knows of the importers. -/
theorem Handles.importing {settled : Prop}
    (handled : Handles CallResults.WatchesImporters settled p r after) (serving : Serving p r)
    (importing : Importing r) : Importing after := by
  induction handled with
  | done => exact importing
  | changes change _ inductionHypothesis =>
      exact inductionHypothesis (change.serving serving) (change.quiet.importing importing)
  | stages staged _ inductionHypothesis =>
      exact inductionHypothesis (staged.serving serving) (staged.quiet.importing importing)
  | reaps _ inductionHypothesis =>
      obtain ⟨small, other⟩ := importing.issued.forked
      exact inductionHypothesis ((serving.withLog _).withLog _)
        ((waitpid_quiet small other).importing importing.forkHasher)
  | untracked a watches failed _ _ =>
      rcases failed with unopened | unallocated
      · rw [watches.1] at unopened
        contradiction
      · rw [watches.2.1] at unallocated
        contradiction
  | @imports r _ a watches idle _ inductionHypothesis =>
      have forked : Serving p r.forkImporter := serving.withLog _
      exact inductionHypothesis (forked.watchImporter a _)
        (importing.imports serving.consistent idle watches)
  | @hashes r a _ _ _ =>
      obtain ⟨small, other⟩ := importing.issued.forked
      have forked : Serving p r.forkHasher := serving.withLog _
      have linked := (linkHashChild_spares forked a small other).importing importing.forkHasher
      apply (epollAdd_quiet _ .input).importing linked
      have child := @pairHashChild_child r.forkHasher p a r.log.nextPid
        (forked.consistent.ne_fresh forked.alive)
      have kind : ((r.forkHasher.linkHashChild a p r.log.nextPid).heap r.fresh).kind =
          .hashChild := by
        rw [linkHashChild_heap]
        exact congrArg Record.kind child
      rw [kind]
      exact ConnKind.noConfusion
  | @unwatched r _ a _ _ _ answered =>
      obtain ⟨small, other⟩ := importing.issued.forked
      have forked : Serving p r.forkHasher := serving.withLog _
      have linked := (linkHashChild_spares forked a small other).importing importing.forkHasher
      have later := forked.linkHashChild a r.log.nextPid
      exact answered.importing linked later.consistent (fun _ => later.client)
        (Or.inl later.alive)
  | answers a _ answered =>
      exact answered.importing importing serving.consistent (fun _ => serving.client)
        (Or.inl serving.alive)

/-! ## Events -/

theorem withLog_quiet (r : Reactor) {log : History} (importers : log.importers = r.log.importers)
    (waited : log.waited = r.log.waited) (nextPid : log.nextPid = r.log.nextPid) :
    Quiet r (r.withLog log) :=
  quiet_of_books (fun _ => ⟨rfl, rfl, rfl⟩) rfl (fun _ _ _ => rfl) rfl importers waited nextPid

theorem enter_quiet (r : Reactor) (p : Ptr) : Quiet r (r.enter p) := withLog_quiet r rfl rfl rfl

theorem Serving.connClose_importing (serving : Serving p r) (importing : Importing r)
    (sys : Sys) : Importing (r.connClose sys p) :=
  (connClose_quiet serving.consistent (Or.inl ⟨serving.alive,
    serving.consistent.client_ownerless serving.alive serving.client⟩) serving.notImporter
      sys).importing importing

theorem handleWrite_importing (serving : Serving p r) (importing : Importing r) (sys : Sys)
    (now : Int) (answers : List Written) : Importing (handleWrite sys now p answers r) := by
  rcases handleWrite_local (r := r) (p := p) sys now answers with change | ⟨mid, change, closed⟩
  · exact change.quiet.importing importing
  · rw [closed]
    exact (change.serving serving).connClose_importing (change.quiet.importing importing) sys

theorem acceptLoop_importing {accepts : List Accepted} (consistent : Consistent r)
    (importing : Importing r) : Importing (acceptLoop accepts r) := by
  induction accepts generalizing r with
  | nil => exact importing
  | cons accept rest inductionHypothesis =>
      cases accept with
      | tryAgain => exact importing
      | failed => exact importing
      | interrupted => exact inductionHypothesis consistent importing
      | accepted a =>
          have made := @Consistent.connNew _ consistent .client ConnKind.noConfusion a.now
          have grown := (connNew_quiet consistent a.now).importing importing
          have record := connNew_self r .client a.now
          have alive : (r.connNew .client a.now).Live r.fresh :=
            (connNew_live ConnKind.noConfusion).mpr (Or.inl rfl)
          have serving : Serving r.fresh (r.connNew .client a.now) :=
            ⟨made, alive, congrArg Record.kind record⟩
          rw [acceptLoop]
          split
          next => exact inductionHypothesis consistent importing
          next =>
            dsimp only
            split
            next =>
              exact inductionHypothesis (made.epollAdd alive _)
                ((epollAdd_quiet serving.notImporter _).importing grown)
            next =>
              exact inductionHypothesis (serving.connClose a.sys).consistent
                (serving.connClose_importing grown a.sys)

/-- A hash child is waited for by its owner. -/
theorem Importing.reapHashChild (importing : Importing r)
    (other : (r.heap p).kind ≠ .importChild)
    (apart : ∀ pid, (r.heap p).childPid = some pid → pid ∉ r.log.importers) :
    Importing (r.reapHashChild p) := by
  have reaped : ∀ waited : Reactor, Importing waited → (waited.heap p).kind ≠ .importChild →
      Importing (waited.modify p Record.reaped) := by
    intro waited known kind
    have elsewhere : ∀ q, (waited.heap q).kind = .importChild → q ≠ p := by
      intro q watcher same
      rw [same] at watcher
      exact kind watcher
    have books : ∀ q, ((waited.modify p Record.reaped).heap q).kind = (waited.heap q).kind ∧
        ((waited.modify p Record.reaped).heap q).owner = (waited.heap q).owner := by
      intro q
      by_cases same : q = p
      · rw [same, modify_self]
        exact ⟨rfl, rfl⟩
      · rw [modify_of_ne _ _ same]
        exact ⟨rfl, rfl⟩
    have live : ∀ q, (waited.modify p Record.reaped).Live q ↔ waited.Live q := by
      intro q
      rw [Live, Live, (books q).1]
      exact Iff.rfl
    have quiet : Quiet waited (waited.modify p Record.reaped) := by
      constructor
      case running => exact rfl
      case importers => exact rfl
      case nextPid => exact rfl
      case waits => exact fun _ => id
      case waited => exact fun _ => Or.inl
      case held =>
        intro q pid holds
        by_cases same : q = p
        · rw [same, modify_self] at holds
          contradiction
        · rw [modify_of_ne _ _ same] at holds
          exact Or.inl holds
      case clients =>
        intro q alive client
        rw [(books q).1] at client
        exact Or.inr ⟨(live q).mp alive, client⟩
      case owners =>
        intro c o alive owned
        rw [(books c).2] at owned
        exact Or.inl ⟨c, (live c).mp alive, owned⟩
      case watchers =>
        intro q
        rw [live, (books q).1]
      case record =>
        intro q _ watcher
        rw [modify_of_ne _ _ (elsewhere q watcher)]
        exact ⟨rfl, rfl⟩
    exact quiet.importing known
  unfold Reactor.reapHashChild
  apply reaped
  · split
    next => exact importing
    next pid holds =>
      exact (waitpid_quiet (importing.issued.held p pid holds) (apart pid holds)).importing
        importing
  · split <;> exact other

theorem finishUpload_importing (importing : Importing r) (orphan : Orphan r p)
    (apart : ∀ pid, (r.heap p).childPid = some pid → pid ∉ r.log.importers) (a : CallResults)
    (output : Bytes) : Importing (r.finishUpload a p output) := by
  have other : (r.heap p).kind ≠ .importChild := by
    rcases orphan.old with alive | dead
    · rw [orphan.client alive]
      exact ConnKind.noConfusion
    · rw [dead]
      exact ConnKind.noConfusion
  have reaped := importing.reapHashChild other apart
  have consistent := orphan.consistent.reapHashChild p
  have client : (r.reapHashChild p).Live p → ((r.reapHashChild p).heap p).kind = .client := by
    intro alive
    rw [reapHashChild_self]
    exact orphan.client (reapHashChild_live.mp alive)
  have old : (r.reapHashChild p).Live p ∨ ((r.reapHashChild p).heap p).kind = .dead := by
    rw [reapHashChild_live, reapHashChild_self]
    exact orphan.old
  rcases finishUpload_cases r a p output with ⟨response, answered⟩ | ⟨digest, response, answered⟩
  · rw [answered]
    exact (respond_responds _ a p response).importing reaped consistent client old
  · rw [answered]
    generalize (commitUpload _ _ _ _ digest).1 = done
    generalize r.reapHashChild p = waited at reaped consistent client old
    have kind : ((waited.withStore done).modify p Record.unstaged).heap p =
        (waited.heap p).unstaged := modify_self _ _ _
    have dropped : Quiet waited ((waited.withStore done).modify p Record.unstaged) := by
      refine quiet_of_books ?_ rfl (fun _ _ _ => rfl) rfl rfl rfl rfl
      intro q
      by_cases same : q = p
      · rw [same, modify_self]
        exact ⟨rfl, rfl, rfl⟩
      · rw [modify_of_ne _ _ same]
        exact ⟨rfl, rfl, rfl⟩
    apply (respond_responds _ a p response).importing (dropped.importing reaped)
      ((consistent.withStore done).unstaged client)
    · intro alive
      rw [Live, kind] at alive
      rw [kind]
      exact client alive
    · rw [Live, kind]
      exact old

/-- The link between a hash child and its owner. -/
theorem Consistent.letGo_quiet (consistent : Consistent r) (alive : r.Live c)
    (owned : (r.heap c).owner = some o) : Quiet r (r.letGo c o) := by
  have different := consistent.owner_ne alive owned
  have books : ∀ q, ((r.letGo c o).heap q).kind = (r.heap q).kind ∧
      (((r.letGo c o).heap q).owner = (r.heap q).owner ∨ ((r.letGo c o).heap q).owner = none) ∧
        ((r.letGo c o).heap q).childPid = (r.heap q).childPid := by
    intro q
    by_cases isChild : q = c
    · rw [isChild, letGo_child different]
      exact ⟨rfl, Or.inr rfl, rfl⟩
    · by_cases isOwner : q = o
      · rw [isOwner, letGo_owner different]
        exact ⟨rfl, Or.inl rfl, rfl⟩
      · rw [letGo_of_ne isChild isOwner]
        exact ⟨rfl, Or.inl rfl, rfl⟩
  have live : ∀ q, (r.letGo c o).Live q ↔ r.Live q := fun q => consistent.letGo_live alive owned
  constructor
  case running => exact rfl
  case importers => exact rfl
  case nextPid => exact rfl
  case waits => exact fun _ => id
  case waited => exact fun _ => Or.inl
  case held =>
    intro q pid holds
    rw [(books q).2.2] at holds
    exact Or.inl holds
  case clients =>
    intro q here client
    rw [(books q).1] at client
    exact Or.inr ⟨(live q).mp here, client⟩
  case owners =>
    intro d owner here owns
    rcases (books d).2.1 with same | none
    · rw [same] at owns
      exact Or.inl ⟨d, (live d).mp here, owns⟩
    · rw [none] at owns
      contradiction
  case watchers =>
    intro q
    rw [live, (books q).1]
  case record =>
    intro q _ _
    exact ⟨(books q).2.2, rfl⟩

theorem hashChildEvent_importing (importing : Importing r) (consistent : Consistent r)
    (alive : r.Live c) (hash : (r.heap c).kind = .hashChild) (a : CallResults)
    (output : Bytes) : Importing (r.hashChildEvent a c output) := by
  have other : (r.heap c).kind ≠ .importChild := by
    rw [hash]
    exact ConnKind.noConfusion
  have ends := r.hashChildEvent_ends a c output
  generalize r.hashChildEvent a c output = after at ends ⊢
  cases ends with
  | alone ownerless =>
      exact (connClose_quiet consistent (Or.inl ⟨alive, ownerless⟩) other a.sys).importing importing
  | @finishes o owned =>
      have different := consistent.owner_ne alive owned
      have removed := consistent.letGo_removed alive owned a.sys
      have child := letGo_child (r := r) different
      have loose := (consistent.letGo_quiet alive owned).importing importing
      have closed : Importing ((r.letGo c o).connClose a.sys c) := by
        apply (connClose_quiet (consistent.letGo alive owned) _ _ a.sys).importing loose
        · refine Or.inl ⟨(consistent.letGo_live alive owned).mpr alive, ?_⟩
          rw [child]
          rfl
        · rw [child]
          exact other
      apply finishUpload_importing closed (consistent.orphan alive owned a.sys)
      intro pid holds
      have before : ((r.letGo c o).heap o).childPid = some pid :=
        (connCloseWithin_childPid a.sys _ c o _).symm.trans holds
      rw [letGo_owner different] at before
      rw [removed.log]
      exact importing.issued.owners c o pid alive owned before

/-- The importer a record watches is over: it was the one that ran. -/
theorem importChildEvent_importing (importing : Importing r) (consistent : Consistent r)
    (alive : r.Live c) (importer : (r.heap c).kind = .importChild) (sys : Sys) :
    Importing (r.importChildEvent sys c) := by
  have reaped : Consistent (r.reapImporter c) := (consistent.withLog _).withImportRunning _
  have ownerless : ((r.reapImporter c).heap c).owner = none := by
    apply reaped.ownerless alive
    show (r.heap c).kind ≠ .hashChild
    rw [importer]
    exact ConnKind.noConfusion
  have removed := @connClose_removed _ sys _ reaped alive ownerless
  obtain ⟨pid, holds, runs⟩ := importing.tracked.records c alive importer
  have log : ((r.reapImporter c).connClose sys c).log =
      { r.log with waited := pid :: r.log.waited } := by
    rw [removed.log]
    show { r.log with waited := (r.heap c).childPid.toList ++ r.log.waited } = _
    rw [holds]
    rfl
  have childPid : ∀ q, (((r.reapImporter c).connClose sys c).heap q).childPid =
      (r.heap q).childPid := fun q => connCloseWithin_childPid sys _ c q _
  have stays : ∀ q, ((r.reapImporter c).connClose sys c).Live q → r.Live q ∧ q ≠ c ∧
      ∃ link, ((r.reapImporter c).connClose sys c).heap q = (r.heap q).linkTo link := by
    intro q live
    obtain ⟨was, outside⟩ := removed.live.mp live
    refine ⟨was, fun same => outside ?_, removed.others q outside⟩
    rw [same]
    exact List.mem_append_right _ (List.mem_singleton_self c)
  have nobody : ∀ other, ¬((r.reapImporter c).connClose sys c).Unreaped other := by
    intro other unreaped
    unfold Unreaped at unreaped
    rw [log] at unreaped
    have before : r.Unreaped other :=
      ⟨unreaped.1, fun waited => unreaped.2 (List.mem_cons_of_mem _ waited)⟩
    rw [importing.tracked.single other pid before runs] at unreaped
    exact unreaped.2 List.mem_cons_self
  have nowhere : ∀ q, ((r.reapImporter c).connClose sys c).Live q →
      (((r.reapImporter c).connClose sys c).heap q).kind ≠ .importChild := by
    intro q live kind
    obtain ⟨was, different, link, same⟩ := stays q live
    rw [same] at kind
    exact different (importing.tracked.unique q c was kind alive importer)
  have stopped : ((r.reapImporter c).connClose sys c).importRunning = false :=
    removed.importRunning
  rw [importChildEvent_eq]
  refine ⟨⟨?_, ?_, ?_, ?_, ?_⟩, ⟨?_, ?_, ?_, ?_, ?_⟩⟩
  · intro other member
    rw [log] at member ⊢
    exact importing.issued.importers other member
  · intro other member
    rw [log] at member ⊢
    rcases List.mem_cons.mp member with same | before
    · rw [same]
      exact importing.issued.importers pid runs.1
    · exact importing.issued.waited other before
  · intro q other has
    rw [childPid] at has
    rw [log]
    exact importing.issued.held q other has
  · intro q other live client has
    obtain ⟨was, _, link, same⟩ := stays q live
    rw [childPid] at has
    rw [same] at client
    rw [log]
    exact importing.issued.clients q other was client has
  · intro d o other live owned has
    obtain ⟨was, _, link, same⟩ := stays d live
    rw [childPid] at has
    rw [same] at owned
    rw [log]
    exact importing.issued.owners d o other was owned has
  · rw [stopped]
    exact ⟨fun absurdity => absurd absurdity Bool.false_ne_true,
      fun ⟨other, unreaped⟩ => absurd unreaped (nobody other)⟩
  · intro other _ unreaped
    exact absurd unreaped (nobody other)
  · intro other unreaped
    exact absurd unreaped (nobody other)
  · intro q live kind
    exact absurd kind (nowhere q live)
  · intro q _ live kind
    exact absurd kind (nowhere q live)

theorem clientEvent_importing {conf : Conf} (importing : Importing r) (serving : Serving p r)
    (ready : Ready) {calls : EventCalls} (watches : (Step.event calls).WatchesImporters) :
    Importing (r.clientEvent conf p ready calls) := by
  unfold clientEvent
  dsimp only
  split
  next => exact serving.connClose_importing importing _
  next =>
    generalize reading : (if ready.readable then handleRead conf p calls.reads (r.enter p) else r)
      = read
    have kept : Importing read ∧ Served p read ∧ read.allocated p = true := by
      rw [← reading]
      split
      next =>
        have permitted : ∀ read ∈ calls.reads, read.2.WatchesImporters := by
          intro read member
          exact watches read.2 (List.mem_cons_of_mem _ (List.mem_map_of_mem member))
        have entered : Serving p (r.enter p) := serving.withLog _
        have handled := @handleRead_handles _ False conf p (r.enter p) _ permitted False.elim
        exact ⟨handled.importing entered ((enter_quiet r p).importing importing),
          handled.served entered, handled.proceeds.allocated p serving.alive.1⟩
      next => exact ⟨importing, serving.served, serving.alive.1⟩
    split
    next writing =>
      have client := kept.2.1.kind.resolve_right writing.1
      have still : Serving p read :=
        ⟨kept.2.1.consistent, live_of_kind kept.2.2 client ConnKind.noConfusion, client⟩
      exact handleWrite_importing (still.withLog _) ((enter_quiet read p).importing kept.1) _ _ _
    next => exact kept.1

/-- Every event keeps the importers known. -/
theorem dispatchEvent_importing {conf : Conf} (importing : Importing r)
    (consistent : Consistent r) (allocated : r.allocated p = true) (ready : Ready)
    {calls : EventCalls} (watches : (Step.event calls).WatchesImporters) :
    Importing (dispatchEvent conf r p ready calls) := by
  unfold dispatchEvent
  rw [touch_of_allocated allocated]
  dsimp only
  split
  next => exact importing
  next =>
    have entered : Consistent (r.enter p) := consistent.withLog _
    exact acceptLoop_importing entered ((enter_quiet r p).importing importing)
  next kind =>
    exact hashChildEvent_importing importing consistent
      (live_of_kind allocated kind ConnKind.noConfusion) kind _ _
  next kind =>
    exact importChildEvent_importing importing consistent
      (live_of_kind allocated kind ConnKind.noConfusion) kind _
  next kind =>
    exact clientEvent_importing importing
      ⟨consistent, live_of_kind allocated kind ConnKind.noConfusion, kind⟩ ready watches

end Assignments

/-! ## Runs -/

section Runs

variable {r after : Reactor} {conf : Conf}

/-- A sweep closes clients and hash children only. -/
theorem Sweeps.importing {sys : Sys} {now : Int} {nodes : List Ptr}
    (sweeps : Sweeps sys now nodes r after) (ahead : Ahead r nodes) (importing : Importing r) :
    Importing after := by
  induction sweeps with
  | done => exact importing
  | spares _ _ inductionHypothesis => exact inductionHypothesis ahead.spare importing
  | closes alive stalled _ inductionHypothesis =>
      have serving : Serving _ _ := ⟨ahead.consistent, alive, stalled.1⟩
      exact inductionHypothesis (ahead.close stalled.1 sys)
        (serving.connClose_importing importing sys)

theorem Consistent.drainPendingFree_quiet (consistent : Consistent r) :
    Quiet r r.drainPendingFree := by
  obtain ⟨conns, pend, linked⟩ := consistent.lists
  have live : ∀ q, r.drainPendingFree.Live q ↔ r.Live q := fun q => drainPendingFree_live linked
  constructor
  case running => exact rfl
  case importers => exact rfl
  case nextPid => exact rfl
  case waits => exact fun _ => id
  case waited => exact fun _ => Or.inl
  case held => exact fun _ _ => Or.inl
  case clients =>
    intro q alive client
    exact Or.inr ⟨(live q).mp alive, client⟩
  case owners =>
    intro c o alive owned
    exact Or.inl ⟨c, (live c).mp alive, owned⟩
  case watchers =>
    intro q
    rw [live]
    exact Iff.rfl
  case record =>
    intro q _ _
    exact ⟨rfl, rfl⟩

theorem withBatch_quiet (r : Reactor) (waiting : Bool) (batch : List (Ptr × Ready)) :
    Quiet r { r with waiting := waiting, batch := batch } :=
  quiet_of_books (fun _ => ⟨rfl, rfl, rfl⟩) rfl (fun _ _ _ => rfl) rfl rfl rfl rfl

theorem step_importing (tidy : Tidy r) (importing : Importing r) {s : Step}
    (watches : s.WatchesImporters) : Importing (step conf r s) := by
  unfold step
  split
  next => exact importing
  next =>
    cases s with
    | wait batch =>
        dsimp only
        split
        next => exact (withBatch_quiet r false batch).importing importing
        next => exact importing
    | event calls =>
        dsimp only
        split
        next => exact importing
        next p ready rest batch =>
          have allocated : r.allocated p = true :=
            tidy.batch (p, ready) (by rw [batch]; exact List.mem_cons_self)
          exact dispatchEvent_importing ((withBatch_quiet r r.waiting rest).importing importing)
            (tidy.consistent.withBatch r.waiting rest) allocated ready watches
    | finish sys now =>
        dsimp only
        split
        next =>
          obtain ⟨conns, pend, linked⟩ := tidy.consistent.lists
          obtain ⟨ahead, sweeps, _⟩ := sweepTimeouts_sweeps tidy.consistent linked sys now
          have consistent := (sweeps.swept ahead).consistent
          have swept := sweeps.importing ahead importing
          exact (withBatch_quiet _ true _).importing
            (consistent.drainPendingFree_quiet.importing swept)
        next => exact importing
    | outside files =>
        have quiet : Quiet r (r.withStore (r.store.withFiles (disturbed r.store files))) :=
          quiet_of_books (fun _ => ⟨rfl, rfl, rfl⟩) rfl (fun _ _ _ => rfl) rfl rfl rfl rfl
        exact quiet.importing importing

theorem start_importing (st : Store) (now : Int) : Importing (start st now) := by
  have none : ∀ pid, ¬(start st now).Unreaped pid := fun pid runs => List.not_mem_nil runs.1
  have kind : ∀ c, ((start st now).heap c).kind ≠ .importChild := fun _ => ConnKind.noConfusion
  refine ⟨⟨?_, ?_, ?_, ?_, ?_⟩, ⟨?_, ?_, ?_, ?_, ?_⟩⟩
  · exact fun pid member => absurd member List.not_mem_nil
  · exact fun pid member => absurd member List.not_mem_nil
  · exact fun q pid holds => absurd holds (Option.some_ne_none pid).symm
  · exact fun q pid _ _ _ => List.not_mem_nil
  · exact fun c o pid _ _ _ => List.not_mem_nil
  · exact ⟨fun running => absurd running Bool.false_ne_true,
      fun ⟨pid, runs⟩ => absurd runs (none pid)⟩
  · exact fun pid _ runs => absurd runs (none pid)
  · exact fun pid runs => absurd runs (none pid)
  · exact fun c _ importer => absurd importer (kind c)
  · exact fun c _ _ importer => absurd importer (kind c)

/-- In every state of a run the importers are known, as long as they could be watched. -/
theorem run_importing {st : Store} {now : Int} {steps : List Step}
    (legal : Along Legal (step conf) (start st now) steps)
    (watches : ∀ s ∈ steps, s.WatchesImporters) :
    Tidy (run (step conf) (start st now) steps) ∧
      Importing (run (step conf) (start st now) steps) := by
  have both := legal.and (@along_of_forall _ _ (fun _ s => Step.WatchesImporters s) _ _ _
    fun s member _ => watches s member)
  apply run_invariant (motive := fun r => Tidy r ∧ Importing r) _
    ⟨start_tidy st now, start_importing st now⟩ both
  intro r s kept allowed
  exact ⟨step_tidy kept.1 allowed.1, step_importing kept.1 kept.2 allowed.2⟩

/-- The event of the record that watches an importer waits for it and clears the flag. -/
theorem importer_cleared {c : Ptr} {pid : Nat} (consistent : Consistent r) (alive : r.Live c)
    (importer : (r.heap c).kind = .importChild) (holds : (r.heap c).childPid = some pid)
    (conf : Conf) (ready : Ready) (calls : EventCalls) :
    (dispatchEvent conf r c ready calls).importRunning = false ∧
      pid ∈ (dispatchEvent conf r c ready calls).log.waited := by
  have reaped : Consistent (r.reapImporter c) := (consistent.withLog _).withImportRunning _
  have ownerless : ((r.reapImporter c).heap c).owner = none := by
    apply reaped.ownerless alive
    show (r.heap c).kind ≠ .hashChild
    rw [importer]
    exact ConnKind.noConfusion
  have removed := @connClose_removed _ calls.answers.sys _ reaped alive ownerless
  unfold dispatchEvent
  rw [touch_of_allocated alive.1]
  dsimp only
  rw [importer]
  dsimp only
  rw [importChildEvent_eq, removed.importRunning, removed.log]
  refine ⟨rfl, ?_⟩
  show pid ∈ (r.heap c).childPid.toList ++ r.log.waited
  rw [holds]
  exact List.mem_cons_self

/-- The server knows whether an importer runs: while importers can be watched, the flag
is set if and only if an importer was forked and not waited for, there is one such
importer at most, and its end clears the flag. -/
theorem importer_known (conf : Conf) (st : Store) (now : Int) (steps : List Step)
    (legal : Along Legal (step conf) (start st now) steps)
    (watches : ∀ s ∈ steps, s.WatchesImporters) :
    ImportKnown (run (step conf) (start st now) steps) := by
  obtain ⟨tidy, importing⟩ := run_importing legal watches
  generalize run (step conf) (start st now) steps = r at tidy importing
  refine ⟨importing.tracked.known, importing.tracked.single, ?_⟩
  intro pid runs
  obtain ⟨c, alive, importer, holds, interest⟩ := importing.tracked.watched pid runs
  refine ⟨c, ?_, importer_cleared tidy.consistent alive importer holds⟩
  unfold Reports
  rw [interest]
  exact ⟨fun _ => rfl, fun writable => absurd writable Bool.false_ne_true⟩

end Runs

end Reactor

/-! ### Requests for an import -/

def importBytes : Bytes := ascii "POST /api/v1/import HTTP/1.1\r\n\r\n"

def importStarted : List Step := Reactor.receiving [(.succeeding 0, importBytes)]

theorem importStarted_runs : (Reactor.after importStarted).Unreaped 0 := by
  decide +kernel

/-- The flag is set while the importer runs. -/
theorem import_running : (Reactor.after importStarted).importRunning = true := by
  have known := Reactor.importer_known Conf.sample (Store.holding [] []) 0 importStarted
    (by decide +kernel) (by decide +kernel)
  rw [Reactor.after_eq] at known
  exact known.known.mpr ⟨0, importStarted_runs⟩

/-- Every call but the `pidfd_open` of an importer succeeds. -/
def CallResults.unwatched : CallResults :=
  { CallResults.succeeding 0 with opensPidfd := fun kind => decide (kind ≠ .importChild) }

def importUnwatched : List Step := Reactor.receiving [(.unwatched, importBytes)]

theorem importUnwatched_legal :
    Along Reactor.Legal (Reactor.step Conf.sample) (Reactor.start (Store.holding [] []) 0)
      importUnwatched := by
  decide +kernel

theorem importUnwatched_runs :
    (Reactor.after importUnwatched).Unreaped 0 ∧
      (Reactor.after importUnwatched).importRunning = false := by
  decide +kernel

/-- Every call but the registration of an importer succeeds. -/
def CallResults.unregistered : CallResults :=
  { CallResults.succeeding 0 with registers := fun kind => decide (kind ≠ .importChild) }

def importUnregistered : List Step := Reactor.receiving [(.unregistered, importBytes)]

theorem importUnregistered_unwatched :
    (Reactor.after importUnregistered).importRunning = true ∧
      ∀ c < (Reactor.after importUnregistered).fresh,
        ((Reactor.after importUnregistered).interest c).isSome →
          ((Reactor.after importUnregistered).heap c).kind ≠ .importChild := by
  decide +kernel

/-- One importer runs, and the flag says that none does: another can be started. Where it
is the registration that fails, the flag is set and no event can clear it. -/
theorem importer_unknown :
    (Along Reactor.Legal (Reactor.step Conf.sample) (Reactor.start (Store.holding [] []) 0)
        importUnwatched ∧
      ¬Reactor.ImportKnown (Reactor.after importUnwatched)) ∧
      (Reactor.after importUnregistered).importRunning = true ∧
        ∀ c < (Reactor.after importUnregistered).fresh,
          ((Reactor.after importUnregistered).interest c).isSome →
            ((Reactor.after importUnregistered).heap c).kind ≠ .importChild := by
  obtain ⟨runs, flag⟩ := importUnwatched_runs
  refine ⟨⟨importUnwatched_legal, fun known => Bool.false_ne_true ?_⟩,
    importUnregistered_unwatched⟩
  exact flag.symm.trans (known.known.mpr ⟨0, runs⟩)

end CixCache
