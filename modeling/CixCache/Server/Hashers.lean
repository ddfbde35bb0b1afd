import CixCache.Server.Tracking

/-!
Contract: every hash child is waited for once, as long as no connection is closed while its
upload is hashed.

Owns: `WaitedOnce`, what becomes of a forked `sha256sum`; `Attended`, which steps forget none;
`Accounted`, one waiting connection for every one that still runs; that every event, the
sweep and every step keep it while attended; a run in which a client hangs up too early.

Does not own: importers and staging files.
-/

namespace CixCache

open CixCache.Lib

/-- A hash child that was forked for a complete upload is watched, and nothing else is
awaited of its connection. -/
def CallResults.WatchesHashers (a : CallResults) : Prop :=
  a.modifies .quiet = true ∧ a.registers .hashChild = true

instance (a : CallResults) : Decidable a.WatchesHashers :=
  inferInstanceAs (Decidable (_ ∧ _))

/-- Both readable and writable is never asked for. -/
def Interest.OneSided (interest : Interest) : Prop :=
  ¬(interest.readable = true ∧ interest.writable = true)

namespace Reactor

/-- A connection whose upload is being hashed. -/
def BeingHashed (r : Reactor) (p : Ptr) : Prop :=
  r.Live p ∧ (r.heap p).kind = .client ∧ (r.heap p).state = .hashing

instance (r : Reactor) (p : Ptr) : Decidable (r.BeingHashed p) :=
  inferInstanceAs (Decidable (_ ∧ _ ∧ _))

/-- The step watches the hash children it forks and closes no connection that is being
hashed: no end of it is reported and none is overdue. -/
def Attended (r : Reactor) (s : Step) : Prop :=
  (∀ a ∈ s.answers, a.WatchesHashers) ∧
    match s with
    | .event _ => ∀ event ∈ r.batch.head?, event.2.hangup = true → ¬r.BeingHashed event.1
    | .finish _ now =>
        r.waiting = false → r.batch = [] →
          ∀ p < r.fresh, r.BeingHashed p → ¬Stalled (r.heap p) now
    | _ => True

instance (r : Reactor) : (s : Step) → Decidable (r.Attended s)
  | .wait _ => inferInstanceAs (Decidable (_ ∧ True))
  | .event _ => inferInstanceAs (Decidable (_ ∧ ∀ event ∈ r.batch.head?, _))
  | .finish _ _ => inferInstanceAs (Decidable (_ ∧ (_ → r.batch = [] → _)))
  | .outside _ => inferInstanceAs (Decidable (_ ∧ True))

/-- A hash child was waited for once, or it was not and a connection is left that will:
the record of the process can be reported, and its event waits for it. -/
def WaitedOnce (r : Reactor) (pid : Nat) : Prop :=
  r.log.waited.count pid = 1 ∨
    r.log.waited.count pid = 0 ∧ ∃ o c, r.Live o ∧ (r.heap o).kind = .client ∧
      (r.heap o).child = some c ∧ (r.heap o).childPid = some pid ∧ r.Reports (c, .input) ∧
        ∀ conf ready calls, (dispatchEvent conf r c ready calls).log.waited.count pid = 1

/-- A client that waits for no process. -/
def Idle (r : Reactor) (p : Ptr) : Prop :=
  (r.heap p).child = none ∧ (r.heap p).childPid = none

/-- A client that waits for its hash child. -/
structure Awaits (r : Reactor) (p c : Ptr) (pid : Nat) : Prop where
  state : (r.heap p).state = .hashing
  interest : r.interest p = some .quiet
  child : (r.heap p).child = some c
  childPid : (r.heap p).childPid = some pid
  watched : r.interest c = some .input
  forked : pid ∈ r.log.hashers
  runs : pid ∉ r.log.waited

/-- Every hash child that runs is awaited by one client, which is its owner. -/
structure Accounted (r : Reactor) : Prop where
  hashers : ∀ pid ∈ r.log.hashers, pid < r.log.nextPid
  waited : ∀ pid ∈ r.log.waited, pid < r.log.nextPid
  importers : ∀ c pid, r.Live c → (r.heap c).kind = .importChild →
    (r.heap c).childPid = some pid → pid < r.log.nextPid ∧ pid ∉ r.log.hashers
  sided : ∀ p interest, r.Live p → r.interest p = some interest → interest.OneSided
  clients : ∀ p, r.Live p → (r.heap p).kind = .client →
    r.Idle p ∨ ∃ c pid, r.Awaits p c pid
  owners : ∀ c o, r.Live c → (r.heap c).owner = some o → r.Live o ∧ (r.heap o).child = some c
  reaped : ∀ pid ∈ r.log.hashers, r.log.waited.count pid = 1 ∨
    r.log.waited.count pid = 0 ∧
      ∃ p, r.Live p ∧ (r.heap p).kind = .client ∧ (r.heap p).childPid = some pid
  distinct : ∀ p q pid, r.Live p → (r.heap p).kind = .client → r.Live q →
    (r.heap q).kind = .client → (r.heap p).childPid = some pid →
      (r.heap q).childPid = some pid → p = q

/-- A record nobody's process depends on. -/
structure Loose (r : Reactor) (p : Ptr) : Prop where
  client : (r.heap p).kind = .client → r.Idle p
  ownerless : (r.heap p).owner = none
  importer : (r.heap p).kind = .importChild → ∀ pid, (r.heap p).childPid = some pid →
    pid < r.log.nextPid ∧ pid ∉ r.log.hashers
  sided : ∀ interest, r.interest p = some interest → interest.OneSided

section Assignments

variable {r mid after : Reactor} {p q c o : Ptr} {sys : Sys} {a : CallResults} {pid : Nat}
  {touched : List Ptr}

theorem Interest.oneSided_input : Interest.input.OneSided := fun both => Bool.false_ne_true both.2

theorem Interest.oneSided_output : Interest.output.OneSided := fun both =>
  Bool.false_ne_true both.1

theorem Interest.oneSided_quiet : Interest.quiet.OneSided := fun both => Bool.false_ne_true both.1

/-- A wait is kept where the client's record, both registrations and the process are. -/
theorem Awaits.carry (awaits : r.Awaits p c pid)
    (record : ∃ link, after.heap p = (r.heap p).linkTo link)
    (interest : after.interest p = r.interest p) (watched : after.interest c = r.interest c)
    (forked : pid ∈ after.log.hashers) (runs : pid ∉ after.log.waited) :
    after.Awaits p c pid := by
  obtain ⟨link, same⟩ := record
  refine ⟨?_, interest.trans awaits.interest, ?_, ?_, watched.trans awaits.watched, forked, runs⟩
  · rw [same]
    exact awaits.state
  · rw [same]
    exact awaits.child
  · rw [same]
    exact awaits.childPid

/-! ## Records nobody depends on -/

/-- Only records nobody's process depends on are touched. -/
structure Undisturbed (touched : List Ptr) (r after : Reactor) : Prop where
  hashers : after.log.hashers = r.log.hashers
  waited : after.log.waited = r.log.waited
  nextPid : after.log.nextPid = r.log.nextPid
  live : ∀ q, q ∉ touched → (after.Live q ↔ r.Live q)
  others : ∀ q, q ∉ touched → r.Live q →
    (∃ link, after.heap q = (r.heap q).linkTo link) ∧ after.interest q = r.interest q
  before : ∀ q ∈ touched, r.Live q → r.Loose q
  loose : ∀ q ∈ touched, after.Live q → after.Loose q

/-- Who waits for a process is not touched. -/
theorem Undisturbed.untouched (undisturbed : Undisturbed touched r after) (alive : r.Live p)
    (client : (r.heap p).kind = .client) (busy : (r.heap p).childPid = some pid) :
    p ∉ touched := by
  intro member
  rw [((undisturbed.before p member alive).client client).2] at busy
  contradiction

theorem Undisturbed.awaits (undisturbed : Undisturbed touched r after)
    (consistent : Consistent r) (alive : r.Live p) (client : (r.heap p).kind = .client)
    (awaits : r.Awaits p c pid) : after.Awaits p c pid := by
  obtain ⟨record, interest⟩ :=
    undisturbed.others p (undisturbed.untouched alive client awaits.childPid) alive
  obtain ⟨_, childLive, _, owned, _⟩ := consistent.child p c alive awaits.child
  have outside : c ∉ touched := by
    intro member
    rw [(undisturbed.before c member childLive).ownerless] at owned
    contradiction
  apply awaits.carry record interest (undisturbed.others c outside childLive).2
  · rw [undisturbed.hashers]
    exact awaits.forked
  · rw [undisturbed.waited]
    exact awaits.runs

theorem Undisturbed.accounted (undisturbed : Undisturbed touched r after)
    (consistent : Consistent r) (accounted : Accounted r) : Accounted after := by
  have kept : ∀ {q}, after.Live q → q ∉ touched → r.Live q ∧
      (∃ link, after.heap q = (r.heap q).linkTo link) ∧ after.interest q = r.interest q := by
    intro q alive outside
    have was := (undisturbed.live q outside).mp alive
    exact ⟨was, undisturbed.others q outside was⟩
  have busy : ∀ {q pid}, after.Live q → (after.heap q).kind = .client →
      (after.heap q).childPid = some pid →
        r.Live q ∧ (r.heap q).kind = .client ∧ (r.heap q).childPid = some pid := by
    intro q pid alive client holds
    have outside : q ∉ touched := by
      intro member
      rw [((undisturbed.loose q member alive).client client).2] at holds
      contradiction
    obtain ⟨was, ⟨link, same⟩, _⟩ := kept alive outside
    rw [same] at client holds
    exact ⟨was, client, holds⟩
  constructor
  case hashers =>
    intro pid member
    rw [undisturbed.hashers] at member
    rw [undisturbed.nextPid]
    exact accounted.hashers pid member
  case waited =>
    intro pid member
    rw [undisturbed.waited] at member
    rw [undisturbed.nextPid]
    exact accounted.waited pid member
  case importers =>
    intro c pid alive importer holds
    by_cases member : c ∈ touched
    · exact (undisturbed.loose c member alive).importer importer pid holds
    · obtain ⟨was, ⟨link, same⟩, _⟩ := kept alive member
      rw [same] at importer holds
      rw [undisturbed.nextPid, undisturbed.hashers]
      exact accounted.importers c pid was importer holds
  case sided =>
    intro p interest alive found
    by_cases member : p ∈ touched
    · exact (undisturbed.loose p member alive).sided interest found
    · obtain ⟨was, _, same⟩ := kept alive member
      rw [same] at found
      exact accounted.sided p interest was found
  case clients =>
    intro p alive client
    by_cases member : p ∈ touched
    · exact Or.inl ((undisturbed.loose p member alive).client client)
    · obtain ⟨was, ⟨link, same⟩, _⟩ := kept alive member
      rw [same] at client
      rcases accounted.clients p was client with idle | ⟨c, pid, awaits⟩
      · refine Or.inl ?_
        unfold Idle
        rw [same]
        exact idle
      · exact Or.inr ⟨c, pid, undisturbed.awaits consistent was client awaits⟩
  case owners =>
    intro c o alive owned
    by_cases member : c ∈ touched
    · rw [(undisturbed.loose c member alive).ownerless] at owned
      contradiction
    · obtain ⟨was, ⟨link, same⟩, _⟩ := kept alive member
      rw [same] at owned
      obtain ⟨ownerLive, has⟩ := accounted.owners c o was owned
      have outside : o ∉ touched := by
        intro inside
        have client := (consistent.child o c ownerLive has).1
        rw [((undisturbed.before o inside ownerLive).client client).1] at has
        contradiction
      obtain ⟨⟨ownerLink, ownerSame⟩, _⟩ := undisturbed.others o outside ownerLive
      rw [ownerSame]
      exact ⟨(undisturbed.live o outside).mpr ownerLive, has⟩
  case reaped =>
    intro pid member
    rw [undisturbed.hashers] at member
    rw [undisturbed.waited]
    rcases accounted.reaped pid member with once | ⟨never, p, alive, client, holds⟩
    · exact Or.inl once
    · have outside := undisturbed.untouched alive client holds
      obtain ⟨⟨link, same⟩, _⟩ := undisturbed.others p outside alive
      refine Or.inr ⟨never, p, (undisturbed.live p outside).mpr alive, ?_, ?_⟩
      · rw [same]
        exact client
      · rw [same]
        exact holds
  case distinct =>
    intro p q pid alive client alsoAlive alsoClient holds alsoHolds
    obtain ⟨was, wasClient, held⟩ := busy alive client holds
    obtain ⟨alsoWas, alsoWasClient, alsoHeld⟩ := busy alsoAlive alsoClient alsoHolds
    exact accounted.distinct p q pid was wasClient alsoWas alsoWasClient held alsoHeld

theorem Loose.congr (loose : r.Loose p) (kind : (after.heap p).kind = (r.heap p).kind)
    (child : (after.heap p).child = (r.heap p).child)
    (childPid : (after.heap p).childPid = (r.heap p).childPid)
    (owner : (after.heap p).owner = (r.heap p).owner)
    (interest : after.interest p = r.interest p ∨
      ∃ interest, after.interest p = some interest ∧ interest.OneSided)
    (nextPid : after.log.nextPid = r.log.nextPid) (hashers : after.log.hashers = r.log.hashers) :
    after.Loose p where
  client isClient := by
    unfold Idle
    rw [child, childPid]
    rw [kind] at isClient
    exact loose.client isClient
  ownerless := owner.trans loose.ownerless
  importer isImporter pid holds := by
    rw [kind] at isImporter
    rw [childPid] at holds
    rw [nextPid, hashers]
    exact loose.importer isImporter pid holds
  sided asked found := by
    rcases interest with same | ⟨other, set, sided⟩
    · rw [same] at found
      exact loose.sided asked found
    · rw [set] at found
      rw [← Option.some.inj found]
      exact sided

/-- Assignments to a record nobody depends on. -/
theorem undisturbed_of_heap (loose : r.Live p → r.Loose p) (still : after.Live p → after.Loose p)
    (others : ∀ q, q ≠ p → after.heap q = r.heap q) (allocated : after.allocated = r.allocated)
    (interest : ∀ q, q ≠ p → after.interest q = r.interest q)
    (hashers : after.log.hashers = r.log.hashers) (waited : after.log.waited = r.log.waited)
    (nextPid : after.log.nextPid = r.log.nextPid) : Undisturbed [p] r after where
  hashers := hashers
  waited := waited
  nextPid := nextPid
  live q outside := by
    rw [Live, Live, allocated, others q fun same => outside (List.mem_singleton.mpr same)]
  others q outside _ := by
    have different : q ≠ p := fun same => outside (List.mem_singleton.mpr same)
    exact ⟨⟨_, others q different⟩, interest q different⟩
  before q member alive := by
    rw [List.mem_singleton.mp member] at alive ⊢
    exact loose alive
  loose q member alive := by
    rw [List.mem_singleton.mp member] at alive ⊢
    exact still alive

theorem Local.loose (change : Local p r after) (loose : r.Loose p) : after.Loose p := by
  apply loose.congr change.kind change.child change.childPid change.owner
  · rw [change.interest]
    exact Or.inl rfl
  all_goals rw [change.log]

theorem Local.undisturbed (change : Local p r after) (loose : r.Live p → r.Loose p) :
    Undisturbed [p] r after := by
  refine undisturbed_of_heap loose (fun alive => change.loose (loose (change.live.mp alive)))
    change.others change.allocated ?_ ?_ ?_ ?_
  · intro q _
    rw [change.interest]
  all_goals rw [change.log]

theorem Stages.loose (staged : Stages p r after) (loose : r.Loose p) : after.Loose p := by
  apply loose.congr staged.kind staged.child staged.childPid staged.owner
  · rw [staged.interest]
    exact Or.inl rfl
  all_goals rw [staged.log]

theorem Stages.undisturbed (staged : Stages p r after) (loose : r.Live p → r.Loose p) :
    Undisturbed [p] r after := by
  refine undisturbed_of_heap loose (fun alive => staged.loose (loose (staged.live.mp alive)))
    staged.others staged.allocated ?_ ?_ ?_ ?_
  · intro q _
    rw [staged.interest]
  all_goals rw [staged.log]

/-- A registration stays or is changed. -/
theorem epollSet_either (r : Reactor) (a : CallResults) (p : Ptr) (events : Interest) :
    (r.epollSet a p events).interest p = r.interest p ∨
      (r.epollSet a p events).interest p = some events := by
  unfold epollSet
  split
  next => exact Or.inr (Function.update_self _ _ _)
  next => exact Or.inl rfl

theorem sendHeader_loose (loose : r.Loose p) (a : CallResults) (text : Bytes) :
    (r.sendHeader a p text).Loose p := by
  have record := sendHeader_self r a p text
  have log := sendHeader_log r a p text
  apply loose.congr
  · rw [record]
    rfl
  · rw [record]
    rfl
  · rw [record]
    rfl
  · rw [record]
    rfl
  · rcases epollSet_either ((r.modify p fun cc => cc.sending text a.now).began p) a p .output with
      same | set
    · exact Or.inl same
    · exact Or.inr ⟨.output, set, Interest.oneSided_output⟩
  all_goals rw [log]

theorem sendHeader_live {text : Bytes} : (r.sendHeader a p text).Live q ↔ r.Live q := by
  have allocated : (r.sendHeader a p text).allocated = r.allocated := (epollSet_fields _ a p _).1
  rw [Live, Live, allocated]
  by_cases same : q = p
  · rw [same, sendHeader_self]
    exact Iff.rfl
  · rw [sendHeader_of_ne same]

theorem sendHeader_undisturbed (loose : r.Live p → r.Loose p) (a : CallResults) (text : Bytes) :
    Undisturbed [p] r (r.sendHeader a p text) := by
  have log := sendHeader_log r a p text
  refine undisturbed_of_heap loose
    (fun alive => sendHeader_loose (loose (sendHeader_live.mp alive)) a text)
    (fun q different => sendHeader_of_ne different) (epollSet_fields _ a p _).1
    (fun q different => epollSet_of_ne different) ?_ ?_ ?_
  all_goals rw [log]

/-- Closing a record nobody depends on, which has no child then. -/
theorem connClose_undisturbed (consistent : Consistent r) (loose : r.Live p → r.Loose p)
    (valid : r.Live p ∨ (r.heap p).kind = .dead) (sys : Sys) :
    Undisturbed [p] r (r.connClose sys p) := by
  rcases valid with alive | dead
  · have idle := loose alive
    have removed := @connClose_removed _ sys _ consistent alive idle.ownerless
    have childless : (r.heap p).child = none := by
      by_cases client : (r.heap p).kind = .client
      · exact (idle.client client).1
      · exact consistent.childless alive client
    rw [childless] at removed
    have doomed : ∀ q, q ∈ (none : Option Ptr).toList ++ [p] ↔ q = p := fun q =>
      List.mem_singleton
    constructor
    case hashers => exact by rw [removed.log]
    case waited => exact by rw [removed.log]
    case nextPid => exact by rw [removed.log]
    case live =>
      intro q outside
      rw [removed.live, doomed]
      exact and_iff_left fun same => outside (List.mem_singleton.mpr same)
    case others =>
      intro q outside _
      have spared : q ∉ (none : Option Ptr).toList ++ [p] := outside
      refine ⟨removed.others q spared, ?_⟩
      rw [removed.interest, if_neg spared]
    case before =>
      intro q member _
      rw [List.mem_singleton.mp member]
      exact idle
    case loose =>
      intro q member live
      exact absurd member (removed.live.mp live).2
  · rw [connClose_dead dead]
    have closed : ∀ q ∈ [p], ¬r.Live q := by
      intro q member live
      rw [List.mem_singleton.mp member] at live
      exact live.2 dead
    exact ⟨rfl, rfl, rfl, fun _ _ => Iff.rfl, fun q _ _ => ⟨⟨(r.heap q).next, rfl⟩, rfl⟩,
      fun q member live => absurd live (closed q member),
      fun q member live => absurd live (closed q member)⟩

/-- No record is touched, and no process forked or waited for. -/
theorem undisturbed_of_same (heap : after.heap = r.heap) (allocated : after.allocated = r.allocated)
    (interest : after.interest = r.interest) (hashers : after.log.hashers = r.log.hashers)
    (waited : after.log.waited = r.log.waited) (nextPid : after.log.nextPid = r.log.nextPid) :
    Undisturbed [] r after where
  hashers := hashers
  waited := waited
  nextPid := nextPid
  live q _ := by
    rw [Live, Live, heap, allocated]
  others q _ _ := by
    rw [heap, interest]
    exact ⟨⟨(r.heap q).next, rfl⟩, rfl⟩
  before _ member := absurd member List.not_mem_nil
  loose _ member := absurd member List.not_mem_nil

/-! ## Processes -/

theorem Accounted.nextPid_unused (accounted : Accounted r) :
    r.log.nextPid ∉ r.log.hashers ∧ r.log.nextPid ∉ r.log.waited :=
  ⟨fun member => Nat.lt_irrefl _ (accounted.hashers _ member),
    fun member => Nat.lt_irrefl _ (accounted.waited _ member)⟩

/-- The importer is forked. -/
theorem Accounted.forkImporter (accounted : Accounted r) : Accounted r.forkImporter where
  hashers pid member := Nat.lt_succ_of_lt (accounted.hashers pid member)
  waited pid member := Nat.lt_succ_of_lt (accounted.waited pid member)
  importers c pid alive kind holds :=
    (accounted.importers c pid alive kind holds).imp_left Nat.lt_succ_of_lt
  sided := accounted.sided
  clients p alive client := (accounted.clients p alive client).imp_right fun ⟨c, pid, awaits⟩ =>
    ⟨c, pid, awaits.state, awaits.interest, awaits.child, awaits.childPid, awaits.watched,
      awaits.forked, awaits.runs⟩
  owners := accounted.owners
  reaped := accounted.reaped
  distinct := accounted.distinct

/-- A process that is no hash child is waited for. -/
theorem Accounted.waits (accounted : Accounted r) (small : pid < r.log.nextPid)
    (other : pid ∉ r.log.hashers) :
    Accounted (r.withLog { r.log with waited := pid :: r.log.waited }) where
  hashers := accounted.hashers
  waited found member := by
    rcases List.mem_cons.mp member with same | before
    · rw [same]
      exact small
    · exact accounted.waited found before
  importers := accounted.importers
  sided := accounted.sided
  clients p alive client := (accounted.clients p alive client).imp_right fun ⟨c, found, awaits⟩ =>
    ⟨c, found, awaits.state, awaits.interest, awaits.child, awaits.childPid, awaits.watched,
      awaits.forked, fun member => (List.mem_cons.mp member).elim
        (fun same => other (same ▸ awaits.forked)) awaits.runs⟩
  owners := accounted.owners
  reaped found member := by
    have different : pid ≠ found := fun same => other (same ▸ member)
    show (pid :: r.log.waited).count found = 1 ∨ (pid :: r.log.waited).count found = 0 ∧ _
    rw [List.count_cons_of_ne different]
    exact accounted.reaped found member
  distinct := accounted.distinct

/-- A hash child that cannot be watched is waited for at once. -/
theorem Accounted.reaps (accounted : Accounted r) :
    Accounted (r.forkHasher.waitpid r.log.nextPid) where
  hashers pid member := by
    rcases List.mem_cons.mp member with same | before
    · rw [same]
      exact Nat.lt_succ_self _
    · exact Nat.lt_succ_of_lt (accounted.hashers pid before)
  waited pid member := by
    rcases List.mem_cons.mp member with same | before
    · rw [same]
      exact Nat.lt_succ_self _
    · exact Nat.lt_succ_of_lt (accounted.waited pid before)
  importers c pid alive kind holds := by
    obtain ⟨small, other⟩ := accounted.importers c pid alive kind holds
    refine ⟨Nat.lt_succ_of_lt small, fun member => ?_⟩
    rcases List.mem_cons.mp member with same | before
    · exact Nat.ne_of_lt small same
    · exact other before
  sided := accounted.sided
  clients p alive client := (accounted.clients p alive client).imp_right fun ⟨c, pid, awaits⟩ =>
    ⟨c, pid, awaits.state, awaits.interest, awaits.child, awaits.childPid, awaits.watched,
      List.mem_cons_of_mem _ awaits.forked, fun member => (List.mem_cons.mp member).elim
        (fun same => accounted.nextPid_unused.1 (same ▸ awaits.forked)) awaits.runs⟩
  owners := accounted.owners
  reaped pid member := by
    show (r.log.nextPid :: r.log.waited).count pid = 1 ∨
      (r.log.nextPid :: r.log.waited).count pid = 0 ∧ _
    rcases List.mem_cons.mp member with same | before
    · rw [same, List.count_cons_self, List.count_eq_zero.mpr accounted.nextPid_unused.2]
      exact Or.inl rfl
    · have different : r.log.nextPid ≠ pid :=
        fun same => accounted.nextPid_unused.1 (same ▸ before)
      rw [List.count_cons_of_ne different]
      exact accounted.reaped pid before
  distinct := accounted.distinct

/-! ## New records -/

/-- Only a new record is added, and nobody depends on it. -/
theorem undisturbed_of_fresh (consistent : Consistent r)
    (others : ∀ q, q ≠ r.fresh → after.heap q = r.heap q)
    (live : ∀ q, after.Live q ↔ q = r.fresh ∨ r.Live q)
    (interest : ∀ q, q ≠ r.fresh → after.interest q = r.interest q)
    (loose : after.Loose r.fresh) (log : after.log = r.log) :
    Undisturbed [r.fresh] r after where
  hashers := by rw [log]
  waited := by rw [log]
  nextPid := by rw [log]
  live q outside := by
    rw [live]
    exact or_iff_right fun same => outside (List.mem_singleton.mpr same)
  others q outside _ := by
    have different : q ≠ r.fresh := fun same => outside (List.mem_singleton.mpr same)
    exact ⟨⟨_, others q different⟩, interest q different⟩
  before q member alive := absurd (List.mem_singleton.mp member) (consistent.ne_fresh alive)
  loose q member _ := by
    rw [List.mem_singleton.mp member]
    exact loose

theorem connNew_loose (consistent : Consistent r) (now : Int) :
    (r.connNew .client now).Loose r.fresh := by
  have record := connNew_self r .client now
  constructor
  case client =>
    intro _
    unfold Idle
    rw [record]
    exact ⟨rfl, rfl⟩
  case ownerless =>
    rw [record]
    rfl
  case importer =>
    intro importer
    rw [record] at importer
    contradiction
  case sided =>
    intro interest found
    have absent : (r.connNew .client now).interest r.fresh = none := consistent.fresh_unregistered
    rw [absent] at found
    contradiction

theorem connNew_undisturbed (consistent : Consistent r) (now : Int) :
    Undisturbed [r.fresh] r (r.connNew .client now) :=
  undisturbed_of_fresh consistent (fun _ different => connNew_of_ne different)
    (fun _ => connNew_live ConnKind.noConfusion) (fun _ _ => rfl) (connNew_loose consistent now) rfl

theorem epollAdd_self (r : Reactor) (p : Ptr) (events : Interest) :
    (r.epollAdd p events).interest p = some events :=
  Function.update_self _ _ _

theorem epollAdd_loose (loose : r.Loose p) (events : Interest) (sided : events.OneSided) :
    (r.epollAdd p events).Loose p := by
  refine ⟨loose.client, loose.ownerless, loose.importer, fun interest found => ?_⟩
  rw [epollAdd_self] at found
  rw [← Option.some.inj found]
  exact sided

theorem epollAdd_undisturbed (loose : r.Loose p) (events : Interest) (sided : events.OneSided) :
    Undisturbed [p] r (r.epollAdd p events) :=
  undisturbed_of_heap (fun _ => loose) (fun _ => epollAdd_loose loose events sided)
    (fun _ _ => rfl) rfl (fun _ different => Function.update_of_ne different _ _) rfl rfl rfl

/-- An importer is forked and gets a record. -/
theorem Accounted.imports (accounted : Accounted r) (consistent : Consistent r)
    (a : CallResults) : Accounted (r.forkImporter.watchImporter a r.log.nextPid) := by
  have forked : Consistent r.forkImporter := consistent.withLog _
  have record := watchImporter_self r.forkImporter a r.log.nextPid
  have log : (r.forkImporter.watchImporter a r.log.nextPid).log = r.forkImporter.log := by
    rw [watchImporter_eq]
    rfl
  refine (undisturbed_of_fresh forked (fun q different => watchImporter_of_ne different)
    (fun q => watchImporter_live) (fun q different => watchImporter_interest different) ?_
      log).accounted forked accounted.forkImporter
  constructor
  case client =>
    intro client
    rw [record] at client
    contradiction
  case ownerless =>
    rw [record]
    rfl
  case importer =>
    intro _ pid holds
    rw [record] at holds
    obtain rfl : r.log.nextPid = pid := Option.some.inj holds
    rw [log]
    exact ⟨Nat.lt_succ_self _, accounted.nextPid_unused.1⟩
  case sided =>
    intro interest found
    rw [watchImporter_eq] at found
    have either : (if a.registers .importChild then Function.update r.interest r.fresh
        (some .input) else r.interest) r.fresh = some interest := found
    split at either
    next =>
      rw [Function.update_self] at either
      rw [← Option.some.inj either]
      exact Interest.oneSided_input
    next =>
      rw [consistent.fresh_unregistered] at either
      contradiction

/-- The client that is read waits for nothing, and its descriptor is registered. -/
structure Reads (p : Ptr) (r : Reactor) : Prop where
  serving : Serving p r
  accounted : Accounted r
  idle : r.Idle p
  registered : (r.interest p).isSome

theorem Reads.loose (reads : Reads p r) : r.Loose p where
  client _ := reads.idle
  ownerless := reads.serving.consistent.client_ownerless reads.serving.alive reads.serving.client
  importer kind := absurd kind reads.serving.notImporter
  sided interest := reads.accounted.sided p interest reads.serving.alive

theorem Local.reads (change : Local p r after) (reads : Reads p r) : Reads p after where
  serving := change.serving reads.serving
  accounted := (change.undisturbed fun _ => reads.loose).accounted reads.serving.consistent
    reads.accounted
  idle := by
    unfold Idle
    rw [change.child, change.childPid]
    exact reads.idle
  registered := by
    rw [change.interest]
    exact reads.registered

theorem Stages.reads (staged : Stages p r after) (reads : Reads p r) : Reads p after where
  serving := staged.serving reads.serving
  accounted := (staged.undisturbed fun _ => reads.loose).accounted reads.serving.consistent
    reads.accounted
  idle := by
    unfold Idle
    rw [staged.child, staged.childPid]
    exact reads.idle
  registered := by
    rw [staged.interest]
    exact reads.registered

/-! ## A hash child more -/

/-- A hash child is forked for a client, which waits for it from then on. -/
structure Grows (p : Ptr) (now : Int) (r after : Reactor) : Prop where
  record : after.heap p = (r.heap p).hashing r.fresh r.log.nextPid now
  child : after.heap r.fresh = ((Record.new .hashChild now).linkTo r.conns).ownedBy (some p)
  elsewhere : ∀ q, q ≠ p → q ≠ r.fresh → after.heap q = r.heap q
  live : ∀ q, after.Live q ↔ q = r.fresh ∨ r.Live q
  log : after.log = r.forkHasher.log
  quiet : after.interest p = some .quiet
  watched : after.interest r.fresh = some .input
  interest : ∀ q, q ≠ p → q ≠ r.fresh → after.interest q = r.interest q

section Growth

variable {now : Int}

theorem Grows.hashers (grows : Grows p now r after) :
    after.log.hashers = r.log.nextPid :: r.log.hashers := by
  rw [grows.log]
  rfl

theorem Grows.waited (grows : Grows p now r after) : after.log.waited = r.log.waited := by
  rw [grows.log]
  rfl

theorem Grows.nextPid (grows : Grows p now r after) :
    after.log.nextPid = r.log.nextPid + 1 := by
  rw [grows.log]
  rfl

/-- Every other record was there and stays as it is. -/
theorem Grows.kept (grows : Grows p now r after) (alive : after.Live q) (different : q ≠ p)
    (notFresh : q ≠ r.fresh) :
    r.Live q ∧ after.heap q = r.heap q ∧ after.interest q = r.interest q :=
  ⟨((grows.live q).mp alive).resolve_left notFresh, grows.elsewhere q different notFresh,
    grows.interest q different notFresh⟩

theorem Grows.notFresh (grows : Grows p now r after) (other : (after.heap q).kind ≠ .hashChild) :
    q ≠ r.fresh := by
  intro same
  rw [same, grows.child] at other
  exact other rfl

theorem Grows.client_notFresh (grows : Grows p now r after)
    (client : (after.heap q).kind = .client) : q ≠ r.fresh := by
  apply grows.notFresh
  rw [client]
  exact ConnKind.noConfusion

/-- Who holds a process is the client it was forked for, or held it before. -/
theorem Grows.holder (grows : Grows p now r after) (alive : after.Live q)
    (client : (after.heap q).kind = .client) (holds : (after.heap q).childPid = some pid) :
    q = p ∧ pid = r.log.nextPid ∨
      r.Live q ∧ (r.heap q).kind = .client ∧ (r.heap q).childPid = some pid := by
  by_cases same : q = p
  · rw [same, grows.record] at holds
    exact Or.inl ⟨same, (Option.some.inj holds).symm⟩
  · obtain ⟨was, record, _⟩ := grows.kept alive same (grows.client_notFresh client)
    rw [record] at client holds
    exact Or.inr ⟨was, client, holds⟩

/-- A process that a client holds was forked. -/
theorem Accounted.forked (accounted : Accounted r) (alive : r.Live q)
    (client : (r.heap q).kind = .client) (holds : (r.heap q).childPid = some pid) :
    pid ∈ r.log.hashers := by
  rcases accounted.clients q alive client with idle | ⟨c, found, awaits⟩
  · rw [idle.2] at holds
    contradiction
  · rw [Option.some.inj (holds.symm.trans awaits.childPid)]
    exact awaits.forked

theorem Grows.importers (grows : Grows p now r after) (accounted : Accounted r)
    (client : (r.heap p).kind = .client) (alive : after.Live c)
    (importer : (after.heap c).kind = .importChild) (holds : (after.heap c).childPid = some pid) :
    pid < after.log.nextPid ∧ pid ∉ after.log.hashers := by
  have different : c ≠ p := by
    intro same
    rw [same, grows.record] at importer
    have kind : (r.heap p).kind = .importChild := importer
    rw [client] at kind
    contradiction
  have old : c ≠ r.fresh := grows.notFresh (by rw [importer]; exact ConnKind.noConfusion)
  obtain ⟨was, same, _⟩ := grows.kept alive different old
  rw [same] at importer holds
  obtain ⟨small, other⟩ := accounted.importers c pid was importer holds
  rw [grows.nextPid, grows.hashers]
  refine ⟨Nat.lt_succ_of_lt small, fun member => ?_⟩
  exact (List.mem_cons.mp member).elim (Nat.ne_of_lt small) other

theorem Grows.sided (grows : Grows p now r after) (accounted : Accounted r) {asked : Interest}
    (alive : after.Live q) (found : after.interest q = some asked) : asked.OneSided := by
  by_cases same : q = p
  · rw [same, grows.quiet] at found
    rw [← Option.some.inj found]
    exact Interest.oneSided_quiet
  by_cases fresh : q = r.fresh
  · rw [fresh, grows.watched] at found
    rw [← Option.some.inj found]
    exact Interest.oneSided_input
  · obtain ⟨was, _, registered⟩ := grows.kept alive same fresh
    rw [registered] at found
    exact accounted.sided q asked was found

/-- The client waits for the child that was forked. -/
theorem Grows.awaits (grows : Grows p now r after) (accounted : Accounted r) :
    after.Awaits p r.fresh r.log.nextPid where
  state := by
    rw [grows.record]
    rfl
  interest := grows.quiet
  child := by
    rw [grows.record]
    rfl
  childPid := by
    rw [grows.record]
    rfl
  watched := grows.watched
  forked := by
    rw [grows.hashers]
    exact List.mem_cons_self
  runs := by
    rw [grows.waited]
    exact accounted.nextPid_unused.2

theorem Grows.clients (grows : Grows p now r after) (accounted : Accounted r)
    (consistent : Consistent r) (client : (r.heap p).kind = .client) (alive : after.Live q)
    (isClient : (after.heap q).kind = .client) : after.Idle q ∨ ∃ c pid, after.Awaits q c pid := by
  by_cases same : q = p
  · rw [same]
    exact Or.inr ⟨r.fresh, r.log.nextPid, grows.awaits accounted⟩
  obtain ⟨was, record, registered⟩ := grows.kept alive same (grows.client_notFresh isClient)
  rw [record] at isClient
  rcases accounted.clients q was isClient with idle | ⟨c, pid, awaits⟩
  · refine Or.inl ?_
    unfold Idle
    rw [record]
    exact idle
  · obtain ⟨_, childLive, hash, _⟩ := consistent.child q c was awaits.child
    have childNotRecord : c ≠ p := by
      intro isRecord
      rw [isRecord, client] at hash
      contradiction
    refine Or.inr ⟨c, pid, awaits.carry ⟨_, record⟩ registered ?_ ?_ ?_⟩
    · exact grows.interest c childNotRecord (consistent.ne_fresh childLive)
    · rw [grows.hashers]
      exact List.mem_cons_of_mem _ awaits.forked
    · rw [grows.waited]
      exact awaits.runs

theorem Grows.owners (grows : Grows p now r after) (accounted : Accounted r)
    (consistent : Consistent r) (serving : r.Live p) (client : (r.heap p).kind = .client)
    (idle : r.Idle p) (alive : after.Live c) (owned : (after.heap c).owner = some o) :
    after.Live o ∧ (after.heap o).child = some c := by
  by_cases fresh : c = r.fresh
  · rw [fresh, grows.child] at owned
    obtain rfl : p = o := Option.some.inj owned
    refine ⟨(grows.live p).mpr (Or.inr serving), ?_⟩
    rw [grows.record, fresh]
    rfl
  · have different : c ≠ p := by
      intro same
      rw [same, grows.record] at owned
      have ownerless := consistent.client_ownerless serving client
      rw [show (r.heap p).owner = some o from owned] at ownerless
      contradiction
    obtain ⟨was, same, _⟩ := grows.kept alive different fresh
    rw [same] at owned
    obtain ⟨ownerLive, has⟩ := accounted.owners c o was owned
    have notRecord : o ≠ p := by
      intro isRecord
      rw [isRecord, idle.1] at has
      contradiction
    rw [grows.elsewhere o notRecord (consistent.ne_fresh ownerLive)]
    exact ⟨(grows.live o).mpr (Or.inr ownerLive), has⟩

theorem Grows.reaped (grows : Grows p now r after) (accounted : Accounted r)
    (consistent : Consistent r) (serving : r.Live p) (client : (r.heap p).kind = .client)
    (idle : r.Idle p) (member : pid ∈ after.log.hashers) :
    after.log.waited.count pid = 1 ∨ after.log.waited.count pid = 0 ∧
      ∃ q, after.Live q ∧ (after.heap q).kind = .client ∧ (after.heap q).childPid = some pid := by
  rw [grows.hashers] at member
  rw [grows.waited]
  rcases List.mem_cons.mp member with same | before
  · refine Or.inr ⟨?_, p, (grows.live p).mpr (Or.inr serving), ?_, ?_⟩
    · rw [same]
      exact List.count_eq_zero.mpr accounted.nextPid_unused.2
    · rw [grows.record]
      exact client
    · rw [grows.record, same]
      rfl
  · rcases accounted.reaped pid before with once | ⟨never, q, alive, isClient, holds⟩
    · exact Or.inl once
    · have different : q ≠ p := by
        intro same
        rw [same, idle.2] at holds
        contradiction
      have record := grows.elsewhere q different (consistent.ne_fresh alive)
      refine Or.inr ⟨never, q, (grows.live q).mpr (Or.inr alive), ?_, ?_⟩
      · rw [record]
        exact isClient
      · rw [record]
        exact holds

theorem Grows.distinct (grows : Grows p now r after) (accounted : Accounted r)
    (alive : after.Live q) (client : (after.heap q).kind = .client) (alsoAlive : after.Live o)
    (alsoClient : (after.heap o).kind = .client) (holds : (after.heap q).childPid = some pid)
    (alsoHolds : (after.heap o).childPid = some pid) : q = o := by
  rcases grows.holder alive client holds with ⟨here, new⟩ | ⟨was, wasClient, held⟩
  · rcases grows.holder alsoAlive alsoClient alsoHolds with ⟨there, _⟩ | ⟨was, wasClient, held⟩
    · rw [here, there]
    · have forked := accounted.forked was wasClient held
      rw [new] at forked
      exact absurd forked accounted.nextPid_unused.1
  · rcases grows.holder alsoAlive alsoClient alsoHolds with
      ⟨_, new⟩ | ⟨also, alsoWas, alsoHeld⟩
    · have forked := accounted.forked was wasClient held
      rw [new] at forked
      exact absurd forked accounted.nextPid_unused.1
    · exact accounted.distinct q o pid was wasClient also alsoWas held alsoHeld

/-- Who is waited for stays accounted for when a hash child is forked for an idle client. -/
theorem Accounted.grown (accounted : Accounted r) (consistent : Consistent r)
    (serving : r.Live p) (client : (r.heap p).kind = .client) (idle : r.Idle p)
    (grows : Grows p now r after) : Accounted after where
  hashers := by
    intro pid member
    rw [grows.hashers] at member
    rw [grows.nextPid]
    rcases List.mem_cons.mp member with same | before
    · rw [same]
      exact Nat.lt_succ_self _
    · exact Nat.lt_succ_of_lt (accounted.hashers pid before)
  waited := by
    intro pid member
    rw [grows.waited] at member
    rw [grows.nextPid]
    exact Nat.lt_succ_of_lt (accounted.waited pid member)
  importers _ _ := grows.importers accounted client
  sided _ _ := grows.sided accounted
  clients _ := grows.clients accounted consistent client
  owners _ _ := grows.owners accounted consistent serving client idle
  reaped _ := grows.reaped accounted consistent serving client idle
  distinct _ _ _ := grows.distinct accounted

end Growth

/-- A hash child is forked and watched. -/
theorem Reads.hashes (reads : Reads p r) (watches : a.WatchesHashers) :
    Accounted ((r.forkHasher.linkHashChild a p r.log.nextPid).epollAdd r.fresh .input) := by
  have old := reads.serving.consistent.ne_fresh reads.serving.alive
  have quiet : (r.forkHasher.linkHashChild a p r.log.nextPid).interest p = some .quiet := by
    have both : ((r.forkHasher.pairHashChild a p r.log.nextPid).interest p).isSome &&
        a.modifies .quiet := by
      rw [watches.1, Bool.and_true]
      exact reads.registered
    unfold linkHashChild epollSet
    rw [if_pos both]
    exact Function.update_self _ _ _
  have record : ((r.forkHasher.linkHashChild a p r.log.nextPid).epollAdd r.fresh .input).heap =
      (r.forkHasher.pairHashChild a p r.log.nextPid).heap := linkHashChild_heap _ _ _ _
  apply reads.accounted.grown reads.serving.consistent reads.serving.alive reads.serving.client
    reads.idle
  constructor
  case record =>
    rw [record]
    exact pairHashChild_self old
  case child =>
    rw [record]
    exact pairHashChild_child old
  case elsewhere =>
    intro q different notFresh
    rw [record]
    exact pairHashChild_of_ne different notFresh
  case live =>
    intro q
    exact @linkHashChild_live r.forkHasher p q a r.log.nextPid old
  case log => exact (linkHashChild_grows r.forkHasher a p _).1
  case quiet => exact (Function.update_of_ne old _ _).trans quiet
  case watched => exact epollAdd_self _ _ _
  case interest =>
    intro q different notFresh
    exact (Function.update_of_ne notFresh _ _).trans (linkHashChild_interest different)

/-! ## Handlers -/

theorem Responds.accounted (answered : Responds a p r after) (accounted : Accounted r)
    (consistent : Consistent r) (client : r.Live p → (r.heap p).kind = .client ∧ r.Loose p)
    (old : r.Live p ∨ (r.heap p).kind = .dead) : Accounted after := by
  have loose : r.Live p → r.Loose p := fun alive => (client alive).2
  cases answered with
  | sends change text =>
      have changed := change.consistent consistent fun alive => (client alive).1
      refine (sendHeader_undisturbed ?_ a text).accounted changed
        ((change.undisturbed loose).accounted consistent accounted)
      exact fun alive => change.loose (loose (change.live.mp alive))
  | closes change =>
      have changed := change.consistent consistent fun alive => (client alive).1
      refine (connClose_undisturbed changed ?_ ?_ a.sys).accounted changed
        ((change.undisturbed loose).accounted consistent accounted)
      · exact fun alive => change.loose (loose (change.live.mp alive))
      · rw [change.live, change.kind]
        exact old

/-- Whatever a handler does, every hash child is accounted for. -/
theorem Handles.accounted {settled : Prop}
    (handled : Handles CallResults.WatchesHashers settled p r after) (reads : Reads p r) :
    Accounted after := by
  induction handled with
  | done => exact reads.accounted
  | changes change _ inductionHypothesis => exact inductionHypothesis (change.reads reads)
  | stages staged _ inductionHypothesis => exact inductionHypothesis (staged.reads reads)
  | reaps _ inductionHypothesis =>
      exact inductionHypothesis ⟨(reads.serving.withLog _).withLog _, reads.accounted.reaps,
        reads.idle, reads.registered⟩
  | untracked _ _ _ _ inductionHypothesis =>
      exact inductionHypothesis ⟨reads.serving.withLog _, reads.accounted.forkImporter,
        reads.idle, reads.registered⟩
  | @imports r _ a _ _ _ inductionHypothesis =>
      have forked : Serving p r.forkImporter := reads.serving.withLog _
      have different := reads.serving.consistent.ne_fresh reads.serving.alive
      refine inductionHypothesis ⟨forked.watchImporter a _,
        reads.accounted.imports reads.serving.consistent a, ?_, ?_⟩
      · unfold Idle
        rw [@watchImporter_of_ne r.forkImporter _ _ _ different]
        exact reads.idle
      · rw [@watchImporter_interest r.forkImporter _ _ _ different]
        exact reads.registered
  | hashes a watches _ _ => exact reads.hashes watches
  | unwatched a watches _ failed _ =>
      rw [watches.2] at failed
      contradiction
  | answers a _ answered =>
      exact answered.accounted reads.accounted reads.serving.consistent
        (fun _ => ⟨reads.serving.client, reads.loose⟩) (Or.inl reads.serving.alive)

/-! ## Events -/

theorem Accounted.idle (accounted : Accounted r) (alive : r.Live p)
    (client : (r.heap p).kind = .client) (other : (r.heap p).state ≠ .hashing) : r.Idle p := by
  rcases accounted.clients p alive client with idle | ⟨c, pid, awaits⟩
  · exact idle
  · exact absurd awaits.state other

theorem Serving.loose (serving : Serving p r) (accounted : Accounted r) (idle : r.Idle p) :
    r.Loose p where
  client _ := idle
  ownerless := serving.consistent.client_ownerless serving.alive serving.client
  importer kind := absurd kind serving.notImporter
  sided interest := accounted.sided p interest serving.alive

theorem Serving.connClose_accounted (serving : Serving p r) (accounted : Accounted r)
    (idle : r.Idle p) (sys : Sys) : Accounted (r.connClose sys p) :=
  (connClose_undisturbed serving.consistent (fun _ => serving.loose accounted idle)
    (Or.inl serving.alive) sys).accounted serving.consistent accounted

theorem enter_undisturbed (r : Reactor) (p : Ptr) : Undisturbed [] r (r.enter p) :=
  undisturbed_of_same rfl rfl rfl rfl rfl rfl

theorem handleWrite_accounted (serving : Serving p r) (accounted : Accounted r)
    (idle : r.Idle p) (sys : Sys) (now : Int) (answers : List Written) :
    Accounted (handleWrite sys now p answers r) := by
  have loose := serving.loose accounted idle
  rcases handleWrite_local (r := r) (p := p) sys now answers with change | ⟨mid, change, closed⟩
  · exact (change.undisturbed fun _ => loose).accounted serving.consistent accounted
  · rw [closed]
    have changed := change.serving serving
    refine changed.connClose_accounted
      ((change.undisturbed fun _ => loose).accounted serving.consistent accounted) ?_ sys
    unfold Idle
    rw [change.child, change.childPid]
    exact idle

theorem acceptLoop_accounted {accepts : List Accepted} (consistent : Consistent r)
    (accounted : Accounted r) : Accounted (acceptLoop accepts r) := by
  induction accepts generalizing r with
  | nil => exact accounted
  | cons accept rest inductionHypothesis =>
      cases accept with
      | tryAgain => exact accounted
      | failed => exact accounted
      | interrupted => exact inductionHypothesis consistent accounted
      | accepted a =>
          have made := @Consistent.connNew _ consistent .client ConnKind.noConfusion a.now
          have grown := (connNew_undisturbed consistent a.now).accounted consistent accounted
          have loose := connNew_loose consistent a.now
          have alive : (r.connNew .client a.now).Live r.fresh :=
            (connNew_live ConnKind.noConfusion).mpr (Or.inl rfl)
          have serving : Serving r.fresh (r.connNew .client a.now) :=
            ⟨made, alive, congrArg Record.kind (connNew_self r .client a.now)⟩
          rw [acceptLoop]
          split
          next => exact inductionHypothesis consistent accounted
          next =>
            dsimp only
            split
            next =>
              exact inductionHypothesis (made.epollAdd alive _)
                ((epollAdd_undisturbed loose .input Interest.oneSided_input).accounted made grown)
            next =>
              exact inductionHypothesis (serving.connClose a.sys).consistent
                (serving.connClose_accounted grown (loose.client serving.client) a.sys)

/-! ## A hash child less -/

/-- The hash child of a client ended, was waited for and is forgotten. -/
structure Loses (o c : Ptr) (pid : Nat) (r after : Reactor) : Prop where
  live : ∀ q, after.Live q ↔ r.Live q ∧ q ≠ c
  others : ∀ q, q ≠ c → q ≠ o → ∃ link, after.heap q = (r.heap q).linkTo link
  owner : ∃ link, after.heap o = ((r.heap o).childless.linkTo link).reaped
  interest : ∀ q, q ≠ c → after.interest q = r.interest q
  hashers : after.log.hashers = r.log.hashers
  waited : after.log.waited = pid :: r.log.waited
  nextPid : after.log.nextPid = r.log.nextPid

section Loss

theorem Loses.kept (loses : Loses o c pid r after) (alive : after.Live q) (different : q ≠ o) :
    r.Live q ∧ q ≠ c ∧ ∃ link, after.heap q = (r.heap q).linkTo link := by
  obtain ⟨was, notChild⟩ := (loses.live q).mp alive
  exact ⟨was, notChild, loses.others q notChild different⟩

theorem Loses.idle (loses : Loses o c pid r after) : after.Idle o := by
  obtain ⟨link, atOwner⟩ := loses.owner
  unfold Idle
  rw [atOwner]
  exact ⟨rfl, rfl⟩

/-- Who still holds a process held it before. -/
theorem Loses.holder {found : Nat} (loses : Loses o c pid r after) (alive : after.Live q)
    (client : (after.heap q).kind = .client) (holds : (after.heap q).childPid = some found) :
    r.Live q ∧ (r.heap q).kind = .client ∧ (r.heap q).childPid = some found := by
  have different : q ≠ o := by
    intro same
    rw [same, loses.idle.2] at holds
    contradiction
  obtain ⟨was, _, link, same⟩ := loses.kept alive different
  rw [same] at client holds
  exact ⟨was, client, holds⟩

/-- The child that ended is no client. -/
theorem Awaits.notChild (awaits : r.Awaits o c pid) (consistent : Consistent r)
    (ownerLive : r.Live o) (client : (r.heap q).kind = .client) : q ≠ c := by
  intro same
  obtain ⟨_, _, hash, _⟩ := consistent.child o c ownerLive awaits.child
  rw [same, hash] at client
  contradiction

theorem Loses.importers {found : Nat} (loses : Loses o c pid r after) (accounted : Accounted r)
    (client : (r.heap o).kind = .client) (alive : after.Live q)
    (importer : (after.heap q).kind = .importChild)
    (holds : (after.heap q).childPid = some found) :
    found < after.log.nextPid ∧ found ∉ after.log.hashers := by
  have different : q ≠ o := by
    intro same
    obtain ⟨link, atOwner⟩ := loses.owner
    rw [same, atOwner] at importer
    have kind : (r.heap o).kind = .importChild := importer
    rw [client] at kind
    contradiction
  obtain ⟨was, _, link, same⟩ := loses.kept alive different
  rw [same] at importer holds
  rw [loses.nextPid, loses.hashers]
  exact accounted.importers q found was importer holds

theorem Loses.clients (loses : Loses o c pid r after) (accounted : Accounted r)
    (consistent : Consistent r) (ownerLive : r.Live o) (client : (r.heap o).kind = .client)
    (awaits : r.Awaits o c pid) (alive : after.Live q)
    (isClient : (after.heap q).kind = .client) :
    after.Idle q ∨ ∃ d found, after.Awaits q d found := by
  by_cases same : q = o
  · rw [same]
    exact Or.inl loses.idle
  obtain ⟨was, different, link, record⟩ := loses.kept alive same
  rw [record] at isClient
  rcases accounted.clients q was isClient with idle | ⟨d, found, waits⟩
  · refine Or.inl ?_
    unfold Idle
    rw [record]
    exact idle
  · obtain ⟨_, _, _, owned, _⟩ := consistent.child o c ownerLive awaits.child
    have otherChild : d ≠ c := by
      intro sameChild
      obtain ⟨_, _, _, ownedToo, _⟩ := consistent.child q d was waits.child
      rw [sameChild, owned] at ownedToo
      exact same (Option.some.inj ownedToo).symm
    refine Or.inr ⟨d, found, waits.carry ⟨link, record⟩ (loses.interest q different)
      (loses.interest d otherChild) ?_ ?_⟩
    · rw [loses.hashers]
      exact waits.forked
    · rw [loses.waited]
      intro member
      rcases List.mem_cons.mp member with samePid | before
      · rw [samePid] at waits
        exact same (accounted.distinct q o pid was isClient ownerLive client waits.childPid
          awaits.childPid)
      · exact waits.runs before

theorem Loses.owners {keeper : Ptr} (loses : Loses o c pid r after) (accounted : Accounted r)
    (consistent : Consistent r) (ownerLive : r.Live o) (client : (r.heap o).kind = .client)
    (awaits : r.Awaits o c pid) (alive : after.Live q) (owns : (after.heap q).owner = some keeper) :
    after.Live keeper ∧ (after.heap keeper).child = some q := by
  have different : q ≠ o := by
    intro same
    obtain ⟨link, atOwner⟩ := loses.owner
    rw [same, atOwner] at owns
    have ownerless := consistent.client_ownerless ownerLive client
    rw [show (r.heap o).owner = some keeper from owns] at ownerless
    contradiction
  obtain ⟨was, otherChild, link, same⟩ := loses.kept alive different
  rw [same] at owns
  obtain ⟨keeperLive, has⟩ := accounted.owners q keeper was owns
  obtain ⟨keeperClient, _⟩ := consistent.child keeper q keeperLive has
  have keeperNotChild := awaits.notChild consistent ownerLive keeperClient
  have keeperNotOwner : keeper ≠ o := by
    intro isOwner
    rw [isOwner, awaits.child] at has
    exact otherChild (Option.some.inj has).symm
  obtain ⟨keeperLink, keeperSame⟩ := loses.others keeper keeperNotChild keeperNotOwner
  rw [keeperSame]
  exact ⟨(loses.live keeper).mpr ⟨keeperLive, keeperNotChild⟩, has⟩

theorem Loses.reaped {found : Nat} (loses : Loses o c pid r after) (accounted : Accounted r)
    (consistent : Consistent r) (ownerLive : r.Live o) (awaits : r.Awaits o c pid)
    (member : found ∈ after.log.hashers) :
    after.log.waited.count found = 1 ∨ after.log.waited.count found = 0 ∧
      ∃ q, after.Live q ∧ (after.heap q).kind = .client ∧
        (after.heap q).childPid = some found := by
  rw [loses.hashers] at member
  rw [loses.waited]
  by_cases samePid : found = pid
  · rw [samePid, List.count_cons_self, List.count_eq_zero.mpr awaits.runs]
    exact Or.inl rfl
  rw [List.count_cons_of_ne fun same => samePid same.symm]
  rcases accounted.reaped found member with once | ⟨never, q, alive, isClient, holds⟩
  · exact Or.inl once
  · have different : q ≠ o := by
      intro same
      rw [same, awaits.childPid] at holds
      exact samePid (Option.some.inj holds).symm
    have notChild := awaits.notChild consistent ownerLive isClient
    obtain ⟨link, same⟩ := loses.others q notChild different
    refine Or.inr ⟨never, q, (loses.live q).mpr ⟨alive, notChild⟩, ?_, ?_⟩
    · rw [same]
      exact isClient
    · rw [same]
      exact holds

/-- Who is waited for stays accounted for when a hash child ended. -/
theorem Accounted.ended (accounted : Accounted r) (consistent : Consistent r)
    (ownerLive : r.Live o) (client : (r.heap o).kind = .client) (awaits : r.Awaits o c pid)
    (loses : Loses o c pid r after) : Accounted after where
  hashers := by
    rw [loses.hashers, loses.nextPid]
    exact accounted.hashers
  waited := by
    intro found member
    rw [loses.waited] at member
    rw [loses.nextPid]
    rcases List.mem_cons.mp member with same | before
    · rw [same]
      exact accounted.hashers pid awaits.forked
    · exact accounted.waited found before
  importers _ _ := loses.importers accounted client
  sided := by
    intro q asked alive found
    obtain ⟨was, different⟩ := (loses.live q).mp alive
    rw [loses.interest q different] at found
    exact accounted.sided q asked was found
  clients _ := loses.clients accounted consistent ownerLive client awaits
  owners _ _ := loses.owners accounted consistent ownerLive client awaits
  reaped _ := loses.reaped accounted consistent ownerLive awaits
  distinct := by
    intro q other found alive isClient alsoAlive alsoClient holds alsoHolds
    obtain ⟨was, wasClient, held⟩ := loses.holder alive isClient holds
    obtain ⟨alsoWas, alsoWasClient, alsoHeld⟩ := loses.holder alsoAlive alsoClient alsoHolds
    exact accounted.distinct q other found was wasClient alsoWas alsoWasClient held alsoHeld

end Loss

theorem Serving.reapHashChild (serving : Serving p r) : Serving p (r.reapHashChild p) where
  consistent := serving.consistent.reapHashChild p
  alive := reapHashChild_live.mpr serving.alive
  client := by
    rw [reapHashChild_self]
    exact serving.client

/-- The answer behind the end of a hash. -/
theorem finishUpload_accounted (serving : Serving p r) (hashing : (r.heap p).state = .hashing)
    (childless : (r.heap p).child = none) (accounted : Accounted (r.reapHashChild p))
    (a : CallResults) (output : Bytes) : Accounted (r.finishUpload a p output) := by
  have reaped := serving.reapHashChild
  have idle : (r.reapHashChild p).Idle p := by
    unfold Idle
    rw [reapHashChild_self]
    exact ⟨childless, rfl⟩
  have loose := reaped.loose accounted idle
  rcases finishUpload_cases r a p output with ⟨response, answered⟩ | ⟨digest, response, answered⟩
  · rw [answered]
    exact (respond_responds _ a p response).accounted accounted reaped.consistent
      (fun _ => ⟨reaped.client, loose⟩) (Or.inl reaped.alive)
  · rw [answered]
    have kept := commitUpload_stagingKept a.sys r.store (r.heap p).upPath (r.heap p).upName digest
    have store : (r.reapHashChild p).store = r.store := by
      unfold Reactor.reapHashChild
      split <;> rfl
    have other : ((r.reapHashChild p).heap p).state ≠ .recvBody := by
      rw [reapHashChild_self]
      show (r.heap p).state ≠ .recvBody
      rw [hashing]
      exact ConnPhase.noConfusion
    rw [← store] at kept ⊢
    have change := local_unstaged (r.reapHashChild p) p kept other
    have dropped := change.serving reaped
    exact (respond_responds _ a p response).accounted
      ((change.undisturbed fun _ => loose).accounted reaped.consistent accounted)
      dropped.consistent (fun _ => ⟨dropped.client, change.loose loose⟩) (Or.inl dropped.alive)

/-- The owner of a hash child waits for it. -/
theorem Accounted.awaits (accounted : Accounted r) (consistent : Consistent r)
    (alive : r.Live c) (owned : (r.heap c).owner = some o) :
    Serving o r ∧ ∃ pid, r.Awaits o c pid := by
  obtain ⟨ownerLive, has⟩ := accounted.owners c o alive owned
  have client := (consistent.child o c ownerLive has).1
  refine ⟨⟨consistent, ownerLive, client⟩, ?_⟩
  rcases accounted.clients o ownerLive client with idle | ⟨d, pid, awaits⟩
  · rw [idle.1] at has
    contradiction
  · rw [← Option.some.inj (has.symm.trans awaits.child)] at awaits
    exact ⟨pid, awaits⟩

/-- What is left of a hash child and its owner once the child is closed and waited for. -/
theorem Orphaned.reaped (orphaned : Orphaned r c o mid) (ownerLive : r.Live o)
    (awaits : r.Awaits o c pid) :
    (∃ link, (mid.reapHashChild o).heap o = ((r.heap o).childless.linkTo link).reaped) ∧
      (mid.reapHashChild o).log = { r.log with waited := pid :: r.log.waited } ∧
        (mid.reapHashChild o).interest = mid.interest := by
  obtain ⟨link, atOwner⟩ := orphaned.owner
  have holds : (mid.heap o).childPid = some pid := by
    rw [atOwner]
    exact awaits.childPid
  refine ⟨⟨link, ?_⟩, ?_, ?_⟩
  · rw [reapHashChild_self, atOwner]
  · unfold reapHashChild
    rw [holds]
    show { mid.log with waited := pid :: mid.log.waited } = _
    rw [orphaned.log, enter_eq ownerLive]
  · unfold reapHashChild
    split <;> rfl

theorem hashChildEvent_accounted (accounted : Accounted r) (consistent : Consistent r)
    (alive : r.Live c) (hash : (r.heap c).kind = .hashChild) (a : CallResults)
    (output : Bytes) : Accounted (r.hashChildEvent a c output) := by
  have ends := r.hashChildEvent_ends a c output
  generalize r.hashChildEvent a c output = after at ends ⊢
  cases ends with
  | alone ownerless =>
      refine (connClose_undisturbed consistent (fun _ => ?_) (Or.inl alive) a.sys).accounted
        consistent accounted
      refine ⟨?_, ownerless, ?_, fun interest => accounted.sided c interest alive⟩
      · intro client
        rw [hash] at client
        contradiction
      · intro importer
        rw [hash] at importer
        contradiction
  | @finishes o owned =>
      obtain ⟨serving, pid, awaits⟩ := accounted.awaits consistent alive owned
      have orphan := consistent.orphan alive owned a.sys
      have orphaned := consistent.orphaned alive owned a.sys
      generalize (r.letGo c o).connClose a.sys c = mid at orphan orphaned
      have different : o ≠ c := (consistent.owner_ne alive owned).symm
      have ownerLive := (orphaned.live o).mpr ⟨serving.alive, different⟩
      obtain ⟨link, atOwner⟩ := orphaned.owner
      obtain ⟨record, log, interest⟩ := orphaned.reaped serving.alive awaits
      apply finishUpload_accounted ⟨orphan.consistent, ownerLive, orphan.client ownerLive⟩
      · rw [atOwner]
        exact awaits.state
      · rw [atOwner]
        rfl
      · apply accounted.ended consistent serving.alive serving.client awaits
        constructor
        case live =>
          intro q
          exact reapHashChild_live.trans (orphaned.live q)
        case others =>
          intro q notChild notOwner
          rw [reapHashChild_of_ne notOwner]
          exact orphaned.others q notChild notOwner
        case owner => exact record
        case interest =>
          intro q notChild
          rw [interest]
          exact orphaned.interest q notChild
        all_goals rw [log]

theorem importChildEvent_accounted (accounted : Accounted r) (consistent : Consistent r)
    (alive : r.Live c) (importer : (r.heap c).kind = .importChild) (sys : Sys) :
    Accounted (r.importChildEvent sys c) := by
  have reaped : Consistent (r.reapImporter c) := (consistent.withLog _).withImportRunning _
  have waited : Accounted (r.reapImporter c) := by
    have logged : Accounted (r.withLog
        { r.log with waited := (r.heap c).childPid.toList ++ r.log.waited }) := by
      cases holds : (r.heap c).childPid with
      | none => exact accounted
      | some pid =>
          obtain ⟨small, other⟩ := accounted.importers c pid alive importer holds
          exact accounted.waits small other
    have quiet : Undisturbed [] (r.withLog
        { r.log with waited := (r.heap c).childPid.toList ++ r.log.waited }) (r.reapImporter c) :=
      undisturbed_of_same rfl rfl rfl rfl rfl rfl
    exact quiet.accounted (consistent.withLog _) logged
  rw [importChildEvent_eq]
  refine (connClose_undisturbed reaped (fun _ => ?_) (Or.inl alive) sys).accounted reaped waited
  refine ⟨?_, ?_, fun _ pid holds => waited.importers c pid alive importer holds,
    fun interest => waited.sided c interest alive⟩
  · intro client
    have kind : (r.heap c).kind = .client := client
    rw [importer] at kind
    contradiction
  · apply reaped.ownerless alive
    show (r.heap c).kind ≠ .hashChild
    rw [importer]
    exact ConnKind.noConfusion

/-! ## Batches -/

/-- What a batch can still hold of a record: nobody who waits for a hash child is read. -/
structure Due (r : Reactor) (event : Ptr × Ready) : Prop where
  allocated : r.allocated event.1 = true
  sided : ¬(event.2.readable = true ∧ event.2.writable = true)
  ready : r.Live event.1 → (r.heap event.1).kind = .client →
    (event.2.readable = true ∨ event.2.writable = true) →
      r.Idle event.1 ∧ (r.interest event.1).isSome

theorem clientEvent_accounted {conf : Conf} (accounted : Accounted r) (serving : Serving p r)
    {ready : Ready} (due : Due r (p, ready)) {calls : EventCalls}
    (watches : ∀ a ∈ (Step.event calls).answers, a.WatchesHashers)
    (stays : ready.hangup = true → ¬r.BeingHashed p) :
    Accounted (r.clientEvent conf p ready calls) := by
  have alive := serving.alive
  have client := serving.client
  unfold clientEvent
  dsimp only
  split
  next hangup =>
    apply serving.connClose_accounted accounted
    exact accounted.idle alive client fun hashing => stays hangup ⟨alive, client, hashing⟩
  next =>
    rw [enter_eq alive]
    by_cases readable : ready.readable = true
    · obtain ⟨idle, registered⟩ := due.ready alive client (Or.inl readable)
      have permitted : ∀ read ∈ calls.reads, read.2.WatchesHashers := by
        intro read member
        exact watches read.2 (List.mem_cons_of_mem _ (List.mem_map_of_mem member))
      have handled := @handleRead_handles _ False conf p r _ permitted False.elim
      have notWritable : ready.writable = false := by
        by_contra both
        exact due.sided ⟨readable, Bool.eq_true_of_not_eq_false both⟩
      rw [if_pos readable, notWritable, if_neg fun both => Bool.false_ne_true both.2]
      exact handled.accounted ⟨serving, accounted, idle, registered⟩
    · rw [if_neg readable]
      split
      next writing =>
        rw [enter_eq alive]
        have idle := (due.ready alive client (Or.inr writing.2)).1
        exact handleWrite_accounted serving accounted idle _ _ _
      next => exact accounted

/-- Every event keeps the hash children accounted for. -/
theorem dispatchEvent_accounted {conf : Conf} (accounted : Accounted r)
    (consistent : Consistent r) {ready : Ready} (due : Due r (p, ready)) {calls : EventCalls}
    (watches : ∀ a ∈ (Step.event calls).answers, a.WatchesHashers)
    (stays : ready.hangup = true → ¬r.BeingHashed p) :
    Accounted (dispatchEvent conf r p ready calls) := by
  unfold dispatchEvent
  rw [touch_of_allocated due.allocated]
  dsimp only
  split
  next => exact accounted
  next =>
    have entered : Consistent (r.enter p) := consistent.withLog _
    exact acceptLoop_accounted entered ((enter_undisturbed r p).accounted consistent accounted)
  next kind =>
    exact hashChildEvent_accounted accounted consistent
      (live_of_kind due.allocated kind ConnKind.noConfusion) kind _ _
  next kind =>
    exact importChildEvent_accounted accounted consistent
      (live_of_kind due.allocated kind ConnKind.noConfusion) kind _
  next kind =>
    exact clientEvent_accounted accounted
      ⟨consistent, live_of_kind due.allocated kind ConnKind.noConfusion, kind⟩ due watches stays

/-- What is reported of a client that waits for its hash child is its end alone. -/
theorem Reports.due (accounted : Accounted r) (consistent : Consistent r) {event : Ptr × Ready}
    (reports : r.Reports event) : Due r event := by
  have live := reports.live consistent
  unfold Reports at reports
  split at reports
  next => contradiction
  next interest found =>
    refine ⟨live.1, ?_, ?_⟩
    · rintro ⟨readable, writable⟩
      exact accounted.sided event.1 interest live found
        ⟨reports.1 readable, reports.2 writable⟩
    · intro _ client asked
      rw [found]
      refine ⟨?_, rfl⟩
      rcases accounted.clients event.1 live client with idle | ⟨c, pid, awaits⟩
      · exact idle
      · obtain rfl : interest = .quiet := Option.some.inj (found.symm.trans awaits.interest)
        rcases asked with readable | writable
        · exact absurd (reports.1 readable) Bool.false_ne_true
        · exact absurd (reports.2 writable) Bool.false_ne_true

/-- An event leaves what the batch holds of the other records. -/
theorem Due.later {conf : Conf} (accounted : Accounted r) (consistent : Consistent r)
    {now : Ready} (due : Due r (p, now)) {calls : EventCalls} {ready : Ready}
    (other : Due r (q, ready)) (different : q ≠ p) :
    Due (dispatchEvent conf r p now calls) (q, ready) := by
  by_cases open' : r.Live p
  · have frame := @dispatchEvent_frame _ _ conf consistent due.allocated now calls
    refine ⟨frame.allocated q other.allocated, other.sided, ?_⟩
    intro alive client asked
    obtain ⟨was, kind⟩ := frame.kept q other.allocated alive
    obtain ⟨idle, registered⟩ := other.ready was (kind.symm.trans client) asked
    have outside : q ∉ p :: (r.heap p).owner.toList := by
      intro member
      rcases List.mem_cons.mp member with same | isOwner
      · exact different same
      · have has := (accounted.owners p q open' (Option.mem_toList.mp isOwner)).2
        rw [idle.1] at has
        contradiction
    obtain ⟨⟨link, same⟩, interest⟩ := frame.others q outside other.allocated alive
    unfold Idle
    rw [same, interest]
    exact ⟨idle, registered⟩
  · rw [dispatchEvent_dead due.allocated open']
    exact other

end Assignments

/-! ## Runs -/

/-- The state between two steps. -/
structure Awaiting (r : Reactor) : Prop where
  consistent : Consistent r
  accounted : Accounted r
  due : ∀ event ∈ r.batch, Due r event
  distinct : (r.batch.map Prod.fst).Nodup

section Runs

variable {r after : Reactor} {p : Ptr} {conf : Conf}

/-- The sweep closes only clients that wait for nothing. -/
theorem Sweeps.accounted {sys : Sys} {now : Int} {nodes : List Ptr}
    (sweeps : Sweeps sys now nodes r after) (ahead : Ahead r nodes) (accounted : Accounted r)
    (stays : ∀ p ∈ nodes, Stalled (r.heap p) now → (r.heap p).state ≠ .hashing) :
    Accounted after := by
  induction sweeps with
  | done => exact accounted
  | spares _ _ inductionHypothesis =>
      exact inductionHypothesis ahead.spare accounted fun p member =>
        stays p (List.mem_cons_of_mem _ member)
  | @closes p rest r after alive stalled _ inductionHypothesis =>
      have serving : Serving p r := ⟨ahead.consistent, alive, stalled.1⟩
      have idle := accounted.idle alive stalled.1 (stays p List.mem_cons_self stalled)
      apply inductionHypothesis (ahead.close stalled.1 sys)
        (serving.connClose_accounted accounted idle sys)
      intro q member
      obtain ⟨link, same⟩ := @Ahead.kept _ sys _ _ _ ahead stalled.1 member
      rw [same]
      exact stays q (List.mem_cons_of_mem _ member)

theorem Consistent.drainPendingFree_undisturbed (consistent : Consistent r) :
    Undisturbed [] r r.drainPendingFree := by
  obtain ⟨conns, pend, linked⟩ := consistent.lists
  exact ⟨rfl, rfl, rfl, fun q _ => drainPendingFree_live linked,
    fun q _ _ => ⟨⟨(r.heap q).next, rfl⟩, rfl⟩, fun _ member => absurd member List.not_mem_nil,
    fun _ member => absurd member List.not_mem_nil⟩

theorem step_awaiting (awaiting : Awaiting r) {s : Step} (legal : r.Legal s)
    (attended : r.Attended s) : Awaiting (step conf r s) := by
  have consistent := awaiting.consistent
  unfold step
  split
  next => exact awaiting
  next =>
    cases s with
    | wait batch =>
        dsimp only
        split
        next =>
          have quiet : Undisturbed [] r { r with waiting := false, batch := batch } :=
            undisturbed_of_same rfl rfl rfl rfl rfl rfl
          refine ⟨consistent.withBatch false batch, quiet.accounted consistent awaiting.accounted,
            ?_, legal.2.1⟩
          intro event member
          have due := (legal.2.2 event member).due awaiting.accounted consistent
          exact ⟨due.allocated, due.sided, due.ready⟩
        next => exact awaiting
    | event calls =>
        dsimp only
        split
        next => exact awaiting
        next p ready rest batch =>
          have due : ∀ event ∈ (p, ready) :: rest, Due { r with batch := rest } event := by
            rw [← batch]
            intro event member
            have was := awaiting.due event member
            exact ⟨was.allocated, was.sided, was.ready⟩
          have distinct := awaiting.distinct
          rw [batch, List.map_cons, List.nodup_cons] at distinct
          have quiet : Undisturbed [] r { r with batch := rest } :=
            undisturbed_of_same rfl rfl rfl rfl rfl rfl
          have accounted := quiet.accounted consistent awaiting.accounted
          have taken : Consistent { r with batch := rest } := consistent.withBatch r.waiting rest
          have kept := @dispatchEvent_proceeds conf { r with batch := rest } p ready calls
          have now := due _ List.mem_cons_self
          have stays : ready.hangup = true → ¬Reactor.BeingHashed { r with batch := rest } p := by
            apply attended.2 (p, ready)
            rw [batch]
            rfl
          refine ⟨taken.dispatchEvent now.allocated ready calls,
            dispatchEvent_accounted accounted taken now attended.1 stays, ?_, ?_⟩
          · intro event member
            rw [kept.batch] at member
            have inside : event ∈ rest := member
            apply Due.later accounted taken now (due event (List.mem_cons_of_mem _ inside))
            intro same
            rw [← same] at distinct
            exact distinct.1 (List.mem_map.mpr ⟨event, inside, rfl⟩)
          · rw [kept.batch]
            exact distinct.2
    | finish sys now =>
        dsimp only
        split
        next idle =>
          obtain ⟨conns, pend, linked⟩ := consistent.lists
          obtain ⟨ahead, sweeps, _⟩ := sweepTimeouts_sweeps consistent linked sys now
          have swept := sweeps.swept ahead
          have stays : ∀ p ∈ conns, Stalled (r.heap p) now → (r.heap p).state ≠ .hashing := by
            intro p member stalled hashing
            have alive := (linked.live p).mp member
            exact attended.2 idle.1 idle.2 p (consistent.allocated_lt alive.1)
              ⟨alive, stalled.1, hashing⟩ stalled
          have accounted := sweeps.accounted ahead awaiting.accounted stays
          have drained := swept.consistent.drainPendingFree_undisturbed.accounted swept.consistent
            accounted
          have nothing : (r.sweepTimeouts sys now).batch = [] := swept.batch.trans idle.2
          have quiet : Undisturbed [] (r.sweepTimeouts sys now).drainPendingFree
              { (r.sweepTimeouts sys now).drainPendingFree with waiting := true } :=
            undisturbed_of_same rfl rfl rfl rfl rfl rfl
          refine ⟨swept.consistent.drainPendingFree.withBatch true _,
            quiet.accounted swept.consistent.drainPendingFree drained, ?_, ?_⟩
          · intro event member
            have inside : event ∈ (r.sweepTimeouts sys now).batch := member
            rw [nothing] at inside
            exact absurd inside List.not_mem_nil
          · show ((r.sweepTimeouts sys now).batch.map Prod.fst).Nodup
            rw [nothing]
            exact List.nodup_nil
        next => exact awaiting
    | outside files =>
        have quiet : Undisturbed [] r (r.withStore (r.store.withFiles (disturbed r.store files))) :=
          undisturbed_of_same rfl rfl rfl rfl rfl rfl
        refine ⟨consistent.withStore _, quiet.accounted consistent awaiting.accounted, ?_,
          awaiting.distinct⟩
        intro event member
        have was := awaiting.due event member
        exact ⟨was.allocated, was.sided, was.ready⟩

theorem start_awaiting (st : Store) (now : Int) : Awaiting (start st now) := by
  have kind : ∀ p, ((start st now).heap p).kind = .listener := fun _ => rfl
  refine ⟨(start_tidy st now).consistent, ⟨?_, ?_, ?_, ?_, ?_, ?_, ?_, ?_⟩, ?_, List.nodup_nil⟩
  · exact fun pid member => absurd member List.not_mem_nil
  · exact fun pid member => absurd member List.not_mem_nil
  · exact fun c pid _ importer => absurd importer ConnKind.noConfusion
  · intro p interest _ found
    have listener : (if p = 0 then some Interest.input else none) = some interest := found
    split at listener
    next =>
      rw [← Option.some.inj listener]
      exact Interest.oneSided_input
    next => contradiction
  · exact fun p _ client => absurd client ConnKind.noConfusion
  · exact fun c o _ owned => absurd owned (Option.some_ne_none o).symm
  · exact fun pid member => absurd member List.not_mem_nil
  · exact fun p _ _ _ client => absurd client ConnKind.noConfusion
  · exact fun event member => absurd member List.not_mem_nil

theorem run_awaiting {st : Store} {now : Int} {steps : List Step}
    (legal : Along Legal (step conf) (start st now) steps)
    (attended : Along Attended (step conf) (start st now) steps) :
    Awaiting (run (step conf) (start st now) steps) := by
  apply run_invariant (motive := Awaiting) _ (start_awaiting st now) (legal.and attended)
  intro r s awaiting allowed
  exact step_awaiting awaiting allowed.1 allowed.2

/-! ## The end of a hash -/

theorem Responds.waited {a : CallResults} (answered : Responds a p r after)
    (serving : Serving p r) : after.log.waited = r.log.waited := by
  cases answered with
  | sends change text => rw [sendHeader_log, change.log]
  | closes change =>
      have changed := change.serving serving
      have removed := @connClose_removed _ a.sys _ changed.consistent changed.alive
        (changed.consistent.client_ownerless changed.alive changed.client)
      rw [removed.log, change.log]

theorem finishUpload_waited (serving : Serving p r) (hashing : (r.heap p).state = .hashing)
    (a : CallResults) (output : Bytes) :
    (r.finishUpload a p output).log.waited = (r.reapHashChild p).log.waited := by
  have reaped := serving.reapHashChild
  rcases finishUpload_cases r a p output with ⟨response, answered⟩ | ⟨digest, response, answered⟩
  · rw [answered]
    exact (respond_responds _ a p response).waited reaped
  · rw [answered]
    have kept := commitUpload_stagingKept a.sys r.store (r.heap p).upPath (r.heap p).upName digest
    have store : (r.reapHashChild p).store = r.store := by
      unfold Reactor.reapHashChild
      split <;> rfl
    have other : ((r.reapHashChild p).heap p).state ≠ .recvBody := by
      rw [reapHashChild_self]
      show (r.heap p).state ≠ .recvBody
      rw [hashing]
      exact ConnPhase.noConfusion
    rw [← store] at kept ⊢
    have change := local_unstaged (r.reapHashChild p) p kept other
    exact ((respond_responds _ a p response).waited (change.serving reaped)).trans
      (congrArg History.waited change.log)

/-- The event of the record that watches a hash child waits for it. -/
theorem hasher_waited {c o : Ptr} {pid : Nat} (consistent : Consistent r)
    (serving : Serving o r) (awaits : r.Awaits o c pid) (conf : Conf) (ready : Ready)
    (calls : EventCalls) :
    (dispatchEvent conf r c ready calls).log.waited = pid :: r.log.waited := by
  obtain ⟨_, alive, hash, owned, newer⟩ := consistent.child o c serving.alive awaits.child
  have different : o ≠ c := Nat.ne_of_lt newer
  unfold dispatchEvent
  rw [touch_of_allocated alive.1]
  dsimp only
  rw [hash]
  dsimp only
  have ends := r.hashChildEvent_ends calls.answers c calls.output
  generalize r.hashChildEvent calls.answers c calls.output = after at ends ⊢
  cases ends with
  | alone ownerless =>
      rw [owned] at ownerless
      contradiction
  | @finishes owner ownedToo =>
      obtain rfl : o = owner := Option.some.inj (owned.symm.trans ownedToo)
      have orphan := consistent.orphan alive owned calls.answers.sys
      have orphaned := consistent.orphaned alive owned calls.answers.sys
      generalize (r.letGo c o).connClose calls.answers.sys c = mid at orphan orphaned
      have ownerLive := (orphaned.live o).mpr ⟨serving.alive, different⟩
      obtain ⟨link, atOwner⟩ := orphaned.owner
      rw [finishUpload_waited ⟨orphan.consistent, ownerLive, orphan.client ownerLive⟩]
      · rw [(orphaned.reaped serving.alive awaits).2.1]
      · rw [atOwner]
        exact awaits.state

/-- Every forked hash child is accounted for: as long as no connection is closed while its
upload is hashed, and the hash children that are forked are watched, each was waited for
exactly once or a live connection will wait for it. -/
theorem hashers_waited_once (conf : Conf) (st : Store) (now : Int) (steps : List Step)
    (legal : Along Legal (step conf) (start st now) steps)
    (attended : Along Attended (step conf) (start st now) steps) :
    ∀ pid ∈ (run (step conf) (start st now) steps).log.hashers,
      WaitedOnce (run (step conf) (start st now) steps) pid := by
  obtain ⟨consistent, accounted, _, _⟩ := run_awaiting legal attended
  generalize run (step conf) (start st now) steps = r at consistent accounted
  intro pid member
  rcases accounted.reaped pid member with once | ⟨never, o, alive, client, holds⟩
  · exact Or.inl once
  · rcases accounted.clients o alive client with idle | ⟨c, found, awaits⟩
    · rw [idle.2] at holds
      contradiction
    · obtain rfl : pid = found := Option.some.inj (holds.symm.trans awaits.childPid)
      refine Or.inr ⟨never, o, c, alive, client, awaits.child, holds, ?_, ?_⟩
      · unfold Reports
        rw [awaits.watched]
        exact ⟨fun _ => rfl, fun writable => absurd writable Bool.false_ne_true⟩
      · intro conf ready calls
        rw [hasher_waited consistent ⟨consistent, alive, client⟩ awaits, List.count_cons_self,
          never]

/-- A hash child that runs has a connection that will wait for it. -/
theorem WaitedOnce.awaited {pid : Nat} (waited : WaitedOnce r pid) (consistent : Consistent r)
    (running : r.log.waited.count pid ≠ 1) :
    ∃ o < r.fresh, r.Live o ∧ (r.heap o).childPid = some pid := by
  rcases waited with once | ⟨_, o, _, alive, _, _, holds, _⟩
  · exact absurd once running
  · exact ⟨o, consistent.allocated_lt alive.1, alive, holds⟩

end Runs

end Reactor

/-! ### A client that hangs up -/

theorem uploaded_attended :
    Along Reactor.Legal (Reactor.step Conf.sample) (Reactor.start (Store.holding [] []) 0)
        uploaded ∧
      Along Reactor.Attended (Reactor.step Conf.sample) (Reactor.start (Store.holding [] []) 0)
        uploaded := by
  decide +kernel

theorem uploaded_hasher :
    0 ∈ (Reactor.after uploaded).log.hashers ∧
      (Reactor.after uploaded).log.waited.count 0 ≠ 1 := by
  decide +kernel

/-- The hash child of the upload runs, and a connection is left that waits for it. -/
theorem upload_awaited :
    ∃ o < (Reactor.after uploaded).fresh, (Reactor.after uploaded).Live o ∧
      ((Reactor.after uploaded).heap o).childPid = some 0 := by
  have consistent := (Reactor.run_tidy uploaded_attended.1).consistent
  have waited := Reactor.hashers_waited_once Conf.sample (Store.holding [] []) 0 uploaded
    uploaded_attended.1 uploaded_attended.2
  rw [Reactor.after_eq] at waited consistent
  exact (waited 0 uploaded_hasher.1).awaited consistent uploaded_hasher.2

/-- A record was reported closed by its peer and nothing else. -/
def Ready.gone : Ready := ⟨false, false, true⟩

/-- The client of an upload hangs up while it is hashed, and the loop comes round. -/
def hungUp : List Step :=
  uploaded ++ [.wait [(1, .gone)], .event (EventCalls.answered (.succeeding 0)),
    .finish (Sys.succeeding fun _ => none) 0]

theorem hungUp_legal :
    Along Reactor.Legal (Reactor.step Conf.sample) (Reactor.start (Store.holding [] []) 0)
      hungUp := by
  decide +kernel

theorem hungUp_forgotten :
    0 ∈ (Reactor.after hungUp).log.hashers ∧ (Reactor.after hungUp).log.waited.count 0 ≠ 1 ∧
      ∀ o < (Reactor.after hungUp).fresh, (Reactor.after hungUp).Live o →
        ((Reactor.after hungUp).heap o).childPid ≠ some 0 := by
  decide +kernel

/-- The hash child was not waited for, and no connection is left that would. -/
theorem hasher_forgotten :
    Along Reactor.Legal (Reactor.step Conf.sample) (Reactor.start (Store.holding [] []) 0)
        hungUp ∧
      0 ∈ (Reactor.after hungUp).log.hashers ∧ ¬Reactor.WaitedOnce (Reactor.after hungUp) 0 := by
  have consistent := (Reactor.run_tidy hungUp_legal).consistent
  rw [Reactor.after_eq] at consistent
  obtain ⟨forked, running, nobody⟩ := hungUp_forgotten
  refine ⟨hungUp_legal, forked, fun waited => ?_⟩
  obtain ⟨o, old, alive, holds⟩ := waited.awaited consistent running
  exact nobody o old alive holds

end CixCache
