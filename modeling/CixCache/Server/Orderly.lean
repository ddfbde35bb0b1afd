import CixCache.Server.Frame

/-!
Contract: one response on every connection, as long as registrations can be changed.

Owns: `Settled`, the joint state of a client, its registration and its hash child between
two events; `Orderly`, that with the pairing of hash children and owners; that every
event, the sweep and every step keep it while EPOLL_CTL_MOD succeeds; what follows for
responses and for the records events act on; the runs in which a modification fails.

Does not own: processes and staging files.
-/

namespace CixCache

open CixCache.Lib

/-- No change of a registration fails. -/
def CallResults.Modifies (a : CallResults) : Prop := ∀ events, a.modifies events = true

instance (a : CallResults) : Decidable a.Modifies :=
  decidable_of_iff (∀ readable writable, a.modifies ⟨readable, writable⟩ = true)
    ⟨fun every events => every events.readable events.writable,
      fun every readable writable => every ⟨readable, writable⟩⟩

/-- The answers the handlers of a step work with. -/
def Step.answers : Step → List CallResults
  | .event calls => calls.answers :: calls.reads.map Prod.snd
  | _ => []

/-- No EPOLL_CTL_MOD of a step fails. -/
def Step.Modifies (s : Step) : Prop := ∀ a ∈ s.answers, a.Modifies

instance (s : Step) : Decidable s.Modifies := inferInstanceAs (Decidable (∀ _ ∈ _, _))

def ConnPhase.Receives (state : ConnPhase) : Prop := state = .readRequest ∨ state = .recvBody

def ConnPhase.Sends (state : ConnPhase) : Prop := state = .sendHeader ∨ state = .sendBody

namespace Reactor

/-- A client between two events: it waits for input, it is hashed by a child that is
watched, or its response is being sent. -/
inductive Settled (r : Reactor) (p : Ptr) : Prop
  | receives (state : (r.heap p).state.Receives) (interest : r.interest p = some .input)
      (begun : r.log.begun p = 0) (childless : (r.heap p).child = none) (waits : r.Waits p)
  | hashes (state : (r.heap p).state = .hashing) (interest : r.interest p = some .quiet)
      (begun : r.log.begun p = 0) {c : Ptr} (child : (r.heap p).child = some c)
      (watched : (r.interest c).isSome)
  | sends (state : (r.heap p).state.Sends) (interest : r.interest p = some .output)
      (begun : r.log.begun p = 1)
      (unwatched : ∀ c, (r.heap p).child = some c → r.interest c = none)

/-- Records are paired, clients are settled but for the one that is being handled, and
nothing was done to a closed record. -/
structure Orderly (busy : Option Ptr) (r : Reactor) : Prop where
  consistent : Consistent r
  paired : ∀ c, r.Live c → (r.heap c).kind = .hashChild →
    ∃ o, (r.heap c).owner = some o ∧ r.Live o ∧ (r.heap o).child = some c
  settled : ∀ p, busy ≠ some p → r.Live p → (r.heap p).kind = .client → Settled r p
  begunOnce : ∀ p, r.log.begun p ≤ 1
  begunBy : ∀ p, r.log.begun p ≠ 0 → p < r.fresh ∧ (r.Live p → (r.heap p).kind = .client)
  closed : ∀ p, (r.heap p).kind = .dead → (r.heap p).child = none
  sound : r.log.fault = false ∧ r.log.strayed = false

section Orderly

variable {r mid after : Reactor} {p q c o : Ptr} {sys : Sys} {a : CallResults} {pid : Nat}
  {busy : Option Ptr}

/-- What a client's settlement is read off. -/
theorem Settled.congr (settled : Settled r q)
    (record : ∃ link, after.heap q = (r.heap q).linkTo link) (interest : after.interest q = r.interest q)
    (begun : after.log.begun q = r.log.begun q)
    (child : ∀ c, (r.heap q).child = some c → after.interest c = r.interest c) :
    Settled after q := by
  obtain ⟨link, record⟩ := record
  have state : (after.heap q).state = (r.heap q).state := by
    rw [record]
    rfl
  have sameChild : (after.heap q).child = (r.heap q).child := by
    rw [record]
    rfl
  cases settled with
  | receives receives input unbegun childless waits =>
      refine .receives (state ▸ receives) (interest.trans input) (begun.trans unbegun)
        (sameChild.trans childless) ?_
      unfold Waits at waits ⊢
      rw [record]
      exact waits
  | @hashes hashing quiet unbegun c has watched =>
      refine .hashes (state.trans hashing) (interest.trans quiet) (begun.trans unbegun)
        (sameChild.trans has) ?_
      rw [child c has]
      exact watched
  | sends sends output once unwatched =>
      refine .sends (state ▸ sends) (interest.trans output) (begun.trans once) ?_
      intro c has
      rw [sameChild] at has
      rw [child c has]
      exact unwatched c has

theorem Orderly.aside (orderly : Orderly none r) (p : Ptr) : Orderly (some p) r :=
  { orderly with settled := fun q _ => orderly.settled q (Option.some_ne_none q).symm }

/-- The handled record is settled again. -/
theorem Orderly.settle (orderly : Orderly (some p) r) (settled : Settled r p) : Orderly none r := by
  refine { orderly with settled := ?_ }
  intro q _ alive client
  by_cases same : q = p
  · rw [same]
    exact settled
  · exact orderly.settled q (fun here => same (Option.some.inj here).symm) alive client

/-- The owner of a hash child is not handled while another client is. -/
theorem Orderly.child_ne (orderly : Orderly busy r) (alive : r.Live q)
    (has : (r.heap q).child = some c) (client : (r.heap p).kind = .client) : c ≠ p := by
  intro same
  have hash := (orderly.consistent.child q c alive has).2.2.1
  rw [same, client] at hash
  contradiction

/-- One client changes in fields that tie it to nothing else. -/
theorem Orderly.touched (orderly : Orderly (some p) r) (consistent : Consistent after)
    (client : (r.heap p).kind = .client) (others : ∀ q, q ≠ p → after.heap q = r.heap q)
    (kind : (after.heap p).kind = (r.heap p).kind) (child : (after.heap p).child = (r.heap p).child)
    (allocated : after.allocated = r.allocated) (fresh : after.fresh = r.fresh)
    (interest : ∀ q, q ≠ p → after.interest q = r.interest q)
    (begun : ∀ q, q ≠ p → after.log.begun q = r.log.begun q) (once : after.log.begun p ≤ 1)
    (old : p < r.fresh) (sound : after.log.fault = false ∧ after.log.strayed = false) :
    Orderly (some p) after := by
  have live : ∀ q, after.Live q ↔ r.Live q := by
    intro q
    rw [Live, Live, allocated]
    by_cases same : q = p
    · rw [same, kind]
    · rw [others q same]
  constructor
  case consistent => exact consistent
  case paired =>
    intro c alive hash
    have different : c ≠ p := by
      intro same
      rw [same, kind, client] at hash
      contradiction
    rw [others c different] at hash ⊢
    obtain ⟨o, owned, ownerLive, has⟩ := orderly.paired c ((live c).mp alive) hash
    refine ⟨o, owned, (live o).mpr ownerLive, ?_⟩
    by_cases same : o = p
    · rw [same, child]
      rw [same] at has
      exact has
    · rw [others o same]
      exact has
  case settled =>
    intro q idle alive isClient
    have different : q ≠ p := fun same => idle (congrArg some same.symm)
    rw [others q different] at isClient
    have was := (live q).mp alive
    apply (orderly.settled q idle was isClient).congr ⟨_, others q different⟩
      (interest q different) (begun q different)
    intro c has
    exact interest c (orderly.child_ne was has client)
  case begunOnce =>
    intro q
    by_cases same : q = p
    · rw [same]
      exact once
    · rw [begun q same]
      exact orderly.begunOnce q
  case begunBy =>
    intro q counted
    rw [fresh]
    by_cases same : q = p
    · rw [same, kind]
      exact ⟨old, fun _ => client⟩
    · rw [begun q same] at counted
      rw [others q same, live]
      exact orderly.begunBy q counted
  case closed =>
    intro q dead
    by_cases same : q = p
    · rw [same, kind, client] at dead
      contradiction
    · rw [others q same] at dead ⊢
      exact orderly.closed q dead
  case sound => exact sound

/-! ## While a client is handled -/

/-- A client that can still be answered. -/
structure Answering (p : Ptr) (r : Reactor) : Prop where
  orderly : Orderly (some p) r
  alive : r.Live p
  client : (r.heap p).kind = .client
  registered : (r.interest p).isSome
  begun : r.log.begun p = 0
  unwatched : ∀ c, (r.heap p).child = some c → r.interest c = none

/-- A client whose input is read. -/
structure Handling (p : Ptr) (r : Reactor) : Prop where
  orderly : Orderly (some p) r
  alive : r.Live p
  client : (r.heap p).kind = .client
  state : (r.heap p).state.Receives
  interest : r.interest p = some .input
  begun : r.log.begun p = 0
  childless : (r.heap p).child = none

theorem Handling.answering (handling : Handling p r) : Answering p r where
  orderly := handling.orderly
  alive := handling.alive
  client := handling.client
  registered := by
    rw [handling.interest]
    rfl
  begun := handling.begun
  unwatched c has := by
    rw [handling.childless] at has
    contradiction

theorem Handling.serving (handling : Handling p r) : Serving p r :=
  ⟨handling.orderly.consistent, handling.alive, handling.client⟩

theorem Handling.settled (handling : Handling p r) (waits : r.Waits p) : Orderly none r :=
  handling.orderly.settle
    (.receives handling.state handling.interest handling.begun handling.childless waits)

theorem Local.orderly (change : Local p r after) (orderly : Orderly (some p) r)
    (alive : r.Live p) (client : (r.heap p).kind = .client) : Orderly (some p) after := by
  apply orderly.touched (change.consistent orderly.consistent fun _ => client) client change.others
    change.kind change.child change.allocated change.fresh
  · intro q _
    rw [change.interest]
  · intro q _
    rw [change.log]
  · rw [change.log]
    exact orderly.begunOnce p
  · exact orderly.consistent.allocated_lt alive.1
  · rw [change.log]
    exact orderly.sound

theorem Local.answering (change : Local p r after) (answering : Answering p r) :
    Answering p after where
  orderly := change.orderly answering.orderly answering.alive answering.client
  alive := change.live.mpr answering.alive
  client := change.kind.trans answering.client
  registered := by
    rw [change.interest]
    exact answering.registered
  begun := by
    rw [change.log]
    exact answering.begun
  unwatched c has := by
    rw [change.child] at has
    rw [change.interest]
    exact answering.unwatched c has

theorem Local.handling (change : Local p r after) (handling : Handling p r) :
    Handling p after where
  orderly := change.orderly handling.orderly handling.alive handling.client
  alive := change.live.mpr handling.alive
  client := change.kind.trans handling.client
  state := by
    rw [change.state_eq]
    · exact handling.state
    · intro sends
      have receives := handling.state
      rw [sends] at receives
      exact receives.elim ConnPhase.noConfusion ConnPhase.noConfusion
  interest := by
    rw [change.interest]
    exact handling.interest
  begun := by
    rw [change.log]
    exact handling.begun
  childless := change.child.trans handling.childless

theorem Stages.handling (staged : Stages p r after) (handling : Handling p r) :
    Handling p after where
  orderly := by
    apply handling.orderly.touched
      (staged.consistent handling.orderly.consistent handling.client) handling.client
      staged.others staged.kind staged.child staged.allocated staged.fresh
    · intro q _
      rw [staged.interest]
    · intro q _
      rw [staged.log]
    · rw [staged.log]
      exact handling.orderly.begunOnce p
    · exact handling.orderly.consistent.allocated_lt handling.alive.1
    · rw [staged.log]
      exact handling.orderly.sound
  alive := staged.live.mpr handling.alive
  client := staged.kind.trans handling.client
  state := Or.inr staged.state
  interest := by
    rw [staged.interest]
    exact handling.interest
  begun := by
    rw [staged.log]
    exact handling.begun
  childless := staged.child.trans handling.childless

/-- Forking and waiting change nothing of this. -/
theorem Orderly.withLog (orderly : Orderly busy r) {log : History}
    (begun : log.begun = r.log.begun) (fault : log.fault = r.log.fault)
    (strayed : log.strayed = r.log.strayed) : Orderly busy (r.withLog log) where
  consistent := orderly.consistent.withLog log
  paired := orderly.paired
  settled q idle alive client :=
    (orderly.settled q idle alive client).congr ⟨(r.heap q).next, rfl⟩ rfl
      (congrFun begun q) fun _ _ => rfl
  begunOnce q := by
    show log.begun q ≤ 1
    rw [begun]
    exact orderly.begunOnce q
  begunBy q counted := by
    apply orderly.begunBy q
    rw [← begun]
    exact counted
  closed := orderly.closed
  sound := by
    show log.fault = false ∧ log.strayed = false
    rw [fault, strayed]
    exact orderly.sound

theorem Handling.withLog (handling : Handling p r) {log : History}
    (begun : log.begun = r.log.begun) (fault : log.fault = r.log.fault)
    (strayed : log.strayed = r.log.strayed) : Handling p (r.withLog log) :=
  { handling with
    orderly := handling.orderly.withLog begun fault strayed
    begun := (congrFun begun p).trans handling.begun }

/-! ## New records -/

theorem Orderly.begun_fresh (orderly : Orderly busy r) : r.log.begun r.fresh = 0 := by
  by_contra counted
  exact Nat.lt_irrefl _ (orderly.begunBy r.fresh counted).1

theorem Consistent.fresh_unregistered (consistent : Consistent r) : r.interest r.fresh = none := by
  by_contra found
  have alive := consistent.registered r.fresh (Option.isSome_iff_ne_none.mpr found)
  exact consistent.ne_fresh alive rfl

/-- A new record beside the others, which keep what they are. -/
theorem Orderly.grown (orderly : Orderly busy r) (consistent : Consistent after)
    (others : ∀ q, q ≠ r.fresh → after.heap q = r.heap q)
    (live : ∀ q, after.Live q ↔ q = r.fresh ∨ r.Live q)
    (interest : ∀ q, q ≠ r.fresh → after.interest q = r.interest q)
    (fresh : after.fresh = r.fresh + 1) (log : after.log = r.log)
    (unpaired : (after.heap r.fresh).kind ≠ .hashChild)
    (alive : (after.heap r.fresh).kind ≠ .dead)
    (settled : busy ≠ some r.fresh → (after.heap r.fresh).kind = .client →
      Settled after r.fresh) :
    Orderly busy after := by
  constructor
  case consistent => exact consistent
  case paired =>
    intro c alive hash
    have different : c ≠ r.fresh := by
      intro same
      rw [same] at hash
      exact unpaired hash
    rw [others c different] at hash ⊢
    obtain ⟨o, owned, ownerLive, has⟩ :=
      orderly.paired c (((live c).mp alive).resolve_left different) hash
    rw [← others o (orderly.consistent.ne_fresh ownerLive)] at has
    exact ⟨o, owned, (live o).mpr (Or.inr ownerLive), has⟩
  case settled =>
    intro q idle alive client
    by_cases same : q = r.fresh
    · rw [same] at idle client ⊢
      exact settled idle client
    · rw [others q same] at client
      have was := ((live q).mp alive).resolve_left same
      apply (orderly.settled q idle was client).congr ⟨_, others q same⟩ (interest q same)
      · rw [log]
      · intro c has
        have childLive := (orderly.consistent.child q c was has).2.1
        exact interest c (orderly.consistent.ne_fresh childLive)
  case begunOnce =>
    intro q
    rw [log]
    exact orderly.begunOnce q
  case begunBy =>
    intro q counted
    rw [log] at counted
    obtain ⟨small, client⟩ := orderly.begunBy q counted
    have different := Nat.ne_of_lt small
    rw [fresh, others q different, live]
    exact ⟨Nat.lt_succ_of_lt small, fun alive => client (alive.resolve_left different)⟩
  case closed =>
    intro q dead
    by_cases same : q = r.fresh
    · rw [same] at dead
      exact absurd dead alive
    · rw [others q same] at dead ⊢
      exact orderly.closed q dead
  case sound =>
    rw [log]
    exact orderly.sound

theorem watchImporter_self (r : Reactor) (a : CallResults) (pid : Nat) :
    (r.watchImporter a pid).heap r.fresh =
      ((Record.new .importChild a.now).linkTo r.conns).watching pid := by
  rw [watchImporter_eq]
  exact trackImporter_self r a pid

theorem Orderly.watchImporter (orderly : Orderly busy r) (a : CallResults) (pid : Nat) :
    Orderly busy (r.watchImporter a pid) := by
  have kind : ((r.watchImporter a pid).heap r.fresh).kind = .importChild := by
    rw [watchImporter_self]
    rfl
  apply orderly.grown (orderly.consistent.watchImporter a pid)
    (fun q different => watchImporter_of_ne different) (fun q => watchImporter_live)
    (fun q different => watchImporter_interest different)
  · rw [watchImporter_eq]
    rfl
  · rw [watchImporter_eq]
    rfl
  · rw [kind]
    exact ConnKind.noConfusion
  · rw [kind]
    exact ConnKind.noConfusion
  · intro _ client
    rw [kind] at client
    contradiction

theorem Handling.watchImporter (handling : Handling p r) (a : CallResults) (pid : Nat) :
    Handling p (r.watchImporter a pid) := by
  have old := handling.orderly.consistent.ne_fresh handling.alive
  have same : (r.watchImporter a pid).heap p = r.heap p := watchImporter_of_ne old
  have log : (r.watchImporter a pid).log = r.log := by
    rw [watchImporter_eq]
    rfl
  refine ⟨handling.orderly.watchImporter a pid, watchImporter_live.mpr (Or.inr handling.alive),
    ?_, ?_, ?_, ?_, ?_⟩
  · rw [same]
    exact handling.client
  · rw [same]
    exact handling.state
  · rw [watchImporter_interest old]
    exact handling.interest
  · rw [log]
    exact handling.begun
  · rw [same]
    exact handling.childless

/-! ## Hash children -/

theorem linkHashChild_quiet (registered : (r.interest p).isSome) (modifies : a.Modifies) :
    (r.linkHashChild a p pid).interest p = some .quiet := by
  have both : ((r.pairHashChild a p pid).interest p).isSome && a.modifies .quiet := by
    rw [modifies, Bool.and_true]
    exact registered
  unfold linkHashChild epollSet
  rw [if_pos both]
  exact Function.update_self _ _ _

theorem linkHashChild_grows (r : Reactor) (a : CallResults) (p : Ptr) (pid : Nat) :
    (r.linkHashChild a p pid).log = r.log ∧ (r.linkHashChild a p pid).fresh = r.fresh + 1 := by
  unfold linkHashChild epollSet
  split <;> exact ⟨rfl, rfl⟩

/-- The hash child of the handled client is a new record, which is not watched yet. -/
theorem Handling.linkHashChild (handling : Handling p r) (modifies : a.Modifies) (pid : Nat) :
    Answering p (r.linkHashChild a p pid) := by
  have consistent := handling.orderly.consistent
  have old := consistent.ne_fresh handling.alive
  have serving := handling.serving.linkHashChild a pid
  have live : ∀ q, (r.linkHashChild a p pid).Live q ↔ q = r.fresh ∨ r.Live q :=
    fun q => linkHashChild_live old
  obtain ⟨log, fresh⟩ := linkHashChild_grows r a p pid
  have atRecord : (r.linkHashChild a p pid).heap p = (r.heap p).hashing r.fresh pid a.now := by
    rw [linkHashChild_heap, pairHashChild_self old]
  have atChild : (r.linkHashChild a p pid).heap r.fresh =
      ((Record.new .hashChild a.now).linkTo r.conns).ownedBy (some p) := by
    rw [linkHashChild_heap, pairHashChild_child old]
  have elsewhere : ∀ q, q ≠ p → q ≠ r.fresh →
      (r.linkHashChild a p pid).heap q = r.heap q := by
    intro q different notFresh
    rw [linkHashChild_heap, pairHashChild_of_ne different notFresh]
  have orderly : Orderly (some p) (r.linkHashChild a p pid) := by
    constructor
    case consistent => exact serving.consistent
    case paired =>
      intro c alive hash
      by_cases isFresh : c = r.fresh
      · rw [isFresh, atChild]
        refine ⟨p, rfl, serving.alive, ?_⟩
        rw [atRecord]
        rfl
      · have different : c ≠ p := by
          intro same
          rw [same, serving.client] at hash
          contradiction
        rw [elsewhere c different isFresh] at hash ⊢
        obtain ⟨o, owned, ownerLive, has⟩ :=
          handling.orderly.paired c (((live c).mp alive).resolve_left isFresh) hash
        have notRecord : o ≠ p := by
          intro same
          rw [same, handling.childless] at has
          contradiction
        rw [← elsewhere o notRecord (consistent.ne_fresh ownerLive)] at has
        exact ⟨o, owned, (live o).mpr (Or.inr ownerLive), has⟩
    case settled =>
      intro q idle alive client
      have different : q ≠ p := fun same => idle (congrArg some same.symm)
      have notFresh : q ≠ r.fresh := by
        intro same
        rw [same, atChild] at client
        contradiction
      rw [elsewhere q different notFresh] at client
      have was := ((live q).mp alive).resolve_left notFresh
      apply (handling.orderly.settled q idle was client).congr ⟨_, elsewhere q different notFresh⟩
        (linkHashChild_interest different)
      · rw [log]
      · intro c has
        exact linkHashChild_interest (handling.orderly.child_ne was has handling.client)
    case begunOnce =>
      rw [log]
      exact handling.orderly.begunOnce
    case begunBy =>
      intro q counted
      rw [log] at counted
      obtain ⟨small, client⟩ := handling.orderly.begunBy q counted
      have notFresh := Nat.ne_of_lt small
      rw [fresh, live]
      refine ⟨Nat.lt_succ_of_lt small, fun alive => ?_⟩
      by_cases same : q = p
      · rw [same]
        exact serving.client
      · rw [elsewhere q same notFresh]
        exact client (alive.resolve_left notFresh)
    case closed =>
      intro q dead
      have different : q ≠ p := by
        intro same
        rw [same, serving.client] at dead
        contradiction
      have notFresh : q ≠ r.fresh := by
        intro same
        rw [same, atChild] at dead
        contradiction
      rw [elsewhere q different notFresh] at dead ⊢
      exact handling.orderly.closed q dead
    case sound =>
      rw [log]
      exact handling.orderly.sound
  refine ⟨orderly, serving.alive, serving.client, ?_, ?_, ?_⟩
  · rw [linkHashChild_quiet (by rw [handling.interest]; rfl) modifies]
    rfl
  · rw [log]
    exact handling.begun
  · intro c has
    rw [atRecord] at has
    obtain rfl : r.fresh = c := Option.some.inj has
    rw [linkHashChild_interest old.symm]
    exact consistent.fresh_unregistered

/-- Registering the child of the handled client. -/
theorem Orderly.watch (orderly : Orderly (some p) r) (alive : r.Live p)
    (has : (r.heap p).child = some c) (events : Interest) :
    Orderly (some p) (r.epollAdd c events) := by
  obtain ⟨client, childLive, hash, owned, newer⟩ := orderly.consistent.child p c alive has
  refine { orderly with
    consistent := orderly.consistent.epollAdd childLive events
    settled := ?_ }
  intro q idle live isClient
  have elsewhere : ∀ other, other ≠ c → (r.epollAdd c events).interest other = r.interest other :=
    fun other different => Function.update_of_ne different _ _
  have interest : (r.epollAdd c events).interest q = r.interest q := by
    apply elsewhere
    intro same
    have kind : (r.heap q).kind = .client := isClient
    rw [same, hash] at kind
    contradiction
  refine (orderly.settled q idle live isClient).congr ⟨(r.heap q).next, rfl⟩ interest rfl ?_
  intro sibling hasSibling
  apply elsewhere
  intro same
  have ownedToo := (orderly.consistent.child q sibling live hasSibling).2.2.2.1
  rw [same, owned] at ownedToo
  exact idle ownedToo

/-- The client waits for its hash child. -/
theorem Handling.hashes (handling : Handling p r) (modifies : a.Modifies) (pid : Nat) :
    Orderly none ((r.linkHashChild a p pid).epollAdd r.fresh .input) := by
  have answering := handling.linkHashChild modifies pid
  have old := handling.orderly.consistent.ne_fresh handling.alive
  have atRecord : (r.linkHashChild a p pid).heap p = (r.heap p).hashing r.fresh pid a.now := by
    rw [linkHashChild_heap, pairHashChild_self old]
  have has : ((r.linkHashChild a p pid).heap p).child = some r.fresh := by
    rw [atRecord]
    rfl
  apply (answering.orderly.watch answering.alive has .input).settle
  refine .hashes ?_ ?_ answering.begun has ?_
  · show ((r.linkHashChild a p pid).heap p).state = .hashing
    rw [atRecord]
    rfl
  · have registered : (r.interest p).isSome := handling.answering.registered
    rw [← @linkHashChild_quiet r p a pid registered modifies]
    exact Function.update_of_ne old _ _
  · have watched : ((r.linkHashChild a p pid).epollAdd r.fresh .input).interest r.fresh =
        some .input :=
      Function.update_self _ _ _
    rw [watched]
    rfl

/-! ## Responses -/

/-- Closing the handled record, and its child with it, leaves everybody settled. -/
theorem Orderly.connClose (orderly : Orderly (some p) r) (alive : r.Live p)
    (ownerless : (r.heap p).owner = none) (sys : Sys) : Orderly none (r.connClose sys p) := by
  have consistent := orderly.consistent
  have removed := @connClose_removed _ sys _ consistent alive ownerless
  have idle : ∀ q, q ∉ (r.heap p).child.toList ++ [p] → some p ≠ some q := by
    intro q outside same
    exact outside (List.mem_append_right _ (by rw [Option.some.inj same]; exact .head _))
  constructor
  case consistent => exact consistent.connClose sys (Or.inl ⟨alive, ownerless⟩)
  case paired =>
    intro c childLive hash
    obtain ⟨was, outside⟩ := removed.live.mp childLive
    obtain ⟨link, same⟩ := removed.others c outside
    rw [same] at hash ⊢
    obtain ⟨o, owned, ownerLive, has⟩ := orderly.paired c was hash
    have ownerOutside : o ∉ (r.heap p).child.toList ++ [p] := by
      intro doomed
      rcases List.mem_append.mp doomed with isChild | isRecord
      · have sibling := (consistent.child p o alive (Option.mem_toList.mp isChild)).2.2.1
        rw [(consistent.child o c ownerLive has).1] at sibling
        contradiction
      · rw [List.mem_singleton.mp isRecord] at has
        exact outside (List.mem_append_left _ (Option.mem_toList.mpr has))
    obtain ⟨ownerLink, ownerSame⟩ := removed.others o ownerOutside
    refine ⟨o, owned, removed.live.mpr ⟨ownerLive, ownerOutside⟩, ?_⟩
    rw [ownerSame]
    exact has
  case settled =>
    intro q _ live isClient
    obtain ⟨was, outside⟩ := removed.live.mp live
    obtain ⟨link, same⟩ := removed.others q outside
    rw [same] at isClient
    apply (orderly.settled q (idle q outside) was isClient).congr ⟨link, same⟩
    · rw [removed.interest, if_neg outside]
    · rw [removed.log]
    · intro c has
      rw [removed.interest, if_neg (consistent.spared alive ownerless was outside has)]
  case begunOnce =>
    intro q
    rw [removed.log]
    exact orderly.begunOnce q
  case begunBy =>
    intro q counted
    rw [removed.log] at counted
    obtain ⟨small, isClient⟩ := orderly.begunBy q counted
    rw [removed.fresh]
    refine ⟨small, fun live => ?_⟩
    obtain ⟨was, outside⟩ := removed.live.mp live
    obtain ⟨link, same⟩ := removed.others q outside
    rw [same]
    exact isClient was
  case closed =>
    intro q dead
    by_cases doomed : q ∈ (r.heap p).child.toList ++ [p]
    · exact removed.childless q doomed
    · obtain ⟨link, same⟩ := removed.others q doomed
      rw [same] at dead ⊢
      exact orderly.closed q dead
  case sound =>
    rw [removed.log]
    exact orderly.sound

theorem epollSet_self (registered : (r.interest p).isSome) (modifies : a.Modifies)
    (events : Interest) : (r.epollSet a p events).interest p = some events := by
  have both : (r.interest p).isSome && a.modifies events := by
    rw [modifies, Bool.and_true]
    exact registered
  unfold epollSet
  rw [if_pos both]
  exact Function.update_self _ _ _

theorem epollSet_log (r : Reactor) (a : CallResults) (p : Ptr) (events : Interest) :
    (r.epollSet a p events).log = r.log := by
  unfold epollSet
  split <;> rfl

theorem sendHeader_log (r : Reactor) (a : CallResults) (p : Ptr) (text : Bytes) :
    (r.sendHeader a p text).log =
      { r.log with begun := Function.update r.log.begun p (r.log.begun p + 1) } := by
  rw [sendHeader, epollSet_log]
  rfl

/-- The header is formatted: the response is counted and output is waited for. -/
theorem Answering.sendHeader (answering : Answering p r) (modifies : a.Modifies) (text : Bytes) :
    Orderly none (r.sendHeader a p text) := by
  have atRecord := sendHeader_self r a p text
  have log := sendHeader_log r a p text
  have begun : (r.sendHeader a p text).log.begun p = 1 := by
    rw [log]
    show Function.update r.log.begun p (r.log.begun p + 1) p = 1
    rw [Function.update_self, answering.begun]
  have elsewhere : ∀ q, q ≠ p → (r.sendHeader a p text).interest q = r.interest q := by
    intro q different
    exact epollSet_of_ne different
  have orderly : Orderly (some p) (r.sendHeader a p text) := by
    apply answering.orderly.touched (answering.orderly.consistent.sendHeader a p text)
      answering.client (fun q different => sendHeader_of_ne different)
    · rw [atRecord]
      rfl
    · rw [atRecord]
      rfl
    · exact (epollSet_fields _ a p _).1
    · exact (epollSet_fields _ a p _).2
    · exact elsewhere
    · intro q different
      rw [log]
      exact Function.update_of_ne different _ _
    · rw [begun]
    · exact answering.orderly.consistent.allocated_lt answering.alive.1
    · rw [log]
      exact answering.orderly.sound
  apply orderly.settle
  refine .sends (Or.inl ?_) ?_ begun ?_
  · rw [atRecord]
    rfl
  · have registered : (((r.modify p fun cc => cc.sending text a.now).began p).interest p).isSome :=
      answering.registered
    exact epollSet_self registered modifies .output
  · intro c has
    rw [atRecord] at has
    rw [elsewhere c (answering.orderly.child_ne answering.alive has answering.client)]
    exact answering.unwatched c has

theorem Answering.connClose (answering : Answering p r) (sys : Sys) :
    Orderly none (r.connClose sys p) :=
  answering.orderly.connClose answering.alive
    (answering.orderly.consistent.client_ownerless answering.alive answering.client) sys

theorem Responds.orderly (answered : Responds a p r after) (answering : Answering p r)
    (modifies : a.Modifies) : Orderly none after := by
  cases answered with
  | sends change text => exact (change.answering answering).sendHeader modifies text
  | closes change =>
      have changed := change.answering answering
      exact changed.connClose a.sys

/-- The handling of input leaves everybody settled. -/
theorem Handles.orderly {settled : Prop}
    (handled : Handles CallResults.Modifies settled p r after) (handling : Handling p r)
    (waited : settled) : Orderly none after := by
  induction handled with
  | done waits => exact handling.settled (waits waited)
  | changes change _ inductionHypothesis => exact inductionHypothesis (change.handling handling)
  | stages staged _ inductionHypothesis => exact inductionHypothesis (staged.handling handling)
  | reaps _ inductionHypothesis =>
      exact inductionHypothesis ((handling.withLog rfl rfl rfl).withLog rfl rfl rfl)
  | untracked a _ _ _ inductionHypothesis =>
      exact inductionHypothesis (handling.withLog rfl rfl rfl)
  | @imports r _ a _ _ _ inductionHypothesis =>
      have forked : Handling p r.forkImporter := handling.withLog rfl rfl rfl
      exact inductionHypothesis (forked.watchImporter a _)
  | @hashes r a modifies _ _ =>
      have forked : Handling p r.forkHasher := handling.withLog rfl rfl rfl
      exact forked.hashes modifies _
  | @unwatched r _ a modifies _ _ answered =>
      have forked : Handling p r.forkHasher := handling.withLog rfl rfl rfl
      exact answered.orderly (forked.linkHashChild modifies _) modifies
  | answers a modifies answered => exact answered.orderly handling.answering modifies

end Orderly

end Reactor

end CixCache
