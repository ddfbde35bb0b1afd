import CixCache.Server.Handled

/-!
Contract: the handlers of the reactor keep its records consistent.

Owns: that every assignment, call and handler keeps `Consistent`, whatever the system
calls answer.

Does not own: the loop.
-/

namespace CixCache

open CixCache.Lib

namespace Reactor

section Assignments

variable {r after : Reactor} {p q c o : Ptr} {sys : Sys} {a : CallResults} {pid : Nat}

/-! ## Assignments and calls -/

/-- What does not touch the bookkeeping keeps it. -/
theorem Consistent.congr (consistent : Consistent r)
    (books : ∀ q, (after.heap q).kind = (r.heap q).kind ∧ (after.heap q).next = (r.heap q).next ∧
      (after.heap q).owner = (r.heap q).owner ∧ (after.heap q).child = (r.heap q).child)
    (plain : ∀ q, r.Live q → (r.heap q).kind ≠ .client → (after.heap q).upPath = (r.heap q).upPath)
    (allocated : after.allocated = r.allocated) (fresh : after.fresh = r.fresh)
    (conns : after.conns = r.conns) (pendingFree : after.pendingFree = r.pendingFree)
    (interest : ∀ q, (after.interest q).isSome → (r.interest q).isSome) : Consistent after := by
  have live : ∀ q, after.Live q ↔ r.Live q := by
    intro q
    rw [Live, Live, allocated, (books q).1]
  constructor
  case lists =>
    obtain ⟨nodes, pend, linked⟩ := consistent.lists
    exact ⟨nodes, pend, linked.congr (fun q => (books q).2.1) (fun q => by rw [(books q).1])
      allocated fresh conns pendingFree⟩
  case child =>
    intro p c alive child
    rw [(books p).2.2.2] at child
    rw [(books p).1, live c, (books c).1, (books c).2.2.1]
    exact consistent.child p c ((live p).mp alive) child
  case owner =>
    intro c o alive owner
    rw [(books c).2.2.1] at owner
    rw [(books c).1, live o, (books o).1]
    exact consistent.owner c o ((live c).mp alive) owner
  case plain =>
    intro q alive other
    rw [(books q).1] at other
    rw [plain q ((live q).mp alive) other]
    exact consistent.plain q ((live q).mp alive) other
  case registered =>
    intro q found
    exact (live q).mpr (consistent.registered q (interest q found))
  case gone =>
    intro q small absent
    rw [fresh] at small
    rw [allocated] at absent
    rw [(books q).1]
    exact consistent.gone q small absent

/-- A change of a client, or of a record that is not live. -/
theorem Local.consistent (change : Local p r after) (consistent : Consistent r)
    (client : r.Live p → (r.heap p).kind = .client) : Consistent after := by
  apply consistent.congr _ _ change.allocated change.fresh change.conns change.pendingFree
  · intro q
    rw [change.interest]
    exact id
  · intro q
    by_cases same : q = p
    · rw [same]
      exact ⟨change.kind, change.next, change.owner, change.child⟩
    · rw [change.others q same]
      exact ⟨rfl, rfl, rfl, rfl⟩
  · intro q alive other
    rw [change.others q]
    intro same
    rw [same] at alive other
    exact other (client alive)

theorem Local.live (change : Local p r after) : after.Live q ↔ r.Live q := by
  rw [Live, Live, change.allocated]
  by_cases same : q = p
  · rw [same, change.kind]
  · rw [change.others q same]

theorem Stages.consistent (staged : Stages p r after) (consistent : Consistent r)
    (client : (r.heap p).kind = .client) : Consistent after := by
  apply consistent.congr _ _ staged.allocated staged.fresh staged.conns staged.pendingFree
  · intro q
    rw [staged.interest]
    exact id
  · intro q
    by_cases same : q = p
    · rw [same]
      exact ⟨staged.kind, staged.next, staged.owner, staged.child⟩
    · rw [staged.others q same]
      exact ⟨rfl, rfl, rfl, rfl⟩
  · intro q alive other
    rw [staged.others q]
    intro same
    rw [same] at other
    exact other client

theorem Stages.live (staged : Stages p r after) : after.Live q ↔ r.Live q := by
  rw [Live, Live, staged.allocated]
  by_cases same : q = p
  · rw [same, staged.kind]
  · rw [staged.others q same]

theorem Consistent.withLog (consistent : Consistent r) (log : History) :
    Consistent (r.withLog log) :=
  consistent.congr (fun _ => ⟨rfl, rfl, rfl, rfl⟩) (fun _ _ _ => rfl) rfl rfl rfl rfl fun _ => id

theorem Consistent.withStore (consistent : Consistent r) (store : Store) :
    Consistent (r.withStore store) :=
  consistent.congr (fun _ => ⟨rfl, rfl, rfl, rfl⟩) (fun _ _ _ => rfl) rfl rfl rfl rfl fun _ => id

theorem Consistent.withImportRunning (consistent : Consistent r) (running : Bool) :
    Consistent (r.withImportRunning running) :=
  consistent.congr (fun _ => ⟨rfl, rfl, rfl, rfl⟩) (fun _ _ _ => rfl) rfl rfl rfl rfl fun _ => id

theorem Consistent.withInterest (consistent : Consistent r) {interest : Ptr → Option Interest}
    (alive : ∀ q, (interest q).isSome → r.Live q) : Consistent (r.withInterest interest) where
  lists := by
    obtain ⟨conns, pend, linked⟩ := consistent.lists
    exact ⟨conns, pend, linked.congr (fun _ => rfl) (fun _ => Iff.rfl) rfl rfl rfl rfl⟩
  child := consistent.child
  owner := consistent.owner
  plain := consistent.plain
  registered := alive
  gone := consistent.gone

theorem Consistent.epollAdd (consistent : Consistent r) (alive : r.Live p) (events : Interest) :
    Consistent (r.epollAdd p events) := by
  apply consistent.withInterest
  intro q found
  by_cases same : q = p
  · rw [same]
    exact alive
  · rw [Function.update_of_ne same] at found
    exact consistent.registered q found

theorem Consistent.epollSet (consistent : Consistent r) (a : CallResults) (p : Ptr)
    (events : Interest) : Consistent (r.epollSet a p events) := by
  unfold Reactor.epollSet
  split
  next registered =>
    exact consistent.epollAdd (consistent.registered p (Bool.and_eq_true_iff.mp registered).1) _
  next => exact consistent

/-- Assigning fields that tie the record to nothing else. -/
theorem Consistent.modify (consistent : Consistent r) (p : Ptr) (change : Record → Record)
    (books : ∀ cc, (change cc).kind = cc.kind ∧ (change cc).next = cc.next ∧
      (change cc).owner = cc.owner ∧ (change cc).child = cc.child)
    (plain : ∀ cc, (change cc).upPath = cc.upPath) : Consistent (r.modify p change) := by
  refine consistent.congr ?_ ?_ rfl rfl rfl rfl fun _ => id
  · intro q
    by_cases same : q = p
    · rw [same, modify_self]
      exact books _
    · rw [modify_of_ne _ _ same]
      exact ⟨rfl, rfl, rfl, rfl⟩
  · intro q _ _
    by_cases same : q = p
    · rw [same, modify_self]
      exact plain _
    · rw [modify_of_ne _ _ same]

theorem epollSet_heap (r : Reactor) (a : CallResults) (p : Ptr) (events : Interest) :
    (r.epollSet a p events).heap = r.heap := by
  unfold epollSet
  split <;> rfl

theorem epollSet_live {events : Interest} : (r.epollSet a p events).Live q ↔ r.Live q := by
  unfold epollSet
  split <;> exact Iff.rfl

@[simp] theorem began_heap (r : Reactor) (p : Ptr) : (r.began p).heap = r.heap := rfl

theorem sendHeader_self (r : Reactor) (a : CallResults) (p : Ptr) (text : Bytes) :
    (r.sendHeader a p text).heap p = (r.heap p).sending text a.now := by
  rw [sendHeader, epollSet_heap, began_heap]
  exact modify_self r p _

theorem sendHeader_of_ne {text : Bytes} (different : q ≠ p) :
    (r.sendHeader a p text).heap q = r.heap q := by
  rw [sendHeader, epollSet_heap, began_heap]
  exact modify_of_ne r _ different

theorem Consistent.sendHeader (consistent : Consistent r) (a : CallResults) (p : Ptr)
    (text : Bytes) : Consistent (r.sendHeader a p text) := by
  have sending := consistent.modify p (fun cc => cc.sending text a.now)
    (fun _ => ⟨rfl, rfl, rfl, rfl⟩) fun _ => rfl
  exact (sending.withLog _).epollSet a p _

/-! ## Closing -/

theorem Removed.live {doomed : List Ptr} (removed : Removed r sys p doomed after) :
    after.Live q ↔ r.Live q ∧ q ∉ doomed := by
  rw [Live, Live, removed.allocated]
  by_cases member : q ∈ doomed
  · simp [removed.dead q member, member]
  · obtain ⟨link, same⟩ := removed.others q member
    rw [same]
    exact ⟨fun alive => ⟨alive, member⟩, fun alive => alive.1⟩

/-- Nobody who stays has a child that goes. -/
theorem Consistent.spared (consistent : Consistent r) (alive : r.Live p)
    (ownerless : (r.heap p).owner = none) (live : r.Live q)
    (outside : q ∉ (r.heap p).child.toList ++ [p]) (has : (r.heap q).child = some c) :
    c ∉ (r.heap p).child.toList ++ [p] := by
  intro doomed
  have owned := (consistent.child q c live has).2.2.2.1
  rcases List.mem_append.mp doomed with isChild | isRecord
  · have sibling := Option.mem_toList.mp isChild
    have owner := (consistent.child p c alive sibling).2.2.2.1
    rw [owned] at owner
    exact outside (List.mem_append_right _ (by rw [Option.some.inj owner]; exact .head _))
  · rw [List.mem_singleton.mp isRecord, ownerless] at owned
    contradiction

theorem Removed.consistent (consistent : Consistent r) (alive : r.Live p)
    (ownerless : (r.heap p).owner = none)
    (removed : Removed r sys p ((r.heap p).child.toList ++ [p]) after) : Consistent after := by
  constructor
  case lists =>
    obtain ⟨conns, pend, linked⟩ := consistent.lists
    exact ⟨_, _, removed.lists conns pend linked⟩
  case child =>
    intro q child live has
    obtain ⟨was, outside⟩ := removed.live.mp live
    obtain ⟨link, same⟩ := removed.others q outside
    rw [same] at has ⊢
    obtain ⟨client, childLive, hash, owned, newer⟩ := consistent.child q child was has
    have childOutside := consistent.spared alive ownerless was outside has
    obtain ⟨childLink, childSame⟩ := removed.others child childOutside
    rw [childSame]
    exact ⟨client, removed.live.mpr ⟨childLive, childOutside⟩, hash, owned, newer⟩
  case owner =>
    intro child owner live has
    obtain ⟨was, outside⟩ := removed.live.mp live
    obtain ⟨link, same⟩ := removed.others child outside
    rw [same] at has ⊢
    obtain ⟨hash, older, client⟩ := consistent.owner child owner was has
    refine ⟨hash, older, fun ownerLive => ?_⟩
    obtain ⟨ownerWas, ownerOutside⟩ := removed.live.mp ownerLive
    obtain ⟨ownerLink, ownerSame⟩ := removed.others owner ownerOutside
    rw [ownerSame]
    exact client ownerWas
  case plain =>
    intro q live other
    obtain ⟨was, outside⟩ := removed.live.mp live
    obtain ⟨link, same⟩ := removed.others q outside
    rw [same] at other ⊢
    exact consistent.plain q was other
  case registered =>
    intro q found
    rw [removed.interest] at found
    split at found
    next => contradiction
    next outside => exact removed.live.mpr ⟨consistent.registered q found, outside⟩
  case gone =>
    intro q small absent
    rw [removed.fresh] at small
    rw [removed.allocated] at absent
    by_cases doomed : q ∈ (r.heap p).child.toList ++ [p]
    · exact removed.dead q doomed
    · obtain ⟨link, same⟩ := removed.others q doomed
      rw [same]
      exact consistent.gone q small absent

/-- `conn_close` on any record that has no owner, also a closed one. -/
theorem Consistent.connClose (consistent : Consistent r) (sys : Sys)
    (valid : r.Live p ∧ (r.heap p).owner = none ∨ (r.heap p).kind = .dead) :
    Consistent (r.connClose sys p) := by
  rcases valid with ⟨alive, ownerless⟩ | dead
  · exact (connClose_removed consistent alive ownerless).consistent consistent alive ownerless
  · rw [connClose_dead dead]
    exact consistent

/-- Only hash children have an owner. -/
theorem Consistent.ownerless (consistent : Consistent r) (alive : r.Live p)
    (other : (r.heap p).kind ≠ .hashChild) : (r.heap p).owner = none := by
  by_contra owned
  obtain ⟨owner, has⟩ := Option.ne_none_iff_exists'.mp owned
  exact other (consistent.owner p owner alive has).1

theorem Consistent.client_ownerless (consistent : Consistent r) (alive : r.Live p)
    (client : (r.heap p).kind = .client) : (r.heap p).owner = none := by
  apply consistent.ownerless alive
  rw [client]
  exact ConnKind.noConfusion

/-! ## New records -/

theorem connNew_self (r : Reactor) (kind : ConnKind) (now : Int) :
    (r.connNew kind now).heap r.fresh = (Record.new kind now).linkTo r.conns :=
  Function.update_self _ _ _

theorem connNew_of_ne {kind : ConnKind} {now : Int} (different : q ≠ r.fresh) :
    (r.connNew kind now).heap q = r.heap q :=
  Function.update_of_ne different _ _

theorem connNew_allocated_self (r : Reactor) (kind : ConnKind) (now : Int) :
    (r.connNew kind now).allocated r.fresh = true :=
  Function.update_self _ _ _

theorem connNew_allocated_of_ne {kind : ConnKind} {now : Int} (different : q ≠ r.fresh) :
    (r.connNew kind now).allocated q = r.allocated q :=
  Function.update_of_ne different _ _

theorem Consistent.allocated_lt (consistent : Consistent r) (allocated : r.allocated p = true) :
    p < r.fresh := by
  obtain ⟨conns, pend, linked⟩ := consistent.lists
  exact linked.bound p allocated

theorem Consistent.ne_fresh (consistent : Consistent r) (alive : r.Live p) : p ≠ r.fresh :=
  Nat.ne_of_lt (consistent.allocated_lt alive.1)

theorem connNew_live {kind : ConnKind} {now : Int} (alive : kind ≠ .dead) :
    (r.connNew kind now).Live q ↔ q = r.fresh ∨ r.Live q := by
  rw [Live, Live]
  by_cases same : q = r.fresh
  · rw [same, connNew_allocated_self, connNew_self]
    exact ⟨fun _ => Or.inl rfl, fun _ => ⟨rfl, alive⟩⟩
  · rw [connNew_allocated_of_ne same, connNew_of_ne same]
    simp [same]

theorem Consistent.connNew (consistent : Consistent r) {kind : ConnKind} (alive : kind ≠ .dead)
    (now : Int) : Consistent (r.connNew kind now) := by
  constructor
  case lists =>
    obtain ⟨conns, pend, linked⟩ := consistent.lists
    exact ⟨_, _, linked.connNew alive now⟩
  case child =>
    intro q child live has
    by_cases fresh : q = r.fresh
    · rw [fresh, connNew_self] at has
      contradiction
    · have was := ((connNew_live alive).mp live).resolve_left fresh
      rw [connNew_of_ne fresh] at has ⊢
      obtain ⟨client, childLive, rest⟩ := consistent.child q child was has
      rw [connNew_of_ne (consistent.ne_fresh childLive)]
      exact ⟨client, (connNew_live alive).mpr (Or.inr childLive), rest⟩
  case owner =>
    intro child owner live has
    by_cases fresh : child = r.fresh
    · rw [fresh, connNew_self] at has
      contradiction
    · have was := ((connNew_live alive).mp live).resolve_left fresh
      rw [connNew_of_ne fresh] at has ⊢
      obtain ⟨hash, older, client⟩ := consistent.owner child owner was has
      have ownerOld : owner ≠ r.fresh :=
        Nat.ne_of_lt (Nat.lt_trans older (consistent.allocated_lt was.1))
      refine ⟨hash, older, fun ownerLive => ?_⟩
      rw [connNew_of_ne ownerOld]
      exact client (((connNew_live alive).mp ownerLive).resolve_left ownerOld)
  case plain =>
    intro q live other
    by_cases fresh : q = r.fresh
    · rw [fresh, connNew_self]
      rfl
    · have was := ((connNew_live alive).mp live).resolve_left fresh
      rw [connNew_of_ne fresh] at other ⊢
      exact consistent.plain q was other
  case registered =>
    intro q found
    exact (connNew_live alive).mpr (Or.inr (consistent.registered q found))
  case gone =>
    intro q small absent
    have different : q ≠ r.fresh := by
      intro same
      rw [same, connNew_allocated_self] at absent
      contradiction
    rw [connNew_of_ne different]
    apply consistent.gone q
    · exact Nat.lt_of_le_of_ne (Nat.le_of_lt_succ small) different
    · rwa [connNew_allocated_of_ne different] at absent

/-! ## Connections and their hash children -/

theorem pairHashChild_self (old : p ≠ r.fresh) :
    (r.pairHashChild a p pid).heap p = (r.heap p).hashing r.fresh pid a.now := by
  unfold pairHashChild
  dsimp only
  rw [modify_self, modify_of_ne _ _ old, connNew_of_ne old]

theorem pairHashChild_child (old : p ≠ r.fresh) :
    (r.pairHashChild a p pid).heap r.fresh =
      ((Record.new .hashChild a.now).linkTo r.conns).ownedBy (some p) := by
  unfold pairHashChild
  dsimp only
  rw [modify_of_ne _ _ old.symm, modify_self, connNew_self]

theorem pairHashChild_of_ne (different : q ≠ p) (old : q ≠ r.fresh) :
    (r.pairHashChild a p pid).heap q = r.heap q := by
  unfold pairHashChild
  dsimp only
  rw [modify_of_ne _ _ different, modify_of_ne _ _ old, connNew_of_ne old]

theorem pairHashChild_live (old : p ≠ r.fresh) :
    (r.pairHashChild a p pid).Live q ↔ q = r.fresh ∨ r.Live q := by
  rw [← @connNew_live r q .hashChild a.now ConnKind.noConfusion, Live, Live]
  by_cases same : q = p
  · rw [same, pairHashChild_self old, connNew_of_ne old]
    exact Iff.rfl
  · by_cases fresh : q = r.fresh
    · rw [fresh, pairHashChild_child old, connNew_self]
      exact Iff.rfl
    · rw [pairHashChild_of_ne same fresh, connNew_of_ne fresh]
      exact Iff.rfl

theorem Consistent.pairHashChild (consistent : Consistent r) (alive : r.Live p)
    (client : (r.heap p).kind = .client) (a : CallResults) (pid : Nat) :
    Consistent (r.pairHashChild a p pid) := by
  have old := consistent.ne_fresh alive
  have made := @Consistent.connNew r consistent .hashChild ConnKind.noConfusion a.now
  have live := fun q => @pairHashChild_live r p q a pid old
  have notChild : ∀ c, (r.heap c).kind = .hashChild → c ≠ p := by
    intro c hash same
    rw [same, client] at hash
    contradiction
  constructor
  case lists =>
    obtain ⟨conns, pend, linked⟩ := made.lists
    have owned := linked.modify r.fresh (fun cc => cc.ownedBy (some p)) (fun _ => rfl)
      fun _ => rfl
    exact ⟨conns, pend, owned.modify p (fun cc => cc.hashing r.fresh pid a.now) (fun _ => rfl)
      fun _ => rfl⟩
  case child =>
    intro q child alive' has
    by_cases same : q = p
    · rw [same, pairHashChild_self old] at has
      obtain rfl : r.fresh = child := Option.some.inj has
      rw [same, pairHashChild_self old, pairHashChild_child old]
      exact ⟨client, (live _).mpr (Or.inl rfl), rfl, rfl, consistent.allocated_lt alive.1⟩
    · by_cases fresh : q = r.fresh
      · rw [fresh, pairHashChild_child old] at has
        contradiction
      · have was := ((live q).mp alive').resolve_left fresh
        rw [pairHashChild_of_ne same fresh] at has ⊢
        obtain ⟨isClient, childLive, hash, rest⟩ := consistent.child q child was has
        rw [pairHashChild_of_ne (notChild child hash) (consistent.ne_fresh childLive)]
        exact ⟨isClient, (live child).mpr (Or.inr childLive), hash, rest⟩
  case owner =>
    intro child owner alive' has
    have clients : ∀ q, q < r.fresh → (r.Live q → (r.heap q).kind = .client) →
        (r.pairHashChild a p pid).Live q → ((r.pairHashChild a p pid).heap q).kind = .client := by
      intro q older isClient now
      by_cases same : q = p
      · rw [same, pairHashChild_self old]
        exact client
      · have fresh : q ≠ r.fresh := Nat.ne_of_lt older
        rw [pairHashChild_of_ne same fresh]
        exact isClient (((live q).mp now).resolve_left fresh)
    by_cases fresh : child = r.fresh
    · rw [fresh, pairHashChild_child old] at has ⊢
      obtain rfl : p = owner := Option.some.inj has
      have older := consistent.allocated_lt alive.1
      exact ⟨rfl, older, clients p older fun _ => client⟩
    · have was := ((live child).mp alive').resolve_left fresh
      have different : child ≠ p := by
        intro same
        rw [same, pairHashChild_self old] at has
        have ownerless := consistent.client_ownerless alive client
        rw [show (r.heap p).owner = some owner from has] at ownerless
        contradiction
      rw [pairHashChild_of_ne different fresh] at has ⊢
      obtain ⟨hash, older, isClient⟩ := consistent.owner child owner was has
      exact ⟨hash, older,
        clients owner (Nat.lt_trans older (consistent.allocated_lt was.1)) isClient⟩
  case plain =>
    intro q alive' other
    by_cases same : q = p
    · rw [same, pairHashChild_self old] at other
      exact absurd client other
    · by_cases fresh : q = r.fresh
      · rw [fresh, pairHashChild_child old]
        rfl
      · rw [pairHashChild_of_ne same fresh] at other ⊢
        exact consistent.plain q (((live q).mp alive').resolve_left fresh) other
  case registered =>
    intro q found
    exact (live q).mpr (Or.inr (consistent.registered q found))
  case gone =>
    intro q small absent
    have gone := made.gone q small absent
    have different : q ≠ r.fresh := by
      intro same
      rw [same, connNew_self] at gone
      contradiction
    have notRecord : q ≠ p := by
      intro same
      rw [same, connNew_of_ne old, client] at gone
      contradiction
    rw [pairHashChild_of_ne notRecord different]
    rwa [connNew_of_ne different] at gone

theorem linkHashChild_heap (r : Reactor) (a : CallResults) (p : Ptr) (pid : Nat) :
    (r.linkHashChild a p pid).heap = (r.pairHashChild a p pid).heap :=
  epollSet_heap _ _ _ _

theorem linkHashChild_live (old : p ≠ r.fresh) :
    (r.linkHashChild a p pid).Live q ↔ q = r.fresh ∨ r.Live q :=
  epollSet_live.trans (pairHashChild_live old)

theorem Consistent.linkHashChild (consistent : Consistent r) (alive : r.Live p)
    (client : (r.heap p).kind = .client) (a : CallResults) (pid : Nat) :
    Consistent (r.linkHashChild a p pid) :=
  (consistent.pairHashChild alive client a pid).epollSet a p _

/-- The end of the link between a hash child and its owner, whoever that is by now. -/
theorem Consistent.disown (consistent : Consistent r) (alive : r.Live c)
    (owned : (r.heap c).owner = some o) :
    Consistent ((r.modify c fun cc => cc.ownedBy none).modify o Record.childless) := by
  obtain ⟨hash, older, client⟩ := consistent.owner c o alive owned
  have different : c ≠ o := Nat.ne_of_gt older
  let after := (r.modify c fun cc => cc.ownedBy none).modify o Record.childless
  have atChild : after.heap c = (r.heap c).ownedBy none := by
    rw [modify_of_ne _ _ different, modify_self]
  have atOwner : after.heap o = (r.heap o).childless := by
    rw [modify_self, modify_of_ne _ _ different.symm]
  have elsewhere : ∀ q, q ≠ c → q ≠ o → after.heap q = r.heap q := by
    intro q notChild notOwner
    rw [modify_of_ne _ _ notOwner, modify_of_ne _ _ notChild]
  have kind : ∀ q, (after.heap q).kind = (r.heap q).kind := by
    intro q
    by_cases isChild : q = c
    · rw [isChild, atChild]
      rfl
    · by_cases isOwner : q = o
      · rw [isOwner, atOwner]
        rfl
      · rw [elsewhere q isChild isOwner]
  have live : ∀ q, after.Live q ↔ r.Live q := by
    intro q
    rw [Live, Live, kind]
    exact Iff.rfl
  constructor
  case lists =>
    obtain ⟨conns, pend, linked⟩ := consistent.lists
    have ownerless := linked.modify c (fun cc => cc.ownedBy none) (fun _ => rfl) fun _ => rfl
    exact ⟨conns, pend, ownerless.modify o Record.childless (fun _ => rfl) fun _ => rfl⟩
  case child =>
    intro q child alive' has
    have was := (live q).mp alive'
    have notOwner : q ≠ o := by
      intro same
      rw [same, atOwner] at has
      contradiction
    have sameChild : (r.heap q).child = some child := by
      by_cases isChild : q = c
      · rw [isChild, atChild] at has
        rw [isChild]
        exact has
      · rwa [elsewhere q isChild notOwner] at has
    obtain ⟨isClient, childLive, isHash, ownedBack, newer⟩ := consistent.child q child was sameChild
    have notChild : child ≠ c := by
      intro same
      rw [same, owned] at ownedBack
      exact notOwner (Option.some.inj ownedBack).symm
    rw [kind, kind, live]
    refine ⟨isClient, childLive, isHash, ?_, newer⟩
    by_cases isOwner : child = o
    · rw [isOwner, atOwner]
      rw [isOwner] at ownedBack
      exact ownedBack
    · rwa [elsewhere child notChild isOwner]
  case owner =>
    intro child owner alive' has
    have was := (live child).mp alive'
    have notChild : child ≠ c := by
      intro same
      rw [same, atChild] at has
      contradiction
    have sameOwner : (r.heap child).owner = some owner := by
      by_cases isOwner : child = o
      · rw [isOwner, atOwner] at has
        rw [isOwner]
        exact has
      · rwa [elsewhere child notChild isOwner] at has
    rw [kind, live, kind]
    exact consistent.owner child owner was sameOwner
  case plain =>
    intro q alive' other
    rw [kind] at other
    have plain := consistent.plain q ((live q).mp alive') other
    by_cases isChild : q = c
    · rw [isChild, atChild]
      rwa [isChild] at plain
    · by_cases isOwner : q = o
      · rw [isOwner, atOwner]
        rwa [isOwner] at plain
      · rwa [elsewhere q isChild isOwner]
  case registered =>
    intro q found
    exact (live q).mpr (consistent.registered q found)
  case gone =>
    intro q small absent
    rw [kind]
    exact consistent.gone q small absent

/-! ## Handlers -/

theorem Responds.consistent (consistent : Consistent r)
    (client : r.Live p → (r.heap p).kind = .client)
    (old : r.Live p ∨ (r.heap p).kind = .dead) (answered : Responds a p r after) :
    Consistent after := by
  cases answered with
  | sends change text => exact (change.consistent consistent client).sendHeader a p text
  | closes change =>
      have changed := change.consistent consistent client
      apply changed.connClose
      rcases old with alive | dead
      · have still := change.live.mpr alive
        refine Or.inl ⟨still, changed.client_ownerless still ?_⟩
        rw [change.kind]
        exact client alive
      · rw [change.kind]
        exact Or.inr dead

theorem trackImporter_self (r : Reactor) (a : CallResults) (pid : Nat) :
    (r.trackImporter a pid).heap r.fresh =
      ((Record.new .importChild a.now).linkTo r.conns).watching pid := by
  rw [trackImporter, modify_self, connNew_self]

theorem trackImporter_of_ne (different : q ≠ r.fresh) :
    (r.trackImporter a pid).heap q = r.heap q := by
  rw [trackImporter, modify_of_ne _ _ different, connNew_of_ne different]

theorem trackImporter_live : (r.trackImporter a pid).Live q ↔ q = r.fresh ∨ r.Live q := by
  rw [← @connNew_live r q .importChild a.now ConnKind.noConfusion, Live, Live]
  by_cases fresh : q = r.fresh
  · rw [fresh, trackImporter_self, connNew_self]
    exact Iff.rfl
  · rw [trackImporter_of_ne fresh, connNew_of_ne fresh]
    exact Iff.rfl

/-- Registering the record of the importer moves nothing. -/
theorem watchImporter_eq (r : Reactor) (a : CallResults) (pid : Nat) :
    r.watchImporter a pid =
      ((r.trackImporter a pid).withInterest (if a.registers .importChild then
        Function.update r.interest r.fresh (some .input) else r.interest)).withImportRunning
        true := by
  unfold watchImporter
  split <;> rfl

theorem watchImporter_of_ne (different : q ≠ r.fresh) :
    (r.watchImporter a pid).heap q = r.heap q := by
  rw [watchImporter_eq]
  exact trackImporter_of_ne different

theorem watchImporter_live : (r.watchImporter a pid).Live q ↔ q = r.fresh ∨ r.Live q := by
  rw [watchImporter_eq]
  exact trackImporter_live

theorem Consistent.trackImporter (consistent : Consistent r) (a : CallResults) (pid : Nat) :
    Consistent (r.trackImporter a pid) :=
  (@Consistent.connNew r consistent .importChild ConnKind.noConfusion a.now).modify r.fresh
    (fun cc => cc.watching pid) (fun _ => ⟨rfl, rfl, rfl, rfl⟩) fun _ => rfl

theorem Consistent.watchImporter (consistent : Consistent r) (a : CallResults) (pid : Nat) :
    Consistent (r.watchImporter a pid) := by
  have tracked := consistent.trackImporter a pid
  unfold Reactor.watchImporter
  dsimp only
  split
  next => exact (tracked.epollAdd (trackImporter_live.mpr (Or.inl rfl)) _).withImportRunning _
  next => exact tracked.withImportRunning _

/-- A client is handled. -/
structure Serving (p : Ptr) (r : Reactor) : Prop where
  consistent : Consistent r
  alive : r.Live p
  client : (r.heap p).kind = .client

theorem Serving.withLog (serving : Serving p r) (log : History) : Serving p (r.withLog log) :=
  ⟨serving.consistent.withLog log, serving.alive, serving.client⟩

theorem Local.serving (change : Local p r after) (serving : Serving p r) : Serving p after where
  consistent := change.consistent serving.consistent fun _ => serving.client
  alive := change.live.mpr serving.alive
  client := by
    rw [change.kind]
    exact serving.client

theorem Stages.serving (staged : Stages p r after) (serving : Serving p r) : Serving p after where
  consistent := staged.consistent serving.consistent serving.client
  alive := staged.live.mpr serving.alive
  client := by
    rw [staged.kind]
    exact serving.client

theorem Serving.watchImporter (serving : Serving p r) (a : CallResults) (pid : Nat) :
    Serving p (r.watchImporter a pid) where
  consistent := serving.consistent.watchImporter a pid
  alive := watchImporter_live.mpr (Or.inr serving.alive)
  client := by
    rw [watchImporter_of_ne (serving.consistent.ne_fresh serving.alive)]
    exact serving.client

theorem Serving.linkHashChild (serving : Serving p r) (a : CallResults) (pid : Nat) :
    Serving p (r.linkHashChild a p pid) where
  consistent := serving.consistent.linkHashChild serving.alive serving.client a pid
  alive := (linkHashChild_live (serving.consistent.ne_fresh serving.alive)).mpr
    (Or.inr serving.alive)
  client := by
    rw [linkHashChild_heap, pairHashChild_self (serving.consistent.ne_fresh serving.alive)]
    exact serving.client

/-- A response leaves a live client or a closed record. -/
structure Served (p : Ptr) (r : Reactor) : Prop where
  consistent : Consistent r
  kind : (r.heap p).kind = .client ∨ (r.heap p).kind = .dead

theorem Serving.served (serving : Serving p r) : Served p r :=
  ⟨serving.consistent, Or.inl serving.client⟩

theorem Serving.connClose (serving : Serving p r) (sys : Sys) : Served p (r.connClose sys p) := by
  have ownerless := serving.consistent.client_ownerless serving.alive serving.client
  have removed := @connClose_removed _ sys _ serving.consistent serving.alive ownerless
  refine ⟨serving.consistent.connClose sys (Or.inl ⟨serving.alive, ownerless⟩), Or.inr ?_⟩
  exact removed.dead p (List.mem_append_right _ (List.mem_singleton_self p))

theorem Responds.served (answered : Responds a p r after) (serving : Serving p r) :
    Served p after := by
  cases answered with
  | sends change text =>
      have changed := change.serving serving
      refine ⟨changed.consistent.sendHeader a p text, Or.inl ?_⟩
      rw [sendHeader_self]
      exact changed.client
  | closes change => exact (change.serving serving).connClose a.sys

/-- Whatever the handling of input comes to, the records stay consistent. -/
theorem Handles.served {allowed : CallResults → Prop} {settled : Prop}
    (handled : Handles allowed settled p r after) (serving : Serving p r) : Served p after := by
  induction handled with
  | done => exact serving.served
  | changes change _ inductionHypothesis => exact inductionHypothesis (change.serving serving)
  | stages staged _ inductionHypothesis => exact inductionHypothesis (staged.serving serving)
  | reaps _ inductionHypothesis =>
      exact inductionHypothesis ((serving.withLog _).withLog _)
  | untracked a _ _ _ inductionHypothesis => exact inductionHypothesis (serving.withLog _)
  | imports a _ _ _ inductionHypothesis =>
      exact inductionHypothesis (Serving.watchImporter (serving.withLog _) a _)
  | @hashes r a _ _ _ =>
      have forked : Serving p r.forkHasher := serving.withLog _
      have linked := forked.linkHashChild a r.log.nextPid
      refine ⟨linked.consistent.epollAdd ?_ _, Or.inl linked.client⟩
      exact (linkHashChild_live (forked.consistent.ne_fresh forked.alive)).mpr (Or.inl rfl)
  | @unwatched r _ a _ _ _ answered =>
      have forked : Serving p r.forkHasher := serving.withLog _
      exact answered.served (forked.linkHashChild a r.log.nextPid)
  | answers a _ answered => exact answered.served serving

theorem reapHashChild_live : (r.reapHashChild p).Live q ↔ r.Live q := by
  have reaped : ∀ waited : Reactor, (waited.modify p Record.reaped).Live q ↔ waited.Live q := by
    intro waited
    unfold Live
    by_cases same : q = p
    · rw [same, modify_self]
      exact Iff.rfl
    · rw [modify_of_ne _ _ same]
      exact Iff.rfl
  unfold reapHashChild
  refine (reaped _).trans ?_
  split <;> exact Iff.rfl

theorem reapHashChild_self (r : Reactor) (p : Ptr) :
    (r.reapHashChild p).heap p = (r.heap p).reaped := by
  unfold reapHashChild
  rw [modify_self]
  split <;> rfl

theorem reapHashChild_of_ne (different : q ≠ p) : (r.reapHashChild p).heap q = r.heap q := by
  unfold reapHashChild
  rw [modify_of_ne _ _ different]
  split <;> rfl

theorem Consistent.reapHashChild (consistent : Consistent r) (p : Ptr) :
    Consistent (r.reapHashChild p) := by
  unfold Reactor.reapHashChild
  apply Consistent.modify _ p Record.reaped (fun _ => ⟨rfl, rfl, rfl, rfl⟩) fun _ => rfl
  split
  next => exact consistent
  next => exact consistent.withLog _

/-- A staging file passes out of a client's hands. -/
theorem Consistent.unstaged (consistent : Consistent r)
    (client : r.Live p → (r.heap p).kind = .client) :
    Consistent (r.modify p Record.unstaged) := by
  refine consistent.congr ?_ ?_ rfl rfl rfl rfl fun _ => id
  · intro q
    by_cases same : q = p
    · rw [same, modify_self]
      exact ⟨rfl, rfl, rfl, rfl⟩
    · rw [modify_of_ne _ _ same]
      exact ⟨rfl, rfl, rfl, rfl⟩
  · intro q alive other
    rw [modify_of_ne]
    intro same
    rw [same] at alive other
    exact other (client alive)

/-- What the hash child of a connection wrote is the digest that was declared. -/
def Declares (r : Reactor) (p : Ptr) (output : Bytes) : Prop :=
  (r.heap p).childOut = true ∧ storeDigestIsValid (output.take storeSha256HexLen) = true ∧
    strcasecmpEq (output.take storeSha256HexLen) (r.heap p).upDigest = true

/-- `finish_upload` makes the store see an upload whose digest was declared. -/
theorem finishUpload_commits (r : Reactor) (a : CallResults) (p : Ptr) (output : Bytes) :
    (∃ response, r.finishUpload a p output = (r.reapHashChild p).respond a p response) ∨
      r.Declares p output ∧ ∃ response, r.finishUpload a p output =
        (((r.reapHashChild p).withStore (commitUpload a.sys r.store (r.heap p).upPath
          (r.heap p).upName (output.take storeSha256HexLen)).1).modify p
            Record.unstaged).respond a p response := by
  have store : (r.reapHashChild p).store = r.store := by
    unfold reapHashChild
    split <;> rfl
  unfold finishUpload
  dsimp only
  generalize written : (if (r.heap p).childOut then output.take 127 else []) = got
  split
  next => exact Or.inl ⟨_, rfl⟩
  next hashed =>
    split
    next => exact Or.inl ⟨_, rfl⟩
    next same =>
      obtain ⟨long, valid⟩ := not_or.mp hashed
      have piped : (r.heap p).childOut = true := by
        by_contra closed
        rw [← written, if_neg closed] at long
        exact long (by decide)
      have digest : got.take storeSha256HexLen = output.take storeSha256HexLen := by
        rw [← written, if_pos piped, List.take_take]
        rfl
      rw [digest] at valid
      rw [digest, reapHashChild_self] at same
      rw [store, reapHashChild_self, digest]
      exact Or.inr ⟨⟨piped, Bool.eq_true_of_not_eq_false valid,
        Bool.eq_true_of_not_eq_false same⟩, _, rfl⟩

/-- `finish_upload` answers once, before or after it made the store see the upload. -/
theorem finishUpload_cases (r : Reactor) (a : CallResults) (p : Ptr) (output : Bytes) :
    (∃ response, r.finishUpload a p output = (r.reapHashChild p).respond a p response) ∨
      ∃ digest response, r.finishUpload a p output =
        (((r.reapHashChild p).withStore (commitUpload a.sys r.store (r.heap p).upPath
          (r.heap p).upName digest).1).modify p Record.unstaged).respond a p response :=
  (r.finishUpload_commits a p output).imp_right fun committed => ⟨_, committed.2⟩

theorem Consistent.finishUpload (consistent : Consistent r)
    (client : r.Live p → (r.heap p).kind = .client) (old : r.Live p ∨ (r.heap p).kind = .dead)
    (a : CallResults) (output : Bytes) : Consistent (r.finishUpload a p output) := by
  have reaped := consistent.reapHashChild p
  have stillClient : (r.reapHashChild p).Live p → ((r.reapHashChild p).heap p).kind = .client := by
    intro alive
    rw [reapHashChild_self]
    exact client (reapHashChild_live.mp alive)
  have stillOld : (r.reapHashChild p).Live p ∨ ((r.reapHashChild p).heap p).kind = .dead := by
    rw [reapHashChild_live, reapHashChild_self]
    exact old
  rcases finishUpload_cases r a p output with ⟨response, answered⟩ | ⟨digest, response, answered⟩
  · rw [answered]
    exact (respond_responds _ a p response).consistent reaped stillClient stillOld
  · rw [answered]
    generalize (commitUpload _ _ _ _ digest).1 = done
    generalize r.reapHashChild p = waited at reaped stillClient stillOld
    have dropped := (reaped.withStore done).unstaged stillClient
    apply (respond_responds _ a p response).consistent dropped
    · intro alive
      rw [modify_self]
      rw [Live, modify_self] at alive
      exact stillClient alive
    · rw [Live, modify_self]
      exact stillOld

theorem acceptLoop_consistent {accepts : List Accepted} (consistent : Consistent r) :
    Consistent (acceptLoop accepts r) := by
  induction accepts generalizing r with
  | nil => exact consistent
  | cons accept rest inductionHypothesis =>
      cases accept with
      | tryAgain => exact consistent
      | failed => exact consistent
      | interrupted => exact inductionHypothesis consistent
      | accepted a =>
          have made := @Consistent.connNew _ consistent .client ConnKind.noConfusion a.now
          have alive : (r.connNew .client a.now).Live r.fresh :=
            (connNew_live ConnKind.noConfusion).mpr (Or.inl rfl)
          rw [acceptLoop]
          split
          next => exact inductionHypothesis consistent
          next =>
            dsimp only
            split
            next => exact inductionHypothesis (made.epollAdd alive _)
            next =>
              apply inductionHypothesis
              apply made.connClose
              refine Or.inl ⟨alive, ?_⟩
              rw [connNew_self]
              rfl

end Assignments

end Reactor

end CixCache
