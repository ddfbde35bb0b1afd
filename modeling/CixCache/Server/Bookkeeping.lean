import Mathlib.Data.List.Perm.Subperm
import CixCache.Server.EventLoop

/-!
Contract: the lists the connection records are kept in.

Owns: `Linked`, which records stand on `g_conns` and which on the pending-free list, and
that `conn_new`, `conn_close` and `drain_pending_free` keep it; `Removed`, everything a
`conn_close` changes.

Does not own: when the handlers call them.
-/

namespace CixCache

open CixCache.Lib

namespace Reactor

/-! ## The two lists -/

/-- The links of all records. -/
def links (r : Reactor) (p : Ptr) : Option Ptr := (r.heap p).next

/-- The live records are the ones on `g_conns`, newest first, and the closed ones those
on the pending-free list. -/
structure Linked (r : Reactor) (conns pend : List Ptr) : Prop where
  connsChain : Chain r.links r.conns conns
  pendChain : Chain r.links r.pendingFree pend
  sorted : conns.Pairwise (· > ·)
  distinct : pend.Nodup
  live : ∀ p, p ∈ conns ↔ r.Live p
  closed : ∀ p, p ∈ pend ↔ r.Closed p
  bound : ∀ p, r.allocated p = true → p < r.fresh

section Lists

variable {r after : Reactor} {conns pend : List Ptr} {p q : Ptr}

theorem Linked.nodup (linked : r.Linked conns pend) : conns.Nodup :=
  linked.sorted.imp fun newer => Nat.ne_of_gt newer

/-- Distinct records are fewer than the addresses in use. -/
theorem length_le_fresh (bound : ∀ p, r.allocated p = true → p < r.fresh) {nodes : List Ptr}
    (distinct : nodes.Nodup) (allocated : ∀ p ∈ nodes, r.allocated p = true) :
    nodes.length ≤ r.fresh := by
  have inside : nodes ⊆ List.range r.fresh := by
    intro p member
    exact List.mem_range.mpr (bound p (allocated p member))
  have fits := (List.subperm_of_subset distinct inside).length_le
  rwa [List.length_range] at fits

theorem Linked.conns_length (linked : r.Linked conns pend) : conns.length ≤ r.fresh :=
  length_le_fresh linked.bound linked.nodup fun p member => ((linked.live p).mp member).1

theorem Linked.pend_length (linked : r.Linked conns pend) : pend.length ≤ r.fresh :=
  length_le_fresh linked.bound linked.distinct fun p member => ((linked.closed p).mp member).1

/-- A record is on one list at most. -/
theorem Linked.disjoint (linked : r.Linked conns pend) (member : p ∈ conns) : p ∉ pend :=
  fun closed => ((linked.live p).mp member).2 ((linked.closed p).mp closed).2

/-- Only links, kinds and what is allocated matter to the lists. -/
theorem Linked.congr (linked : r.Linked conns pend) (next : ∀ q, after.links q = r.links q)
    (kind : ∀ q, (after.heap q).kind = .dead ↔ (r.heap q).kind = .dead)
    (allocated : after.allocated = r.allocated) (fresh : after.fresh = r.fresh)
    (sameConns : after.conns = r.conns) (samePending : after.pendingFree = r.pendingFree) :
    after.Linked conns pend where
  connsChain := by
    rw [sameConns]
    exact linked.connsChain.congr fun q _ => next q
  pendChain := by
    rw [samePending]
    exact linked.pendChain.congr fun q _ => next q
  sorted := linked.sorted
  distinct := linked.distinct
  live q := by
    rw [linked.live q, Live, Live, allocated, ne_eq, ne_eq, kind q]
  closed q := by
    rw [linked.closed q, Closed, Closed, allocated, kind q]
  bound q := by
    rw [allocated, fresh]
    exact linked.bound q

/-! ### A new record -/

theorem Linked.fresh_notMem (linked : r.Linked conns pend) : r.fresh ∉ conns ∧ r.fresh ∉ pend := by
  constructor
  · intro member
    exact Nat.lt_irrefl _ (linked.bound _ ((linked.live _).mp member).1)
  · intro member
    exact Nat.lt_irrefl _ (linked.bound _ ((linked.closed _).mp member).1)

theorem Linked.connNew (linked : r.Linked conns pend) {kind : ConnKind} (alive : kind ≠ .dead)
    (now : Int) : (r.connNew kind now).Linked (r.fresh :: conns) pend := by
  obtain ⟨freshConns, freshPend⟩ := linked.fresh_notMem
  have atFresh : (r.connNew kind now).heap r.fresh = (Record.new kind now).linkTo r.conns :=
    Function.update_self _ _ _
  have elsewhere : ∀ q, q ≠ r.fresh → (r.connNew kind now).heap q = r.heap q :=
    fun q other => Function.update_of_ne other _ _
  have links : (r.connNew kind now).links = Function.update r.links r.fresh r.conns := by
    funext q
    by_cases same : q = r.fresh
    · rw [same, Function.update_self, Reactor.links, atFresh]
      rfl
    · rw [Function.update_of_ne same, Reactor.links, elsewhere q same, Reactor.links]
  have allocated : ∀ q, (r.connNew kind now).allocated q = true ↔
      q = r.fresh ∨ r.allocated q = true := by
    intro q
    show Function.update r.allocated r.fresh true q = true ↔ _
    by_cases same : q = r.fresh
    · simp [same]
    · simp [same]
  refine ⟨?_, ?_, ?_, linked.distinct, ?_, ?_, ?_⟩
  · rw [links]
    exact linked.connsChain.push freshConns
  · apply linked.pendChain.congr
    intro q member
    rw [links]
    apply Function.update_of_ne
    intro same
    exact freshPend (same ▸ member)
  · refine List.Pairwise.cons ?_ linked.sorted
    intro q member
    exact linked.bound q ((linked.live q).mp member).1
  · intro q
    rw [List.mem_cons, linked.live q, Live, Live, allocated]
    by_cases same : q = r.fresh
    · rw [same, atFresh]
      exact ⟨fun _ => ⟨Or.inl rfl, alive⟩, fun _ => Or.inl rfl⟩
    · rw [elsewhere q same]
      simp [same]
  · intro q
    rw [linked.closed q, Closed, Closed, allocated]
    by_cases same : q = r.fresh
    · rw [same, atFresh]
      constructor
      · intro found
        exact absurd (linked.bound _ found.1) (Nat.lt_irrefl _)
      · intro found
        exact absurd found.2 alive
    · rw [elsewhere q same]
      simp [same]
  · intro q found
    show q < r.fresh + 1
    rcases (allocated q).mp found with same | earlier
    · exact same ▸ Nat.lt_succ_self _
    · exact Nat.lt_succ_of_lt (linked.bound q earlier)

/-! ### A closed record -/

theorem bury_heap (r : Reactor) (p : Ptr) :
    (r.bury p).heap = (((r.modify p Record.buried).connUnlink p).modify p
      fun cc => cc.linkTo r.pendingFree).heap :=
  rfl

/-- What moving a record to the pending-free list does to the others. -/
theorem bury_of_ne (r : Reactor) (different : q ≠ p) :
    ∃ link, (r.bury p).heap q = (r.heap q).linkTo link := by
  rw [bury_heap, modify_of_ne _ _ different]
  refine ⟨(Links.unlink ⟨r.conns, fun q => ((r.modify p Record.buried).heap q).next⟩ p
    (r.fresh + 1)).next q, ?_⟩
  rw [← modify_of_ne r Record.buried different]
  rfl

theorem bury_self (r : Reactor) (p : Ptr) :
    (r.bury p).heap p = (r.heap p).buried.linkTo r.pendingFree := by
  have dead : (r.modify p Record.buried).heap p = (r.heap p).buried := modify_self _ _ _
  rw [bury_heap, modify_self, ← dead]
  rfl

theorem Linked.bury (linked : r.Linked conns pend) (member : p ∈ conns) :
    (r.bury p).Linked (conns.erase p) (p :: pend) := by
  obtain ⟨before, rest, split⟩ := List.append_of_mem member
  have distinct := linked.nodup
  rw [split] at distinct
  have outside : p ∉ before ++ rest := by
    have middle := (List.nodup_middle).mp distinct
    exact (List.nodup_cons.mp middle).1
  have erased : conns.erase p = before ++ rest := by
    rw [split, List.erase_append_right _ (fun inside => outside (List.mem_append_left _ inside)),
      List.erase_cons_head]
  -- The walk runs over the links as they are once the record is dead, which are the same.
  have deadLinks : (r.modify p Record.buried).links = r.links := by
    funext q
    by_cases same : q = p
    · rw [same, Reactor.links, modify_self]
      rfl
    · rw [Reactor.links, modify_of_ne _ _ same]
      rfl
  have short : before.length < r.fresh + 1 := by
    have fits := linked.conns_length
    rw [split, List.length_append] at fits
    omega
  have chain := linked.connsChain
  rw [split] at chain
  have walked := @Links.unlink_chain _ _ ⟨r.conns, r.links⟩ _ _ _ _ chain distinct short
  have links : ∀ q, q ≠ p → (r.bury p).links q =
      (Links.unlink ⟨r.conns, r.links⟩ p (r.fresh + 1)).next q := by
    intro q different
    rw [Reactor.links, bury_heap, modify_of_ne _ _ different, ← deadLinks]
    rfl
  have head : (r.bury p).conns = (Links.unlink ⟨r.conns, r.links⟩ p (r.fresh + 1)).head := by
    rw [← deadLinks]
    rfl
  have atRecord : (r.bury p).links p = r.pendingFree := by
    rw [Reactor.links, bury_self]
    rfl
  have kind : ∀ q, q ≠ p → ((r.bury p).heap q).kind = (r.heap q).kind := by
    intro q different
    obtain ⟨link, same⟩ := r.bury_of_ne different
    rw [same]
    rfl
  have deadKind : ((r.bury p).heap p).kind = .dead := by
    rw [bury_self]
    rfl
  have wasLive := (linked.live p).mp member
  have notPend := linked.disjoint member
  constructor
  case connsChain =>
    rw [head, erased]
    apply walked.1.congr
    intro q inside
    exact links q fun same => outside (same ▸ inside)
  case pendChain =>
    refine ⟨rfl, ?_⟩
    rw [atRecord]
    apply linked.pendChain.congr
    intro q inside
    have different : q ≠ p := fun same => notPend (same ▸ inside)
    rw [links q different]
    apply walked.2
    intro early
    have onConns : q ∈ conns := by
      rw [split]
      exact List.mem_append_left _ early
    exact linked.disjoint onConns inside
  case sorted =>
    exact linked.sorted.sublist List.erase_sublist
  case distinct =>
    exact List.nodup_cons.mpr ⟨notPend, linked.distinct⟩
  case live =>
    intro q
    rw [linked.nodup.mem_erase_iff, linked.live q]
    by_cases same : q = p
    · rw [same, Live, Live, deadKind]
      simp
    · rw [Live, Live, kind q same]
      exact ⟨fun found => found.2, fun found => ⟨same, found⟩⟩
  case closed =>
    intro q
    rw [List.mem_cons, linked.closed q]
    by_cases same : q = p
    · rw [same, Closed, Closed, deadKind]
      exact ⟨fun _ => ⟨wasLive.1, rfl⟩, fun _ => Or.inl rfl⟩
    · rw [Closed, Closed, kind q same]
      simp [same, Reactor.bury, Reactor.modify, Reactor.connUnlink]
  case bound => exact linked.bound

/-! ### The end of a batch -/

theorem Linked.drainPendingFree (linked : r.Linked conns pend) :
    r.drainPendingFree.Linked conns [] := by
  have nodes : chainNodes r.links r.fresh r.pendingFree = pend :=
    linked.pendChain.nodes_eq linked.pend_length
  have allocated : ∀ q, r.drainPendingFree.allocated q = true ↔
      r.allocated q = true ∧ q ∉ pend := by
    intro q
    show (r.allocated q && decide (q ∉ chainNodes r.links r.fresh r.pendingFree)) = true ↔ _
    rw [nodes, Bool.and_eq_true, decide_eq_true_eq]
  refine ⟨linked.connsChain, rfl, linked.sorted, List.nodup_nil, ?_, ?_, ?_⟩
  · intro q
    rw [linked.live q, Live, Live, allocated]
    constructor
    · intro live
      exact ⟨⟨live.1, linked.disjoint ((linked.live q).mpr live)⟩, live.2⟩
    · intro live
      exact ⟨live.1.1, live.2⟩
  · intro q
    rw [Closed, allocated, linked.closed q]
    constructor
    · intro none
      exact absurd none List.not_mem_nil
    · intro found
      exact absurd ⟨found.1.1, found.2⟩ found.1.2
  · intro q found
    exact linked.bound q ((allocated q).mp found).1

end Lists

/-! ## Closing -/

/-- What holds between two events, and within one as well: the lists are in order; a
child is the newer record of a hash process that knows its owner; only clients stage
uploads; only live records are registered, and freed ones were closed. -/
structure Consistent (r : Reactor) : Prop where
  lists : ∃ conns pend, r.Linked conns pend
  child : ∀ p c, r.Live p → (r.heap p).child = some c →
    (r.heap p).kind = .client ∧ r.Live c ∧ (r.heap c).kind = .hashChild ∧
      (r.heap c).owner = some p ∧ p < c
  owner : ∀ c o, r.Live c → (r.heap c).owner = some o →
    (r.heap c).kind = .hashChild ∧ o < c ∧ (r.Live o → (r.heap o).kind = .client)
  plain : ∀ p, r.Live p → (r.heap p).kind ≠ .client → (r.heap p).upPath = none
  registered : ∀ p, (r.interest p).isSome → r.Live p
  gone : ∀ p, p < r.fresh → r.allocated p = false → (r.heap p).kind = .dead

/-- Everything a call of `conn_close` changes. -/
structure Removed (r : Reactor) (sys : Sys) (p : Ptr) (doomed : List Ptr) (after : Reactor) :
    Prop where
  others : ∀ q, q ∉ doomed → ∃ link, after.heap q = (r.heap q).linkTo link
  dead : ∀ q ∈ doomed, (after.heap q).kind = .dead
  childless : ∀ q ∈ doomed, (after.heap q).child = none
  interest : ∀ q, after.interest q = if q ∈ doomed then none else r.interest q
  allocated : after.allocated = r.allocated
  fresh : after.fresh = r.fresh
  store : after.store = unlinkStaged sys r.store (r.heap p).upPath
  importRunning : after.importRunning = r.importRunning
  waiting : after.waiting = r.waiting
  batch : after.batch = r.batch
  log : after.log = r.log
  lists : ∀ conns pend, r.Linked conns pend →
    after.Linked (conns.diff doomed) (doomed.reverse ++ pend)

section Closing

variable {r after : Reactor} {sys : Sys} {p q : Ptr} {doomed : List Ptr}

theorem touch_of_allocated (allocated : r.allocated p = true) : r.touch p = r := by
  unfold touch withLog
  simp [allocated]

theorem connClose_dead (dead : (r.heap p).kind = .dead) : r.connClose sys p = r := by
  unfold connClose connCloseWithin
  rw [if_pos dead]

theorem release_of_ne (different : q ≠ p) : (r.release sys p).heap q = r.heap q :=
  modify_of_ne r _ different

theorem release_self (r : Reactor) (sys : Sys) (p : Ptr) :
    (r.release sys p).heap p = (r.heap p).released :=
  modify_self r p _

/-- Assigning to other fields than the link and the kind. -/
theorem Linked.modify {conns pend : List Ptr} (linked : r.Linked conns pend) (p : Ptr)
    (change : Record → Record) (kind : ∀ cc, (change cc).kind = cc.kind)
    (next : ∀ cc, (change cc).next = cc.next) : (r.modify p change).Linked conns pend := by
  have same : ∀ q, ((r.modify p change).heap q).kind = (r.heap q).kind ∧
      ((r.modify p change).heap q).next = (r.heap q).next := by
    intro q
    by_cases here : q = p
    · rw [here, modify_self]
      exact ⟨kind _, next _⟩
    · rw [modify_of_ne _ _ here]
      exact ⟨rfl, rfl⟩
  exact linked.congr (fun q => (same q).2) (fun q => by rw [(same q).1]) rfl rfl rfl rfl

theorem Linked.release {conns pend : List Ptr} (linked : r.Linked conns pend) :
    (r.release sys p).Linked conns pend := by
  have modified := linked.modify p Record.released (fun _ => rfl) (fun _ => rfl)
  exact modified.congr (fun _ => rfl) (fun _ => Iff.rfl) rfl rfl rfl rfl

/-- A record without a child and without an owner. -/
theorem connCloseWithin_alone {bound : Nat} (alive : (r.heap p).kind ≠ .dead)
    (childless : (r.heap p).child = none) (ownerless : (r.heap p).owner = none) :
    connCloseWithin sys (bound + 1) p r = (r.release sys p).bury p := by
  have child : ((r.release sys p).heap p).child = none := by
    rw [release_self]
    exact childless
  have owner : ((r.release sys p).heap p).owner = none := by
    rw [release_self]
    exact ownerless
  rw [connCloseWithin, if_neg alive]
  dsimp only
  rw [child]
  dsimp only
  rw [owner]

/-- The same with every effect. -/
theorem removed_alone (live : r.Live p) (childless : (r.heap p).child = none) :
    Removed r sys p [p] ((r.release sys p).bury p) where
  others q outside := by
    have different : q ≠ p := fun same => outside (List.mem_singleton.mpr same)
    obtain ⟨link, same⟩ := (r.release sys p).bury_of_ne different
    rw [same, release_of_ne different]
    exact ⟨link, rfl⟩
  dead q member := by
    rw [List.mem_singleton.mp member, bury_self]
    rfl
  childless q member := by
    rw [List.mem_singleton.mp member, bury_self, release_self]
    exact childless
  interest q := by
    show Function.update r.interest p none q = _
    simp [Function.update_apply]
  allocated := rfl
  fresh := rfl
  store := rfl
  importRunning := rfl
  waiting := rfl
  batch := rfl
  log := rfl
  lists conns pend linked := by
    rw [List.diff_cons, List.diff_nil]
    exact linked.release.bury ((linked.live p).mpr live)

/-- What `conn_close` on a record leaves to the call that closes its child. -/
def orphaned (r : Reactor) (sys : Sys) (p c : Nat) : Reactor :=
  (r.release sys p).modify c fun cc => cc.ownedBy none

/-- What that call leaves. -/
def childGone (r : Reactor) (sys : Sys) (p c : Nat) : Reactor :=
  ((r.orphaned sys p c).release sys c).bury c

section Children

variable {c : Nat}

theorem orphaned_child (different : c ≠ p) :
    (r.orphaned sys p c).heap c = (r.heap c).ownedBy none := by
  rw [orphaned, modify_self, release_of_ne different]

theorem childGone_removed (childLive : r.Live c) (different : c ≠ p)
    (childless : (r.heap c).child = none) :
    Removed (r.orphaned sys p c) sys c [c] (r.childGone sys p c) := by
  have atChild := @orphaned_child r sys p c different
  apply removed_alone
  · refine ⟨childLive.1, ?_⟩
    rw [atChild]
    exact childLive.2
  · rw [atChild]
    exact childless

/-- `conn_close` closes the child before the record. -/
theorem connClose_of_child (live : r.Live p) (ownerless : (r.heap p).owner = none)
    (child : (r.heap p).child = some c) (childLive : r.Live c) (different : c ≠ p)
    (childless : (r.heap c).child = none) (used : r.fresh ≠ 0) :
    r.connClose sys p = ((r.childGone sys p c).modify p Record.childless).bury p := by
  have atChild := @orphaned_child r sys p c different
  have childClosed : connCloseWithin sys r.fresh c (r.orphaned sys p c) = r.childGone sys p c := by
    obtain ⟨bound, same⟩ : ∃ bound, r.fresh = bound + 1 := Nat.exists_eq_succ_of_ne_zero used
    rw [same]
    apply connCloseWithin_alone
    · rw [atChild]
      exact childLive.2
    · rw [atChild]
      exact childless
    · rw [atChild]
      rfl
  have childAfter : ((r.release sys p).heap p).child = some c := by
    rw [release_self]
    exact child
  have ownerAfter : (((r.childGone sys p c).modify p Record.childless).heap p).owner = none := by
    obtain ⟨link, same⟩ := (childGone_removed childLive different childless).others p
      (fun member => different (List.mem_singleton.mp member).symm)
    rw [modify_self, same, orphaned, modify_of_ne _ _ different.symm, release_self]
    exact ownerless
  have touched : (r.release sys p).touch c = r.release sys p := touch_of_allocated childLive.1
  unfold connClose
  rw [connCloseWithin, if_neg live.2]
  dsimp only
  rw [childAfter]
  dsimp only
  rw [touched, ← orphaned, childClosed, ownerAfter]

/-- The record goes with its child, which staged nothing. -/
theorem removed_with_child (live : r.Live p) (childLive : r.Live c) (different : c ≠ p)
    (childless : (r.heap c).child = none) (childPlain : (r.heap c).upPath = none) :
    Removed r sys p ([c] ++ [p]) (((r.childGone sys p c).modify p Record.childless).bury p) := by
  have childRemoved := @childGone_removed r sys p c childLive different childless
  have atChild := @orphaned_child r sys p c different
  let last := (r.childGone sys p c).modify p Record.childless
  have elsewhere : ∀ q, q ≠ p → last.heap q = (r.childGone sys p c).heap q :=
    fun q other => modify_of_ne _ _ other
  constructor
  case others =>
    intro q outside
    have notChild : q ≠ c := fun same => outside (by simp [same])
    have notRecord : q ≠ p := fun same => outside (by simp [same])
    obtain ⟨link, same⟩ := last.bury_of_ne notRecord
    obtain ⟨childLink, childSame⟩ := childRemoved.others q
      (fun member => notChild (List.mem_singleton.mp member))
    rw [same, elsewhere q notRecord, childSame, orphaned, modify_of_ne _ _ notChild,
      release_of_ne notRecord]
    exact ⟨link, rfl⟩
  case dead =>
    intro q member
    by_cases same : q = p
    · rw [same, bury_self]
      rfl
    · obtain ⟨link, kept⟩ := last.bury_of_ne same
      have isChild : q = c := by simpa [same] using member
      rw [kept, elsewhere q same]
      exact childRemoved.dead q (List.mem_singleton.mpr isChild)
  case childless =>
    intro q member
    by_cases same : q = p
    · rw [same, bury_self, modify_self]
      rfl
    · obtain ⟨link, kept⟩ := last.bury_of_ne same
      have isChild : q = c := by simpa [same] using member
      rw [kept, elsewhere q same]
      exact childRemoved.childless q (List.mem_singleton.mpr isChild)
  case interest =>
    intro q
    show (r.childGone sys p c).interest q = _
    rw [childRemoved.interest q]
    show (if q ∈ [c] then none else Function.update r.interest p none q) = _
    by_cases same : q = p
    · simp [same]
    · simp [same]
  case allocated => exact childRemoved.allocated
  case fresh => exact childRemoved.fresh
  case store =>
    show (r.childGone sys p c).store = _
    rw [childRemoved.store, atChild]
    show unlinkStaged sys _ (r.heap c).upPath = _
    rw [childPlain]
    rfl
  case importRunning => exact childRemoved.importRunning
  case waiting => exact childRemoved.waiting
  case batch => exact childRemoved.batch
  case log => exact childRemoved.log
  case lists =>
    intro conns pend linked
    have orphanedLinked : (r.orphaned sys p c).Linked conns pend :=
      linked.release.modify c _ (fun _ => rfl) (fun _ => rfl)
    have lastLinked := (childRemoved.lists conns pend orphanedLinked).modify p Record.childless
      (fun _ => rfl) (fun _ => rfl)
    have member : p ∈ conns.diff [c] := by
      rw [List.diff_cons, List.diff_nil, linked.nodup.mem_erase_iff]
      exact ⟨different.symm, (linked.live p).mpr live⟩
    have buried := lastLinked.bury member
    rw [List.diff_append]
    simpa using buried

end Children

/-- `conn_close` on a record without an owner: the record goes, and its child with it. -/
theorem connClose_removed (consistent : Consistent r) (live : r.Live p)
    (ownerless : (r.heap p).owner = none) :
    Removed r sys p ((r.heap p).child.toList ++ [p]) (r.connClose sys p) := by
  cases child : (r.heap p).child with
  | none =>
      have alone : r.connClose sys p = (r.release sys p).bury p :=
        connCloseWithin_alone live.2 child ownerless
      rw [alone]
      exact removed_alone live child
  | some c =>
      obtain ⟨client, childLive, hash, owned, newer⟩ := consistent.child p c live child
      obtain ⟨conns, pend, linked⟩ := consistent.lists
      have different : c ≠ p := Nat.ne_of_gt newer
      have childless : (r.heap c).child = none := by
        by_contra present
        obtain ⟨grandchild, same⟩ := Option.ne_none_iff_exists'.mp present
        rw [(consistent.child c grandchild childLive same).1] at hash
        contradiction
      have childPlain : (r.heap c).upPath = none := by
        apply consistent.plain c childLive
        rw [hash]
        exact ConnKind.noConfusion
      have used : r.fresh ≠ 0 := Nat.ne_zero_of_lt (linked.bound p live.1)
      rw [connClose_of_child live ownerless child childLive different childless used]
      exact removed_with_child live childLive different childless childPlain

end Closing

end Reactor

end CixCache
