import CixCache.Lib.Intrusive
import CixCache.Server.Parse
import CixCache.Server.Transfer

/-!
Contract: the connection records of the reactor and the two lists they are kept in.

Owns: `Record`, the fields of `struct conn`; `Reactor`, the records with the global state
of the event loop; `connNew`, `connUnlink`, `connClose` and `drainPendingFree`; and
`History`, what a run has done so far.

The address of a record is the number of records allocated before it: an address is
never used twice, so that a pointer to a freed record is seen as one. The clock is read
once for each event.

Does not own: the events.
-/

namespace CixCache

open CixCache.Lib

/-! ## Records -/

/-- `enum conn_kind` -/
inductive ConnKind where
  | listener
  | client
  | hashChild
  | importChild
  | dead
deriving DecidableEq, Repr

/-- `enum conn_state` -/
inductive ConnPhase where
  | readRequest
  | recvBody
  | hashing
  | sendHeader
  | sendBody
deriving DecidableEq, Repr

/-- The address of a record. -/
abbrev Ptr := Nat

/-- `struct conn`. A descriptor field says whether it holds a descriptor; `blob` is what
`blob_fd` reads. The log note, which only `server_log` reads, is left out. -/
structure Record where
  kind : ConnKind
  state : ConnPhase
  fd : Bool
  http : HttpConn
  hdr : Bytes
  hdrOff : Nat
  headOnly : Bool
  blob : Option Bytes
  bodyOff : Nat
  bodyLen : Nat
  outBuf : Option Bytes
  outOff : Nat
  upFd : Bool
  upPath : Option Path
  upDigest : Bytes
  upName : Bytes
  upExpect : Nat
  upReceived : Nat
  childPid : Option Nat
  childOut : Bool
  owner : Option Ptr
  child : Option Ptr
  lastMs : Int
  next : Option Ptr

/-- A record as `conn_new` fills it in, before it is linked. -/
def Record.new (kind : ConnKind) (now : Int) : Record where
  kind := kind
  state := .readRequest
  fd := true
  http := .init
  hdr := []
  hdrOff := 0
  headOnly := false
  blob := none
  bodyOff := 0
  bodyLen := 0
  outBuf := none
  outOff := 0
  upFd := false
  upPath := none
  upDigest := []
  upName := []
  upExpect := 0
  upReceived := 0
  childPid := none
  childOut := false
  owner := none
  child := none
  lastMs := now
  next := none

def Record.linkTo (cc : Record) (next : Option Ptr) : Record := { cc with next := next }

/-- What the beginning of `conn_close` does to the record itself. -/
def Record.released (cc : Record) : Record :=
  { cc with fd := false, blob := none, upFd := false, childOut := false, upPath := none }

/-- What its end does to it. -/
def Record.buried (cc : Record) : Record :=
  { cc with outBuf := none, http := .init, kind := .dead }

def Record.ownedBy (cc : Record) (owner : Option Ptr) : Record := { cc with owner := owner }

def Record.childless (cc : Record) : Record := { cc with child := none }

/-! ## The state of the loop -/

/-- The events a descriptor is registered for; EPOLLHUP and EPOLLERR always are. -/
structure Interest where
  readable : Bool
  writable : Bool
deriving DecidableEq, Repr

/-- EPOLLIN, EPOLLOUT and no event. -/
def Interest.input : Interest := ⟨true, false⟩
def Interest.output : Interest := ⟨false, true⟩
def Interest.quiet : Interest := ⟨false, false⟩

/-- What `epoll_wait` reports of a record; `hangup` is EPOLLHUP or EPOLLERR. -/
structure Ready where
  readable : Bool
  writable : Bool
  hangup : Bool
deriving DecidableEq, Repr

/-- What a run has done so far. No function of the source reads it. `hashers` and
`importers` are the processes that were forked, `waited` those that were waited for,
`begun` counts the responses begun on a record, `staged` are the staging files that were
created for one. `fault` says that freed memory was used, `strayed` that an event acted
on a closed record. -/
structure History where
  nextPid : Nat
  hashers : List Nat
  importers : List Nat
  waited : List Nat
  begun : Ptr → Nat
  staged : List (Ptr × Path)
  fault : Bool
  strayed : Bool

/-- The records, the epoll set by the record a descriptor belongs to, the batch that is
being walked, and the globals the handlers use. -/
structure Reactor where
  heap : Ptr → Record
  allocated : Ptr → Bool
  fresh : Ptr
  conns : Option Ptr
  pendingFree : Option Ptr
  interest : Ptr → Option Interest
  store : Store
  importRunning : Bool
  waiting : Bool
  batch : List (Ptr × Ready)
  log : History

namespace Reactor

/-- A record was allocated and was not closed. -/
def Live (r : Reactor) (p : Ptr) : Prop := r.allocated p = true ∧ (r.heap p).kind ≠ .dead

instance (r : Reactor) (p : Ptr) : Decidable (r.Live p) :=
  inferInstanceAs (Decidable (_ ∧ _))

/-- A record that was closed and is not freed yet. -/
def Closed (r : Reactor) (p : Ptr) : Prop := r.allocated p = true ∧ (r.heap p).kind = .dead

/-- Assigning to fields of a record. -/
def modify (r : Reactor) (p : Ptr) (change : Record → Record) : Reactor :=
  { r with heap := Function.update r.heap p (change (r.heap p)) }

@[simp] theorem modify_self (r : Reactor) (p : Ptr) (change : Record → Record) :
    (r.modify p change).heap p = change (r.heap p) :=
  Function.update_self _ _ _

theorem modify_of_ne (r : Reactor) {p q : Ptr} (change : Record → Record) (different : q ≠ p) :
    (r.modify p change).heap q = r.heap q :=
  Function.update_of_ne different _ _

def withStore (r : Reactor) (store : Store) : Reactor := { r with store := store }

def withInterest (r : Reactor) (interest : Ptr → Option Interest) : Reactor :=
  { r with interest := interest }

def withLog (r : Reactor) (log : History) : Reactor := { r with log := log }

@[simp] theorem withStore_heap (r : Reactor) (store : Store) : (r.withStore store).heap = r.heap :=
  rfl

@[simp] theorem withInterest_heap (r : Reactor) (interest : Ptr → Option Interest) :
    (r.withInterest interest).heap = r.heap :=
  rfl

@[simp] theorem withLog_heap (r : Reactor) (log : History) : (r.withLog log).heap = r.heap := rfl

/-- An event acts on a record. -/
def enter (r : Reactor) (p : Ptr) : Reactor :=
  r.withLog { r.log with
    fault := r.log.fault || !r.allocated p
    strayed := r.log.strayed || decide ((r.heap p).kind = .dead) }

/-- A pointer is followed to a record. -/
def touch (r : Reactor) (p : Ptr) : Reactor :=
  r.withLog { r.log with fault := r.log.fault || !r.allocated p }

/-- `waitpid` -/
def waitpid (r : Reactor) (pid : Nat) : Reactor :=
  r.withLog { r.log with waited := pid :: r.log.waited }

/-! ## Functions of the source -/

/-- `conn_new` when its allocation succeeds. The record is at the address `fresh`. -/
def connNew (r : Reactor) (kind : ConnKind) (now : Int) : Reactor :=
  { r with
    heap := Function.update r.heap r.fresh ((Record.new kind now).linkTo r.conns)
    allocated := Function.update r.allocated r.fresh true
    fresh := r.fresh + 1
    conns := some r.fresh }

/-- `conn_unlink`. Every list is shorter than the number of addresses in use. -/
def connUnlink (r : Reactor) (p : Ptr) : Reactor :=
  let links := Links.unlink ⟨r.conns, fun q => (r.heap q).next⟩ p (r.fresh + 1)
  { r with
    heap := fun q => (r.heap q).linkTo (links.next q)
    conns := links.head }

/-- `unlink(cc->up_path)` -/
def unlinkStaged (sys : Sys) (st : Store) (upPath : Option Path) : Store :=
  match upPath with
  | none => st
  | some path => st.withFiles (unlink sys st.files path).1

/-- The first part of `conn_close`: descriptors are closed, which ends the registration,
and a staging file is removed. -/
def release (r : Reactor) (sys : Sys) (p : Ptr) : Reactor :=
  ((r.modify p Record.released).withInterest (Function.update r.interest p none)).withStore
    (unlinkStaged sys r.store (r.heap p).upPath)

/-- The last part of `conn_close`: the record is dead and changes lists. -/
def bury (r : Reactor) (p : Ptr) : Reactor :=
  let unlinked := (r.modify p Record.buried).connUnlink p
  { (unlinked.modify p fun cc => cc.linkTo unlinked.pendingFree) with pendingFree := some p }

/-- `conn_close`; the bound is on how deep a child closes a child of its own. -/
def connCloseWithin (sys : Sys) : Nat → Ptr → Reactor → Reactor
  | 0, _, r => r
  | bound + 1, p, r =>
      if (r.heap p).kind = .dead then r
      else
        let released := r.release sys p
        let childless :=
          match (released.heap p).child with
          | none => released
          | some child =>
              let orphaned := (released.touch child).modify child fun cc => cc.ownedBy none
              (connCloseWithin sys bound child orphaned).modify p Record.childless
        let left :=
          match (childless.heap p).owner with
          | none => childless
          | some owner => (childless.touch owner).modify owner Record.childless
        left.bury p

def connClose (r : Reactor) (sys : Sys) (p : Ptr) : Reactor := connCloseWithin sys (r.fresh + 1) p r

/-- `drain_pending_free` -/
def drainPendingFree (r : Reactor) : Reactor :=
  let nodes := chainNodes (fun q => (r.heap q).next) r.fresh r.pendingFree
  { r with
    allocated := fun p => r.allocated p && decide (p ∉ nodes)
    pendingFree := none }

end Reactor

end CixCache
