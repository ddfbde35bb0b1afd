import Mathlib.Logic.Function.Basic
import Mathlib.Tactic.Tauto
import CixCache.Name.Laws

/-!
Contract: the file tree under the store root and the system calls made on it.

Owns: paths, nodes and the tree; `unlink`, `rename`, `symlink`, `create`,
`append` and `stat` with their outcomes; `Sys`, what the environment decides
about the calls of one operation (which of them fail, what `readdir` yields);
the store's process state and the paths built under its root.

A call that fails leaves the tree as it was. `readlink`, `lstat`, `stat` and
`access` answer from the tree alone.

Does not own: what the store does with the calls.
-/

namespace CixCache

/-! ## The tree -/

/-- A generated name under tmp/: `.up.<pid>.<counter>` for a staged upload,
`.pub.<pid>.<counter>` for a link about to be published. -/
inductive TmpName where
  | up (pid counter : Nat)
  | pub (pid counter : Nat)
deriving DecidableEq, Repr

/-- A path under the store root. -/
inductive Path where
  | packages (name : Bytes)
  | blobs (name : Bytes)
  | tmp (name : TmpName)
deriving DecidableEq, Repr

inductive Node where
  | regular (content : Bytes)
  | symlink (target : Bytes)
deriving DecidableEq, Repr

abbrev Files := Path → Option Node

/-! ## What the environment decides -/

/-- A call that can fail for a reason outside the tree. -/
inductive Call where
  | unlink (path : Path)
  | rename (source target : Path)
  | symlink (path : Path)
  | create (path : Path)
  | write (path : Path)
  | sha256sum (path : Path)
  | realloc (slots : Nat)
  | pipe
  | fork
  | pidfdOpen
  | connNew
  | epollAdd
deriving DecidableEq

/-- The directories the store lists. -/
inductive Dir where
  | packages
  | blobs
deriving DecidableEq

/-- The environment of one operation: the calls that succeed, the names
`readdir` yields (`none` when `opendir` fails) and the `st_mtime` of links. -/
structure Sys where
  allows : Call → Bool
  readdir : Dir → Option (List Bytes)
  mtime : Path → Int

/-- File-system calls succeed. -/
def Sys.Succeeds (sys : Sys) : Prop := ∀ call, sys.allows call = true

/-- An environment in which every call succeeds. -/
def Sys.succeeding (readdir : Dir → Option (List Bytes)) : Sys :=
  ⟨fun _ => true, readdir, fun _ => 0⟩

theorem Sys.succeeds_succeeding (readdir : Dir → Option (List Bytes)) :
    (Sys.succeeding readdir).Succeeds :=
  fun _ => rfl

def Dir.path : Dir → Bytes → Path
  | .packages, name => .packages name
  | .blobs, name => .blobs name

/-- When `opendir` succeeds, `readdir` yields every name of the directory once,
in any order, and the two entries every directory has. -/
def Sys.Listing (sys : Sys) (files : Files) (dir : Dir) : Prop :=
  ∀ names, sys.readdir dir = some names → names.Nodup ∧
    ∀ name, name ∈ names ↔
      (files (dir.path name)).isSome ∨ name = [dot] ∨ name = [dot, dot]

/-- Removing a file never fails. -/
def Sys.Unlinks (sys : Sys) : Prop := ∀ path, sys.allows (.unlink path) = true

/-! ## System calls -/

inductive Unlinked where
  | done
  | absent
  | failed
deriving DecidableEq, Repr

def unlink (sys : Sys) (files : Files) (path : Path) : Files × Unlinked :=
  match files path with
  | none => (files, .absent)
  | some _ =>
      if sys.allows (.unlink path) then (Function.update files path none, .done)
      else (files, .failed)

def rename (sys : Sys) (files : Files) (source target : Path) : Option Files :=
  match files source with
  | none => none
  | some node =>
      if sys.allows (.rename source target) then
        some (Function.update (Function.update files source none) target (some node))
      else none

def symlink (sys : Sys) (files : Files) (target : Bytes) (path : Path) : Option Files :=
  match files path with
  | some _ => none
  | none =>
      if sys.allows (.symlink path) then
        some (Function.update files path (some (.symlink target)))
      else none

/-- `open(path, O_WRONLY | O_CREAT | O_TRUNC)`; a staging name is never a link. -/
def create (sys : Sys) (files : Files) (path : Path) : Option Files :=
  if sys.allows (.create path) then
    some (Function.update files path (some (.regular [])))
  else none

/-- `write` of a whole buffer at the end of an open file. -/
def append (sys : Sys) (files : Files) (path : Path) (bytes : Bytes) : Option Files :=
  match files path with
  | some (.regular content) =>
      if sys.allows (.write path) then
        some (Function.update files path (some (.regular (content ++ bytes))))
      else none
  | _ => none

/-! ## Following links -/

/-- `../blobs/` -/
def blobsPrefix : Bytes := ascii "../blobs/"

/-- The link target the store writes for a digest. -/
def blobTarget (digest : Bytes) : Bytes := blobsPrefix ++ digest

/-- Where a link of the tree leads; a target of any other shape leads out of it. -/
def linkPath (target : Bytes) : Option Path :=
  if target.take blobsPrefix.length = blobsPrefix ∧ slash ∉ target.drop blobsPrefix.length then
    some (.blobs (target.drop blobsPrefix.length))
  else none

/-- The content a path leads to through at most the given number of nodes. -/
def follow (files : Files) : Nat → Path → Option Bytes
  | 0, _ => none
  | hops + 1, path =>
      match files path with
      | some (.regular content) => some content
      | some (.symlink target) =>
          match linkPath target with
          | some next => follow files hops next
          | none => none
      | none => none

/-- Content of the file behind a path, as `stat`, `access` and `open` reach it;
more than 40 links are ELOOP. -/
def stat (files : Files) (path : Path) : Option Bytes := follow files 41 path

/-! ## The three directories of a tree -/

def packagesOf (files : Files) (name : Bytes) : Option Node := files (.packages name)

def blobsOf (files : Files) (name : Bytes) : Option Node := files (.blobs name)

def tmpOf (files : Files) (name : TmpName) : Option Node := files (.tmp name)

section Directories

variable (files : Files) (node : Option Node)

@[simp] theorem packagesOf_update_packages (name : Bytes) :
    packagesOf (Function.update files (.packages name) node) =
      Function.update (packagesOf files) name node :=
  Function.update_comp_eq_of_injective files (fun _ _ => Path.packages.inj) name node

@[simp] theorem packagesOf_update_blobs (name : Bytes) :
    packagesOf (Function.update files (.blobs name) node) = packagesOf files := by
  funext other
  exact Function.update_of_ne (by simp) _ _

@[simp] theorem packagesOf_update_tmp (name : TmpName) :
    packagesOf (Function.update files (.tmp name) node) = packagesOf files := by
  funext other
  exact Function.update_of_ne (by simp) _ _

@[simp] theorem blobsOf_update_blobs (name : Bytes) :
    blobsOf (Function.update files (.blobs name) node) =
      Function.update (blobsOf files) name node :=
  Function.update_comp_eq_of_injective files (fun _ _ => Path.blobs.inj) name node

@[simp] theorem blobsOf_update_packages (name : Bytes) :
    blobsOf (Function.update files (.packages name) node) = blobsOf files := by
  funext other
  exact Function.update_of_ne (by simp) _ _

@[simp] theorem blobsOf_update_tmp (name : TmpName) :
    blobsOf (Function.update files (.tmp name) node) = blobsOf files := by
  funext other
  exact Function.update_of_ne (by simp) _ _

@[simp] theorem tmpOf_update_tmp (name : TmpName) :
    tmpOf (Function.update files (.tmp name) node) =
      Function.update (tmpOf files) name node :=
  Function.update_comp_eq_of_injective files (fun _ _ => Path.tmp.inj) name node

@[simp] theorem tmpOf_update_packages (name : Bytes) :
    tmpOf (Function.update files (.packages name) node) = tmpOf files := by
  funext other
  exact Function.update_of_ne (by simp) _ _

@[simp] theorem tmpOf_update_blobs (name : Bytes) :
    tmpOf (Function.update files (.blobs name) node) = tmpOf files := by
  funext other
  exact Function.update_of_ne (by simp) _ _

end Directories

/-- Only blobs/ decides where a path of blobs/ leads. -/
theorem stat_blobs_congr {files other : Files} (same : blobsOf files = blobsOf other)
    (name : Bytes) : stat files (.blobs name) = stat other (.blobs name) := by
  have follows : ∀ hops name, follow files hops (.blobs name) = follow other hops (.blobs name) := by
    intro hops
    induction hops with
    | zero => intro name; rfl
    | succ hops inductionHypothesis =>
        intro name
        have node : files (.blobs name) = other (.blobs name) := congrFun same name
        unfold follow
        rw [node]
        split
        next => rfl
        next target _ =>
          cases led : linkPath target with
          | none => rfl
          | some next =>
              unfold linkPath at led
              split at led
              next =>
                rw [← Option.some.inj led]
                exact inductionHypothesis _
              next => contradiction
        next => rfl
  exact follows 41 name

/-! ## The store's process state -/

/-- CONF_PATH_MAX -/
def confPathMax : Nat := 512

/-- PATH_MAX -/
def pathMax : Nat := 4096

/-- The configured root; it is copied out of a CONF_PATH_MAX field. -/
structure Root where
  text : Bytes
  bound : text.length < confPathMax
deriving DecidableEq

/-- A process working on the store, and the tree it works on. -/
structure Store where
  root : Root
  pid : Nat
  tmpCounter : Nat
  files : Files

def Store.withFiles (st : Store) (files : Files) : Store := { st with files := files }

@[simp] theorem Store.withFiles_files (st : Store) (files : Files) :
    (st.withFiles files).files = files := rfl

@[simp] theorem Store.withFiles_root (st : Store) (files : Files) :
    (st.withFiles files).root = st.root := rfl

@[simp] theorem Store.withFiles_self (st : Store) : st.withFiles st.files = st := rfl

@[simp] theorem Store.withFiles_withFiles (st : Store) (first second : Files) :
    (st.withFiles first).withFiles second = st.withFiles second := rfl

/-- The root a packaged installation is configured with. -/
def Root.standard : Root := ⟨ascii "/var/lib/cix-cache", by decide⟩

/-- A store that holds exactly these entries and blobs, given as finite maps
from names to digests and from digests to contents. -/
def Store.holding (entries blobs : List (Bytes × Bytes)) : Store where
  root := Root.standard
  pid := 1
  tmpCounter := 0
  files
    | .packages name => (entries.lookup name).map fun digest => .symlink (blobTarget digest)
    | .blobs digest => (blobs.lookup digest).map .regular
    | .tmp _ => none

/-- The environment that lists such a store. -/
def Sys.holding (entries blobs : List (Bytes × Bytes)) : Sys :=
  Sys.succeeding fun
    | .packages => some ([dot] :: [dot, dot] :: entries.map Prod.fst)
    | .blobs => some ([dot] :: [dot, dot] :: blobs.map Prod.fst)

private theorem lookup_isSome {pairs : List (Bytes × Bytes)} {name : Bytes} :
    (pairs.lookup name).isSome ↔ name ∈ pairs.map Prod.fst := by
  rw [List.lookup_isSome_iff, List.mem_map]
  constructor
  · intro found
    obtain ⟨pair, member, same⟩ := found
    exact ⟨pair, member, (beq_iff_eq.mp same).symm⟩
  · intro found
    obtain ⟨pair, member, same⟩ := found
    exact ⟨pair, member, beq_iff_eq.mpr same.symm⟩

theorem Sys.listing_holding {entries blobs : List (Bytes × Bytes)}
    (entriesNodup : ([dot] :: [dot, dot] :: entries.map Prod.fst).Nodup)
    (blobsNodup : ([dot] :: [dot, dot] :: blobs.map Prod.fst).Nodup) (dir : Dir) :
    (Sys.holding entries blobs).Listing (Store.holding entries blobs).files dir := by
  intro names listing
  cases dir with
  | packages =>
      rw [← Option.some.inj listing]
      refine ⟨entriesNodup, fun name => ?_⟩
      show _ ↔ ((entries.lookup name).map _).isSome ∨ _
      rw [Option.isSome_map, lookup_isSome, List.mem_cons, List.mem_cons]
      tauto
  | blobs =>
      rw [← Option.some.inj listing]
      refine ⟨blobsNodup, fun name => ?_⟩
      show _ ↔ ((blobs.lookup name).map _).isSome ∨ _
      rw [Option.isSome_map, lookup_isSome, List.mem_cons, List.mem_cons]
      tauto

def rawEntryPath (root : Root) (name : Bytes) : Option Path :=
  if pathMax ≤ (root.text ++ ascii "/packages/" ++ name).length then none
  else some (.packages name)

def blobPath (root : Root) (digest : Bytes) : Option Path :=
  if pathMax ≤ (root.text ++ ascii "/blobs/" ++ digest).length then none
  else some (.blobs digest)

/-- The staging path of an upload. -/
def storeTmpPath (st : Store) : Path × Store :=
  (.tmp (.up st.pid st.tmpCounter), { st with tmpCounter := st.tmpCounter + 1 })

/-- A name of a directory entry's length always has a path. -/
theorem rawEntryPath_of_lt (root : Root) {name : Bytes} (fits : name.length < storeNameMax) :
    rawEntryPath root name = some (.packages name) := by
  have bound := root.bound
  have prefixLength : (ascii "/packages/").length = 10 := by decide
  unfold confPathMax at bound
  unfold storeNameMax at fits
  unfold rawEntryPath pathMax
  rw [if_neg]
  rw [List.length_append, List.length_append, prefixLength]
  omega

theorem blobPath_of_lt (root : Root) {digest : Bytes} (fits : digest.length < storeNameMax) :
    blobPath root digest = some (.blobs digest) := by
  have bound := root.bound
  have prefixLength : (ascii "/blobs/").length = 7 := by decide
  unfold confPathMax at bound
  unfold storeNameMax at fits
  unfold blobPath pathMax
  rw [if_neg]
  rw [List.length_append, List.length_append, prefixLength]
  omega

theorem blobPath_eq_some {root : Root} {digest : Bytes} {path : Path}
    (located : blobPath root digest = some path) : path = .blobs digest := by
  unfold blobPath at located
  split at located
  next => contradiction
  next => exact (Option.some.inj located).symm

theorem rawEntryPath_eq_some {root : Root} {name : Bytes} {path : Path}
    (located : rawEntryPath root name = some path) : path = .packages name := by
  unfold rawEntryPath at located
  split at located
  next => contradiction
  next => exact (Option.some.inj located).symm

/-! ## Outcomes of the calls -/

section Outcomes

variable {sys : Sys} {files : Files}

theorem unlink_of_absent {path : Path} (absent : files path = none) :
    unlink sys files path = (files, .absent) := by
  simp [unlink, absent]

/-- The two trees an `unlink` can leave. -/
theorem unlink_files (sys : Sys) (files : Files) (path : Path) :
    (unlink sys files path).1 = files ∨
      (unlink sys files path).1 = Function.update files path none := by
  unfold unlink
  split
  next => exact Or.inl rfl
  next =>
    split
    next => exact Or.inr rfl
    next => exact Or.inl rfl

theorem unlink_not_failed (succeeds : sys.Succeeds) (files : Files) (path : Path) :
    (unlink sys files path).2 ≠ .failed := by
  unfold unlink
  split
  next => simp
  next =>
    rw [if_pos (succeeds _)]
    simp

/-- Unless it fails, nothing is left under the path. -/
theorem unlink_of_not_failed {path : Path} (answered : (unlink sys files path).2 ≠ .failed) :
    (unlink sys files path).1 = Function.update files path none := by
  unfold unlink at answered ⊢
  split
  next absent =>
    show files = Function.update files path none
    rw [← absent, Function.update_eq_self]
  next node present =>
    split
    next => rfl
    next denied => simp [present, denied] at answered

theorem unlink_done_iff (succeeds : sys.Succeeds) (files : Files) (path : Path) :
    (unlink sys files path).2 = if (files path).isSome then .done else .absent := by
  unfold unlink
  split
  next absent => simp [absent]
  next node present => simp [present, succeeds _]

theorem packagesOf_unlink_tmp (name : TmpName) :
    packagesOf (unlink sys files (.tmp name)).1 = packagesOf files := by
  rcases unlink_files sys files (.tmp name) with same | removed
  · rw [same]
  · rw [removed, packagesOf_update_tmp]

theorem blobsOf_unlink_tmp (name : TmpName) :
    blobsOf (unlink sys files (.tmp name)).1 = blobsOf files := by
  rcases unlink_files sys files (.tmp name) with same | removed
  · rw [same]
  · rw [removed, blobsOf_update_tmp]

theorem tmpOf_unlink_tmp {name other : TmpName} (different : other ≠ name) :
    tmpOf (unlink sys files (.tmp name)).1 other = tmpOf files other := by
  rcases unlink_files sys files (.tmp name) with same | removed
  · rw [same]
  · rw [removed, tmpOf_update_tmp, Function.update_of_ne different]

theorem blobsOf_unlink_packages (name : Bytes) :
    blobsOf (unlink sys files (.packages name)).1 = blobsOf files := by
  rcases unlink_files sys files (.packages name) with same | removed
  · rw [same]
  · rw [removed, blobsOf_update_packages]

theorem tmpOf_unlink_packages (name : Bytes) :
    tmpOf (unlink sys files (.packages name)).1 = tmpOf files := by
  rcases unlink_files sys files (.packages name) with same | removed
  · rw [same]
  · rw [removed, tmpOf_update_packages]

/-- Names of a directory are only removed. -/
def Shrinks {κ : Type} (before after : κ → Option Node) : Prop :=
  ∀ name, after name = before name ∨ after name = none

theorem Shrinks.refl {κ : Type} (entries : κ → Option Node) : Shrinks entries entries :=
  fun _ => Or.inl rfl

theorem Shrinks.trans {κ : Type} {first second third : κ → Option Node}
    (left : Shrinks first second) (right : Shrinks second third) : Shrinks first third := by
  intro name
  rcases right name with same | removed
  · rw [same]
    exact left name
  · exact Or.inr removed

theorem shrinks_update_none {κ : Type} [DecidableEq κ] (entries : κ → Option Node) (name : κ) :
    Shrinks entries (Function.update entries name none) := by
  intro other
  by_cases same : other = name
  · rw [same, Function.update_self]
    exact Or.inr rfl
  · rw [Function.update_of_ne same]
    exact Or.inl rfl

theorem shrinks_unlink_packages (name : Bytes) :
    Shrinks (packagesOf files) (packagesOf (unlink sys files (.packages name)).1) := by
  rcases unlink_files sys files (.packages name) with same | removed
  · rw [same]
    exact Shrinks.refl _
  · rw [removed, packagesOf_update_packages]
    exact shrinks_update_none _ _

theorem rename_eq_some {source target : Path} {after : Files}
    (renamed : rename sys files source target = some after) :
    ∃ node, files source = some node ∧
      after = Function.update (Function.update files source none) target (some node) := by
  unfold rename at renamed
  split at renamed
  next => contradiction
  next node present =>
    split at renamed
    next => exact ⟨node, present, (Option.some.inj renamed).symm⟩
    next => contradiction

theorem rename_of_present {source target : Path} {node : Node}
    (present : files source = some node) (allowed : sys.allows (.rename source target) = true) :
    rename sys files source target =
      some (Function.update (Function.update files source none) target (some node)) := by
  simp [rename, present, allowed]

theorem symlink_eq_some {target : Bytes} {path : Path} {after : Files}
    (linked : symlink sys files target path = some after) :
    files path = none ∧ after = Function.update files path (some (.symlink target)) := by
  unfold symlink at linked
  split at linked
  next => contradiction
  next absent =>
    split at linked
    next => exact ⟨absent, (Option.some.inj linked).symm⟩
    next => contradiction

theorem symlink_of_absent {target : Bytes} {path : Path} (absent : files path = none)
    (allowed : sys.allows (.symlink path) = true) :
    symlink sys files target path =
      some (Function.update files path (some (.symlink target))) := by
  simp [symlink, absent, allowed]

theorem create_eq_some {path : Path} {after : Files}
    (created : create sys files path = some after) :
    after = Function.update files path (some (.regular [])) := by
  unfold create at created
  split at created
  next => exact (Option.some.inj created).symm
  next => contradiction

theorem append_eq_some {path : Path} {bytes : Bytes} {after : Files}
    (appended : append sys files path bytes = some after) :
    ∃ content, files path = some (.regular content) ∧
      after = Function.update files path (some (.regular (content ++ bytes))) := by
  unfold append at appended
  split at appended
  next content present =>
    split at appended
    next => exact ⟨content, present, (Option.some.inj appended).symm⟩
    next => contradiction
  next => contradiction

theorem stat_of_regular {path : Path} {content : Bytes}
    (present : files path = some (.regular content)) : stat files path = some content := by
  simp [stat, follow, present]

theorem stat_of_absent {path : Path} (absent : files path = none) : stat files path = none := by
  simp [stat, follow, absent]

end Outcomes

end CixCache
