import CixCache.Process.Calls

/-!
Contract: the reactor and an import child on one tree, one system call at a time.

Owns: `World`, the state both processes act on; the calls of each (`reactorStep`,
`importerStep`) and `worldStep`, which lets either of them take its next call;
what `readdir` promises of a directory that changes while it is read.

The import child is forked from the reactor and exits by itself. Its counters
and messages are not kept: nothing on the tree depends on them.

Does not own: connections; an upload enters when its bytes are hashed.
-/

namespace CixCache

open CixCache.Lib

/-- A directory stream on packages/: the names there were when it was opened,
the names it has returned, and the names the other process has unlinked or
renamed since. Only `Lists` and `Calm` read these. -/
structure DirStream where
  opened : Bytes → Bool
  returned : List Bytes
  touched : List Bytes

def DirStream.touch (stream : DirStream) : Option Path → DirStream
  | some (.packages name) => { stream with touched := name :: stream.touched }
  | _ => stream

/-- What the reactor is in the middle of. -/
inductive Task where
  | idle
  | checking (job : Job) (pc : ResolvePc)
  | dropping (path : Path)
  | publishing (job : Job) (stage : Stage)
  | unsigning (sigPath path : Path)
  | withdrawing (path : Path)
  | walking (dryRun : Bool) (live : SlotSet) (stream : DirStream)
  | sweeping (dryRun : Bool) (live : List Bytes) (stream : DirStream)

/-- Where the import child stands in a turn of its `readdir` loop. -/
inductive ImportPc where
  | readdir
  | lstat (name : Bytes)
  | hash (name : Bytes) (path : Path)
  | adopting (job : Job) (stage : Stage)
deriving DecidableEq

structure ImportChild where
  pid : Nat
  tmpCounter : Nat
  manifest : Option JsonValue
  pc : ImportPc

structure World where
  root : Root
  files : Files
  pid : Nat
  tmpCounter : Nat
  task : Task
  child : Option ImportChild

/-- An idle reactor, and no import. -/
def World.start (st : Store) : World := ⟨st.root, st.files, st.pid, st.tmpCounter, .idle, none⟩

/-- The store as the reactor has it. -/
def World.store (world : World) : Store :=
  ⟨world.root, world.pid, world.tmpCounter, world.files⟩

/-- The store as the import child has it. -/
def World.childStore (world : World) (child : ImportChild) : Store :=
  ⟨world.root, child.pid, child.tmpCounter, world.files⟩

/-! ## Calls of the reactor -/

/-- One entry of the walk of `store_gc`. -/
def walkStep (sys : Sys) (st : Store) (live : SlotSet) (name : Bytes) : Option SlotSet :=
  if name.head? = some dot then some live
  else if storeNameIsValid name = false then some live
  else
    match rawEntryPath st.root name with
    | none => some live
    | some path =>
        match resolvePath st.files path with
        | .error _ => some live
        | .ok digest =>
            collectLive sys live name digest (storeBlobExists st digest) (sys.mtime path)

/-- One name of the sweep of `store_gc`. -/
def sweepStep (sys : Sys) (dryRun : Bool) (live : List Bytes) (st : Store) (name : Bytes) :
    Store :=
  if storeDigestIsValid name = false then st
  else if live.length ≠ 0 ∧ (bsearch strcmp live name).isSome then st
  else
    match blobPath st.root name with
    | none => st
    | some path => if dryRun then st else st.withFiles (unlink sys st.files path).1

/-- The reactor's next call; `entry` is what it yields if it is a `readdir`. -/
def reactorStep (sys : Sys) (st : Store) (entry : Option Bytes) : Task → Store × Task
  | .idle => (st, .idle)
  | .checking job pc =>
      match resolveStep st job.name pc with
      | .inl next => (st, .checking job next)
      | .inr (.ok existing) =>
          (st, if existing = job.digest then .publishing job .access else .dropping job.source)
      | .inr (.error .notFound) => (st, .publishing job .access)
      | .inr (.error _) => (st, .dropping job.source)
  | .dropping path => (st.withFiles (unlink sys st.files path).1, .idle)
  | .publishing job stage =>
      match publishStep sys st job stage with
      | (after, .inl next) => (after, .publishing job next)
      | (after, .inr _) => (after, .idle)
  | .unsigning sigPath path =>
      match unlink sys st.files sigPath with
      | (files, .failed) => (st.withFiles files, .idle)
      | (files, _) => (st.withFiles files, .withdrawing path)
  | .withdrawing path => (st.withFiles (unlink sys st.files path).1, .idle)
  | .walking dryRun live stream =>
      match entry with
      | none => (st, .sweeping dryRun (liveIndex live.slots) stream)
      | some name =>
          match walkStep sys st live name with
          | none => (st, .idle)
          | some live =>
              (st, .walking dryRun live { stream with returned := name :: stream.returned })
  | .sweeping dryRun live stream =>
      match entry with
      | none => (st, .idle)
      | some name => (sweepStep sys dryRun live st name, .sweeping dryRun live stream)

/-! ## Calls of the import child -/

/-- The import child's next call, and where it stands then; `none` when it has
come to the end of packages/ and exits. -/
def importerStep (sha : Sha256sum) (sys : Sys) (st : Store) (manifest : Option JsonValue)
    (entry : Option Bytes) : ImportPc → Store × Option ImportPc
  | .readdir => (st, entry.map .lstat)
  | .lstat name =>
      if name.head? = some dot then (st, some .readdir)
      else if storeNameIsValid name = false then (st, some .readdir)
      else
        match rawEntryPath st.root name with
        | none => (st, some .readdir)
        | some path =>
            match st.files path with
            | none => (st, some .readdir)
            | some (.symlink _) => (st, some .readdir)
            | some (.regular _) => (st, some (.hash name path))
  | .hash name path =>
      match storeHashFile sha sys st path with
      | none => (st, some .readdir)
      | some digest =>
          if manifestDisagrees manifest (ascii "packages/" ++ name) digest then
            (st, some .readdir)
          else (st, some (.adopting ⟨path, name, digest⟩ .access))
  | .adopting job stage =>
      match publishStep sys st job stage with
      | (after, .inl next) => (after, some (.adopting job next))
      | (after, .inr _) => (after, some .readdir)

/-- The path the child's next call may unlink, rename or link. -/
def ImportPc.touches : ImportPc → Option Path
  | .adopting job .discard => some job.source
  | .adopting job .adopt => some job.source
  | .adopting _ (.publish linkPath _) => some linkPath
  | _ => none

/-! ## Both processes -/

/-- What happens next: a complete upload, a DELETE or a collection reaches an
idle reactor, an import is started, or one of the processes takes its next call. -/
inductive Turn where
  | put (name content : Bytes)
  | delete (name : Bytes)
  | collect (dryRun : Bool)
  | importStart (pid : Nat) (manifest : Option JsonValue)
  | reactor (entry : Option Bytes)
  | importer (entry : Option Bytes)

def Task.touch (task : Task) (path : Option Path) : Task :=
  match task with
  | .walking dryRun live stream => .walking dryRun live (stream.touch path)
  | .sweeping dryRun live stream => .sweeping dryRun live (stream.touch path)
  | other => other

/-- The staged file of a PUT whose declared digest its bytes have. -/
def World.put (sha : Sha256sum) (world : World) (name content : Bytes) : World :=
  let path := Path.tmp (.up world.pid world.tmpCounter)
  { world with
    files := Function.update world.files path (some (.regular content))
    tmpCounter := world.tmpCounter + 1
    task := .checking ⟨path, name, sha.digest content⟩ .start }

/-- The path work of `store_unpublish`. -/
def World.delete (world : World) (name : Bytes) : World :=
  if storeNameIsValid name = false then world
  else
    match entryPath world.root name with
    | none => world
    | some path =>
        match signaturePath world.root name with
        | none => { world with task := .withdrawing path }
        | some sigPath => { world with task := .unsigning sigPath path }

/-- A request that finds the reactor busy waits: the turn changes nothing. -/
def worldStep (sha : Sha256sum) (world : World) (event : Sys × Turn) : World :=
  match event.2 with
  | .put name content =>
      match world.task with
      | .idle => world.put sha name content
      | _ => world
  | .delete name =>
      match world.task with
      | .idle => world.delete name
      | _ => world
  | .collect dryRun =>
      match world.task with
      | .idle =>
          { world with
            task := .walking dryRun .empty
              ⟨fun name => (packagesOf world.files name).isSome, [], []⟩ }
      | _ => world
  | .importStart pid manifest =>
      match world.task, world.child with
      | .idle, none =>
          -- A child never has its parent's pid.
          if pid = world.pid then world
          else { world with child := some ⟨pid, world.tmpCounter, manifest, .readdir⟩ }
      | _, _ => world
  | .reactor entry =>
      let (after, task) := reactorStep event.1 world.store entry world.task
      { world with files := after.files, tmpCounter := after.tmpCounter, task := task }
  | .importer entry =>
      match world.child with
      | none => world
      | some child =>
          let (after, pc) := importerStep sha event.1 (world.childStore child) child.manifest entry
            child.pc
          { world with
            files := after.files
            task := world.task.touch child.pc.touches
            child := pc.map fun pc => { child with tmpCounter := after.tmpCounter, pc := pc } }

/-- `readdir` returns every name that was there when the directory was opened
and has been neither removed nor added since, before it says there are no more. -/
def Lists (world : World) (event : Sys × Turn) : Prop :=
  ∀ dryRun live stream, world.task = .walking dryRun live stream → event.2 = .reactor none →
    ∀ name, stream.opened name = true → name ∈ stream.returned ∨ name ∈ stream.touched

end CixCache
