import CixCache.Process.Entry
import CixCache.Process.Race

/-!
Contract: no publish replaces what the other process has published, whatever
the order of calls, unless one of two races happens.

Owns: `Exclusive`, the steps at which neither race happens; what an exclusive run
keeps of an entry, and of the successes it reports for one name; and a run on
which the import child replaces an entry the reactor has published.

Does not own: the calls (`Process.Calls`, `Process.World`), or what one job
relies on (`Process.Entry`).
-/

namespace CixCache

open CixCache.Lib

/-! ## Who is publishing what -/

inductive Proc where
  | reactor
  | importer
deriving DecidableEq

def Proc.other : Proc → Proc
  | .reactor => .importer
  | .importer => .reactor

def Turn.proc : Turn → Option Proc
  | .reactor _ => some .reactor
  | .importer _ => some .importer
  | _ => none

def Task.job : Task → Option (Job × Stage)
  | .publishing job stage => some (job, stage)
  | _ => none

def ImportPc.job : ImportPc → Option (Job × Stage)
  | .adopting job stage => some (job, stage)
  | _ => none

/-- The publish a process is in the middle of. -/
def World.working (world : World) : Proc → Option (Job × Stage)
  | .reactor => world.task.job
  | .importer => world.child.bind fun child => child.pc.job

/-- The store as a process has it. -/
def World.storeOf (world : World) : Proc → Store
  | .reactor => world.store
  | .importer =>
      match world.child with
      | some child => world.childStore child
      | none => world.store

def World.claim (world : World) (proc : Proc) : Option (Bytes × Bytes) :=
  (world.working proc).bind fun work => work.1.claim work.2

def World.settles (world : World) (proc : Proc) : Option (Bytes × Bytes) :=
  (world.working proc).bind fun work => work.1.settles work.2

/-- The canonical name and the digest of a publish that reports success at this step. -/
def World.reports (world : World) (event : Sys × Turn) : Option (Bytes × Bytes) :=
  match event.2.proc with
  | none => none
  | some proc =>
      match world.working proc with
      | none => none
      | some (job, stage) =>
          match (publishStep event.1 (world.storeOf proc) job stage).2 with
          | .inr (.ok ()) => (canonicalForm job.name).map fun name => (name, job.digest)
          | _ => none

/-- The entry that `store_unpublish` unlinks at this step, as the one it was asked
for or as its signature. -/
def World.withdraws (world : World) (event : Sys × Turn) : Option Bytes :=
  match event.2, world.task with
  | .reactor _, .unsigning (.packages name) _ => some name
  | .reactor _, .withdrawing (.packages name) => some name
  | _, _ => none

/-! ## Steps without a race -/

/-- The same entry with two digests. -/
def conflicting : Option (Bytes × Bytes) → Option (Bytes × Bytes) → Bool
  | some (name, digest), some (other, found) => name == other && digest != found
  | _, _ => false

/-- The child's next call unlinks or renames an entry: the file it hashed has been
deleted and its name published again meanwhile. -/
def World.takesLink (world : World) : Bool :=
  match world.working .importer with
  | some (job, stage) =>
      (decide (stage = .discard) || decide (stage = .adopt)) &&
        match world.files job.source with
        | some (.symlink _) => true
        | _ => false
  | none => false

/-- Neither race happens at this step: a process does not create an entry, or
answer for it, between the other one's look at that entry and its rename of a
link with another digest; and the import child takes no entry away. -/
def Exclusive (world : World) (event : Sys × Turn) : Prop :=
  match event.2 with
  | .reactor _ => conflicting (world.settles .reactor) (world.claim .importer) = false
  | .importer _ =>
      conflicting (world.settles .importer) (world.claim .reactor) = false ∧
        world.takesLink = false
  | _ => True

instance (world : World) : (event : Sys × Turn) → Decidable (Exclusive world event)
  | (_, .reactor _) =>
      inferInstanceAs (Decidable (conflicting (world.settles .reactor) (world.claim .importer) = false))
  | (_, .importer _) =>
      inferInstanceAs (Decidable (
        conflicting (world.settles .importer) (world.claim .reactor) = false ∧
          world.takesLink = false))
  | (_, .put _ _) | (_, .delete _) | (_, .collect _) | (_, .importStart _ _) =>
      inferInstanceAs (Decidable True)

/-! ## What holds between two calls -/

/-- What the reactor unlinks or renames away is a staged upload, or is named by a
DELETE. -/
def TaskHeld : Task → Prop
  | .checking job _ =>
      storeDigestIsValid job.digest = true ∧ ∃ pid counter, job.source = .tmp (.up pid counter)
  | .publishing job _ => ∃ pid counter, job.source = .tmp (.up pid counter)
  | .dropping path => ∃ pid counter, path = .tmp (.up pid counter)
  | .unsigning sigPath path => EntryLink sigPath ∧ EntryLink path
  | .withdrawing path => EntryLink path
  | _ => True

/-- What the import child unlinks or renames away is a name of packages/. -/
def ImportPc.Held : ImportPc → Prop
  | .hash _ path => ∃ entry, path = .packages entry
  | .adopting job _ => ∃ entry, job.source = .packages entry
  | _ => True

structure World.Held (world : World) : Prop where
  pids : ∀ child, world.child = some child → child.pid ≠ world.pid
  reacting : TaskHeld world.task
  importing : ∀ child, world.child = some child → child.pc.Held
  working : ∀ proc job stage, world.working proc = some (job, stage) →
    storeDigestIsValid job.digest = true ∧
      EntrySound world.files (world.storeOf proc).pid job stage

theorem World.held_start (st : Store) : (World.start st).Held where
  pids := by
    intro child present
    contradiction
  reacting := trivial
  importing := by
    intro child present
    contradiction
  working := by
    intro proc job stage working
    cases proc <;> contradiction

/-- No job, or one that has yet to make its first call. -/
def NotBegun (work : Option (Job × Stage)) : Prop :=
  ∀ job stage, work = some (job, stage) → stage = .access ∧ storeDigestIsValid job.digest = true

theorem notBegun_none : NotBegun none := by
  intro job stage working
  contradiction

/-- What one step does: a process makes the next call of its publish, or nothing
is linked, at most the entry a DELETE names goes, and a publish may be begun or
given up. -/
inductive TurnEffect (world : World) (event : Sys × Turn) (after : World) : Prop
  | call (proc : Proc) (job : Job) (stage : Stage) (taken : event.2.proc = some proc)
      (working : world.working proc = some (job, stage))
      (files : after.files = (publishStep event.1 (world.storeOf proc) job stage).1.files)
      (next : after.working proc =
        (publishStep event.1 (world.storeOf proc) job stage).2.getLeft?.map (Prod.mk job))
      (others : after.working proc.other = world.working proc.other)
      (pids : ∀ proc, (after.storeOf proc).pid = (world.storeOf proc).pid)
  | quiet (silent : world.reports event = none)
      (packages : ∀ name, packagesOf after.files name = packagesOf world.files name ∨
        packagesOf after.files name = none ∧ world.withdraws event = some name)
      (links : ∀ pid counter,
        tmpOf after.files (.pub pid counter) = tmpOf world.files (.pub pid counter))
      (working : ∀ proc, NotBegun (after.working proc) ∨
        after.working proc = world.working proc ∧
          (after.storeOf proc).pid = (world.storeOf proc).pid)

section Steps

variable {sha : Sha256sum} {sys : Sys} {st : Store} {world after : World} {event : Sys × Turn}
  {entry : Option Bytes} {task : Task} {manifest : Option JsonValue} {pc : ImportPc}

theorem reactorStep_held (sys : Sys) (st : Store) (entry : Option Bytes) (held : TaskHeld task) :
    TaskHeld (reactorStep sys st entry task).2 := by
  cases task with
  | idle => trivial
  | checking job resolving =>
      rw [reactorStep]
      split
      next => exact held
      next =>
        dsimp only
        split
        next => exact held.2
        next => exact held.2
      next => exact held.2
      next => exact held.2
  | dropping path => trivial
  | publishing job stage =>
      rw [reactorStep]
      split
      next => exact held
      next => trivial
  | unsigning sigPath path =>
      rw [reactorStep]
      split
      next => trivial
      next => exact held.2
  | withdrawing path => trivial
  | walking dryRun live stream =>
      cases entry with
      | none => trivial
      | some name =>
          rw [reactorStep]
          split <;> trivial
  | sweeping dryRun live stream => cases entry <;> trivial

theorem importerStep_held (sha : Sha256sum) (sys : Sys) (st : Store)
    (manifest : Option JsonValue) (entry : Option Bytes) (held : pc.Held) {next : ImportPc}
    (stepped : (importerStep sha sys st manifest entry pc).2 = some next) : next.Held := by
  cases pc with
  | readdir =>
      obtain ⟨name, _, rfl⟩ := Option.map_eq_some_iff.mp stepped
      trivial
  | lstat name =>
      rw [importerStep] at stepped
      split at stepped
      next => obtain rfl := Option.some.inj stepped; trivial
      next =>
        split at stepped
        next => obtain rfl := Option.some.inj stepped; trivial
        next =>
          split at stepped
          next => obtain rfl := Option.some.inj stepped; trivial
          next path located =>
            split at stepped
            next => obtain rfl := Option.some.inj stepped; trivial
            next => obtain rfl := Option.some.inj stepped; trivial
            next =>
              obtain rfl := Option.some.inj stepped
              exact ⟨name, rawEntryPath_eq_some located⟩
  | hash name path =>
      rw [importerStep] at stepped
      repeat' split at stepped
      all_goals obtain rfl := Option.some.inj stepped
      · trivial
      · trivial
      · exact held
  | adopting job stage =>
      rw [importerStep] at stepped
      split at stepped
      next =>
        obtain rfl := Option.some.inj stepped
        exact held
      next =>
        obtain rfl := Option.some.inj stepped
        trivial

/-- Outside a publish the reactor links nothing and at most removes an entry that
a DELETE names. -/
structure ReactorQuiet (st : Store) (task : Task) (out : Store × Task) : Prop where
  packages : ∀ name, packagesOf out.1.files name = packagesOf st.files name ∨
    packagesOf out.1.files name = none ∧
      ((∃ path, task = .unsigning (.packages name) path) ∨ task = .withdrawing (.packages name))
  links : ∀ pid counter, tmpOf out.1.files (.pub pid counter) = tmpOf st.files (.pub pid counter)
  job : NotBegun out.2.job

theorem reactorQuiet_same {next : Task} (job : NotBegun next.job) :
    ReactorQuiet st task (st, next) where
  packages := fun _ => Or.inl rfl
  links := fun _ _ => rfl
  job := job

/-- The reactor removes a name that is not a link of packages/ or tmp/. -/
theorem reactorQuiet_unlink {path : Path} {next : Task}
    (outside : ∀ name, path ≠ .packages name) (own : ∀ pid counter, path ≠ .tmp (.pub pid counter))
    (job : NotBegun next.job) :
    ReactorQuiet st task (st.withFiles (unlink sys st.files path).1, next) := by
  refine ⟨fun name => Or.inl ?_, fun pid counter => ?_, job⟩
  · rw [Store.withFiles_files]
    rcases unlink_files sys st.files path with same | gone
    · rw [same]
    · rw [gone]
      exact Function.update_of_ne (outside name).symm _ _
  · rw [Store.withFiles_files]
    rcases unlink_files sys st.files path with same | gone
    · rw [same]
    · rw [gone]
      exact Function.update_of_ne (own pid counter).symm _ _

/-- The reactor removes an entry. -/
theorem reactorQuiet_withdraw {entry : Bytes} {next : Task}
    (named : (∃ path, task = .unsigning (.packages entry) path) ∨
      task = .withdrawing (.packages entry)) (job : NotBegun next.job) :
    ReactorQuiet st task (st.withFiles (unlink sys st.files (.packages entry)).1, next) := by
  refine ⟨fun name => ?_, fun pid counter => ?_, job⟩
  · rw [Store.withFiles_files]
    rcases unlink_files sys st.files (.packages entry) with same | gone
    · rw [same]
      exact Or.inl rfl
    · rw [gone, packagesOf_update_packages]
      by_cases here : name = entry
      · rw [here, Function.update_self]
        exact Or.inr ⟨rfl, named⟩
      · rw [Function.update_of_ne here]
        exact Or.inl rfl
  · exact congrFun (tmpOf_unlink_packages entry) _

theorem reactorStep_quietly (sys : Sys) (st : Store) (entry : Option Bytes) (held : TaskHeld task)
    (idle : task.job = none) : ReactorQuiet st task (reactorStep sys st entry task) := by
  have begun : ∀ job, storeDigestIsValid job.digest = true →
      NotBegun (Task.publishing job .access).job := by
    intro job valid later stage same
    obtain ⟨rfl, rfl⟩ := Prod.mk.inj (Option.some.inj same)
    exact ⟨rfl, valid⟩
  cases task with
  | idle => exact reactorQuiet_same notBegun_none
  | checking job resolving =>
      rw [reactorStep]
      split
      next => exact reactorQuiet_same notBegun_none
      next =>
        apply reactorQuiet_same
        split
        next => exact begun job held.1
        next => exact notBegun_none
      next => exact reactorQuiet_same (begun job held.1)
      next => exact reactorQuiet_same notBegun_none
  | dropping path =>
      obtain ⟨owner, counter, rfl⟩ := held
      exact reactorQuiet_unlink (by simp) (by simp) notBegun_none
  | publishing job stage => contradiction
  | unsigning sigPath path =>
      obtain ⟨⟨sig, rfl, _⟩, _⟩ := held
      have step : ∀ next : Task, NotBegun next.job →
          ReactorQuiet st (.unsigning (.packages sig) path)
            (st.withFiles (unlink sys st.files (.packages sig)).1, next) :=
        fun next job => reactorQuiet_withdraw (Or.inl ⟨path, rfl⟩) job
      rw [reactorStep]
      split
      next files removed =>
        rw [removed] at step
        exact step .idle notBegun_none
      next files result _ removed =>
        rw [removed] at step
        exact step (.withdrawing path) notBegun_none
  | withdrawing path =>
      obtain ⟨canonical, rfl, _⟩ := held
      exact reactorQuiet_withdraw (Or.inr rfl) notBegun_none
  | walking dryRun live stream =>
      cases entry with
      | none => exact reactorQuiet_same notBegun_none
      | some name =>
          rw [reactorStep]
          split
          next => exact reactorQuiet_same notBegun_none
          next => exact reactorQuiet_same notBegun_none
  | sweeping dryRun live stream =>
      cases entry with
      | none => exact reactorQuiet_same notBegun_none
      | some name =>
          have swept : sweepStep sys dryRun live st name = st ∨
              sweepStep sys dryRun live st name =
                st.withFiles (unlink sys st.files (.blobs name)).1 := by
            unfold sweepStep
            repeat' split
            all_goals first
              | exact Or.inl rfl
              | skip
            next located _ =>
              obtain rfl := blobPath_eq_some located
              exact Or.inr rfl
          rw [reactorStep]
          rcases swept with same | gone
          · rw [same]
            exact reactorQuiet_same notBegun_none
          · rw [gone]
            exact reactorQuiet_unlink (by simp) (by simp) notBegun_none

theorem importerStep_quietly (sha : Sha256sum) (sys : Sys) (st : Store)
    (manifest : Option JsonValue) (entry : Option Bytes) (idle : pc.job = none) :
    (importerStep sha sys st manifest entry pc).1 = st ∧
      NotBegun ((importerStep sha sys st manifest entry pc).2.bind ImportPc.job) := by
  have loop : NotBegun ((some ImportPc.readdir).bind ImportPc.job) := notBegun_none
  cases pc with
  | readdir =>
      cases entry with
      | none => exact ⟨rfl, notBegun_none⟩
      | some name => exact ⟨rfl, notBegun_none⟩
  | lstat name =>
      rw [importerStep]
      repeat' split
      all_goals exact ⟨rfl, notBegun_none⟩
  | hash name path =>
      rw [importerStep]
      split
      next => exact ⟨rfl, loop⟩
      next digest hashed =>
        split
        next => exact ⟨rfl, loop⟩
        next =>
          refine ⟨rfl, ?_⟩
          intro job stage same
          obtain ⟨rfl, rfl⟩ := Prod.mk.inj (Option.some.inj same)
          exact ⟨rfl, (storeHashFile_some hashed).1⟩
  | adopting job stage => contradiction

theorem Task.job_eq_some {job : Job} {stage : Stage} (working : task.job = some (job, stage)) :
    task = .publishing job stage := by
  cases task with
  | publishing other later =>
      obtain ⟨rfl, rfl⟩ := Prod.mk.inj (Option.some.inj working)
      rfl
  | _ => contradiction

theorem ImportPc.job_eq_some {job : Job} {stage : Stage} (working : pc.job = some (job, stage)) :
    pc = .adopting job stage := by
  cases pc with
  | adopting other later =>
      obtain ⟨rfl, rfl⟩ := Prod.mk.inj (Option.some.inj working)
      rfl
  | _ => contradiction

theorem reactorStep_publishing (sys : Sys) (st : Store) (entry : Option Bytes) (job : Job)
    (stage : Stage) :
    (reactorStep sys st entry (.publishing job stage)).1 = (publishStep sys st job stage).1 ∧
      (reactorStep sys st entry (.publishing job stage)).2.job =
        (publishStep sys st job stage).2.getLeft?.map (Prod.mk job) := by
  rw [reactorStep]
  split
  next after next stepped =>
    rw [stepped]
    exact ⟨rfl, rfl⟩
  next after result stepped =>
    rw [stepped]
    exact ⟨rfl, rfl⟩

theorem importerStep_adopting (sha : Sha256sum) (sys : Sys) (st : Store)
    (manifest : Option JsonValue) (entry : Option Bytes) (job : Job) (stage : Stage) :
    (importerStep sha sys st manifest entry (.adopting job stage)).1 =
        (publishStep sys st job stage).1 ∧
      ∃ next, (importerStep sha sys st manifest entry (.adopting job stage)).2 = some next ∧
        next.job = (publishStep sys st job stage).2.getLeft?.map (Prod.mk job) := by
  rw [importerStep]
  split
  next after next stepped =>
    rw [stepped]
    exact ⟨rfl, _, rfl, rfl⟩
  next after result stepped =>
    rw [stepped]
    exact ⟨rfl, _, rfl, rfl⟩

theorem World.reports_quiet {proc : Proc} (taken : event.2.proc = some proc)
    (idle : world.working proc = none) : world.reports event = none := by
  simp [World.reports, taken, idle]

/-- The pid of the child, or of the reactor when there is none. -/
theorem World.storeOf_importer_pid (world : World) :
    (world.storeOf .importer).pid = (world.child.map ImportChild.pid).getD world.pid := by
  unfold World.storeOf
  cases world.child <;> rfl

section Turns

variable {sys : Sys} {turn : Turn}

/-- A request that finds the reactor busy changes nothing. -/
theorem turnEffect_still (silent : turn.proc = none) : TurnEffect world (sys, turn) world :=
  .quiet (by simp [World.reports, silent]) (fun _ => Or.inl rfl) (fun _ _ => rfl)
    fun _ => Or.inr ⟨rfl, rfl⟩

/-- A request gives the reactor a task that publishes nothing yet. -/
theorem turnEffect_tasked {task : Task} (silent : turn.proc = none)
    (unpublished : NotBegun task.job) :
    TurnEffect world (sys, turn) { world with task := task } := by
  refine .quiet (by simp [World.reports, silent]) (fun _ => Or.inl rfl) (fun _ _ => rfl) ?_
  intro proc
  cases proc with
  | reactor => exact Or.inl unpublished
  | importer => exact Or.inr ⟨rfl, rfl⟩

theorem turnEffect_put (sha : Sha256sum) (silent : turn.proc = none) (name content : Bytes) :
    TurnEffect world (sys, turn) (world.put sha name content) := by
  refine .quiet (by simp [World.reports, silent]) (fun entry => Or.inl ?_)
    (fun pid counter => ?_) ?_
  · rw [World.put, packagesOf_update_tmp]
  · rw [World.put, tmpOf_update_tmp, Function.update_of_ne (by simp)]
  · intro proc
    cases proc with
    | reactor => exact Or.inl notBegun_none
    | importer =>
        refine Or.inr ⟨rfl, ?_⟩
        show (World.storeOf (world.put sha name content) .importer).pid = _
        unfold World.put World.storeOf
        dsimp only
        split <;> rfl

theorem turnEffect_delete (silent : turn.proc = none) (name : Bytes) :
    TurnEffect world (sys, turn) (world.delete name) := by
  unfold World.delete
  split
  next => exact turnEffect_still silent
  next =>
    split
    next => exact turnEffect_still silent
    next path located =>
      split
      next => exact turnEffect_tasked silent notBegun_none
      next => exact turnEffect_tasked silent notBegun_none

/-- The forked child has begun nothing. -/
theorem turnEffect_forked (silent : turn.proc = none) (pid : Nat) (manifest : Option JsonValue) :
    TurnEffect world (sys, turn)
      { world with child := some ⟨pid, world.tmpCounter, manifest, .readdir⟩ } := by
  refine .quiet (by simp [World.reports, silent]) (fun _ => Or.inl rfl) (fun _ _ => rfl) ?_
  intro proc
  cases proc with
  | reactor => exact Or.inr ⟨rfl, rfl⟩
  | importer => exact Or.inl notBegun_none

/-- A call of the reactor, which publishes or does not. -/
theorem turnEffect_reactor (sha : Sha256sum) (sys : Sys) (held : world.Held)
    (entry : Option Bytes) :
    TurnEffect world (sys, .reactor entry) (worldStep sha world (sys, .reactor entry)) := by
  cases working : world.task.job with
  | some work =>
      obtain ⟨job, stage⟩ := work
      have task := Task.job_eq_some working
      obtain ⟨files, next⟩ := reactorStep_publishing sys world.store entry job stage
      rw [← task] at files next
      refine .call .reactor job stage rfl working (congrArg Store.files files) next rfl ?_
      intro proc
      cases proc with
      | reactor => rfl
      | importer => simp only [World.storeOf_importer_pid, worldStep]
  | none =>
      have quiet := reactorStep_quietly sys world.store entry held.reacting working
      refine .quiet (world.reports_quiet rfl working) ?_ quiet.links ?_
      · intro name
        refine (quiet.packages name).imp_right ?_
        rintro ⟨gone, ⟨path, named⟩ | named⟩
        · exact ⟨gone, by simp [World.withdraws, named]⟩
        · exact ⟨gone, by simp [World.withdraws, named]⟩
      · intro proc
        cases proc with
        | reactor => exact Or.inl quiet.job
        | importer => exact Or.inr ⟨rfl, by simp only [World.storeOf_importer_pid, worldStep]⟩

/-- A call of the importer, which publishes or does not. -/
theorem turnEffect_importer (sha : Sha256sum) (sys : Sys) (entry : Option Bytes)
    {child : ImportChild} (present : world.child = some child) :
    TurnEffect world (sys, .importer entry) (worldStep sha world (sys, .importer entry)) := by
  have stepped : worldStep sha world (sys, .importer entry) =
      { world with
        files := (importerStep sha sys (world.childStore child) child.manifest entry
          child.pc).1.files
        task := world.task.touch child.pc.touches
        child := (importerStep sha sys (world.childStore child) child.manifest entry
          child.pc).2.map fun pc =>
            { child with
              tmpCounter := (importerStep sha sys (world.childStore child) child.manifest
                entry child.pc).1.tmpCounter
              pc := pc } } := by
    simp only [worldStep, present]
  have touched : (world.task.touch child.pc.touches).job = world.task.job := by
    cases world.task <;> rfl
  have own : world.storeOf .importer = world.childStore child := by
    simp [World.storeOf, present]
  rw [stepped]
  cases working : child.pc.job with
  | some work =>
      obtain ⟨job, stage⟩ := work
      have pc := ImportPc.job_eq_some working
      obtain ⟨files, next, following, rest⟩ := importerStep_adopting sha sys
        (world.childStore child) child.manifest entry job stage
      rw [← pc] at files following
      refine .call .importer job stage rfl ?_ ?_ ?_ touched ?_
      · simp [World.working, present, working]
      · rw [own]
        exact congrArg Store.files files
      · rw [own, ← rest]
        simp [World.working, following]
      · intro proc
        cases proc with
        | reactor => rfl
        | importer =>
            simp only [World.storeOf_importer_pid, following, present]
            rfl
  | none =>
      obtain ⟨files, next⟩ := importerStep_quietly sha sys (world.childStore child)
        child.manifest entry working
      refine .quiet ?_ ?_ ?_ ?_
      · exact world.reports_quiet rfl (by simp [World.working, present, working])
      · intro name
        left
        rw [files]
        rfl
      · intro pid counter
        rw [files]
        rfl
      · intro proc
        cases proc with
        | reactor => exact Or.inr ⟨touched, rfl⟩
        | importer =>
            left
            show NotBegun (Option.bind (Option.map _ _) _)
            rw [Option.bind_map]
            exact next

end Turns

theorem worldStep_effect (sha : Sha256sum) (event : Sys × Turn) (held : world.Held) :
    TurnEffect world event (worldStep sha world event) := by
  obtain ⟨sys, turn⟩ := event
  cases turn with
  | put name content =>
      unfold worldStep
      dsimp only
      split
      next => exact turnEffect_put sha rfl name content
      next => exact turnEffect_still rfl
  | delete name =>
      unfold worldStep
      dsimp only
      split
      next => exact turnEffect_delete rfl name
      next => exact turnEffect_still rfl
  | collect dryRun =>
      unfold worldStep
      dsimp only
      split
      next => exact turnEffect_tasked rfl notBegun_none
      next => exact turnEffect_still rfl
  | importStart pid manifest =>
      unfold worldStep
      dsimp only
      split
      next =>
        split
        next => exact turnEffect_still rfl
        next => exact turnEffect_forked rfl pid manifest
      next => exact turnEffect_still rfl
  | reactor entry => exact turnEffect_reactor sha sys held entry
  | importer entry =>
      cases present : world.child with
      | none =>
          have idle : world.working .importer = none := by simp [World.working, present]
          have same : worldStep sha world (sys, .importer entry) = world := by
            simp only [worldStep, present]
          rw [same]
          exact .quiet (world.reports_quiet rfl idle) (fun _ => Or.inl rfl) (fun _ _ => rfl)
            fun _ => Or.inr ⟨rfl, rfl⟩
      | some child => exact turnEffect_importer sha sys entry present

theorem World.storeOf_files (world : World) (proc : Proc) :
    (world.storeOf proc).files = world.files := by
  cases proc with
  | reactor => rfl
  | importer =>
      unfold World.storeOf
      cases world.child <;> rfl

theorem Exclusive.apart {proc : Proc} (exclusive : Exclusive world event)
    (taken : event.2.proc = some proc) :
    conflicting (world.settles proc) (world.claim proc.other) = false := by
  obtain ⟨sys, turn⟩ := event
  cases turn with
  | reactor entry =>
      obtain rfl := Option.some.inj taken
      exact exclusive
  | importer entry =>
      obtain rfl := Option.some.inj taken
      exact exclusive.1
  | _ => contradiction

theorem agree_of_not_conflicting {name digest found : Bytes}
    (apart : conflicting (some (name, digest)) (some (name, found)) = false) : digest = found := by
  simpa [conflicting] using apart

/-- The processes write their links under different names. -/
theorem World.Held.foreign (held : world.Held) {proc : Proc} {work other : Job × Stage}
    (working : world.working proc = some work)
    (beside : world.working proc.other = some other) :
    (world.storeOf proc.other).pid ≠ (world.storeOf proc).pid := by
  have importing : ∀ some_work, world.working .importer = some some_work →
      (world.storeOf .importer).pid ≠ world.pid := by
    intro some_work busy
    obtain ⟨child, present, _⟩ := Option.bind_eq_some_iff.mp busy
    rw [World.storeOf_importer_pid, present]
    exact held.pids child present
  cases proc with
  | reactor => exact importing other beside
  | importer => exact (importing work working).symm

/-- What a process unlinks or renames away is no entry, and no link under tmp/. -/
theorem World.Held.source (held : world.Held) {proc : Proc} {job : Job} {stage : Stage}
    (working : world.working proc = some (job, stage)) :
    (∃ pid counter, job.source = .tmp (.up pid counter)) ∨
      proc = .importer ∧ ∃ entry, job.source = .packages entry := by
  cases proc with
  | reactor =>
      have reacting := held.reacting
      rw [Task.job_eq_some working] at reacting
      exact Or.inl reacting
  | importer =>
      obtain ⟨child, present, pc⟩ := Option.bind_eq_some_iff.mp working
      have importing := held.importing child present
      rw [ImportPc.job_eq_some pc] at importing
      exact Or.inr ⟨rfl, importing⟩

theorem World.Held.links (held : world.Held) {proc : Proc} {job : Job} {stage : Stage}
    (working : world.working proc = some (job, stage)) (sys : Sys) {pid : Nat}
    (foreign : pid ≠ (world.storeOf proc).pid) (counter : Nat) :
    tmpOf (publishStep sys (world.storeOf proc) job stage).1.files (.pub pid counter) =
      tmpOf world.files (.pub pid counter) := by
  have sound := (held.working proc job stage working).2
  rw [← world.storeOf_files proc] at sound ⊢
  refine publishStep_links sys sound foreign ?_
  rcases held.source working with ⟨owner, own, source⟩ | ⟨_, entry, source⟩
  · rw [source]
    simp
  · rw [source]
    simp

/-- What one call of a publish does to an entry, in a world without races. -/
theorem World.Held.packages (held : world.Held) (exclusive : Exclusive world event)
    {proc : Proc} {job : Job} {stage : Stage} (taken : event.2.proc = some proc)
    (working : world.working proc = some (job, stage)) (name : Bytes) :
    packagesOf (publishStep event.1 (world.storeOf proc) job stage).1.files name =
        packagesOf world.files name ∨
      (published world.files name = none ∧
        packagesOf (publishStep event.1 (world.storeOf proc) job stage).1.files name = none) ∨
      ((∃ tmpLink, stage = .publish (.packages name) tmpLink) ∧
        packagesOf (publishStep event.1 (world.storeOf proc) job stage).1.files name =
          some (.symlink (blobTarget job.digest))) := by
  have sound := (held.working proc job stage working).2
  rw [← world.storeOf_files proc] at sound
  rcases publishStep_packages event.1 sound name with same | ⟨last, source, gone⟩ | linked
  · rw [world.storeOf_files] at same
    exact Or.inl same
  · refine Or.inr (Or.inl ⟨?_, gone⟩)
    rcases held.source working with ⟨owner, own, upload⟩ | ⟨rfl, _⟩
    · rw [upload] at source
      contradiction
    · have still : world.takesLink = false := by
        obtain ⟨sys, turn⟩ := event
        cases turn with
        | importer entry => exact exclusive.2
        | reactor entry => simp [Turn.proc] at taken
        | _ => contradiction
      unfold World.takesLink at still
      rw [working] at still
      cases node : world.files (.packages name) with
      | none => exact published_of_absent node
      | some kind =>
          cases kind with
          | regular content => simp [published, resolvePath, node]
          | symlink target =>
              rcases last with rfl | rfl
              · simp [source, node] at still
              · simp [source, node] at still
  · exact Or.inr (Or.inr linked)

theorem Free.of_cases {before after : Files} {name digest : Bytes} (free : Free before name digest)
    (kept : packagesOf after name = packagesOf before name ∨ packagesOf after name = none) :
    Free after name digest := by
  rcases kept with same | gone
  · rw [Free, same]
    exact free
  · exact Or.inl gone

theorem World.Held.keeps_working (held : world.Held) (exclusive : Exclusive world event)
    {after : World} (effect : TurnEffect world event after) {proc : Proc} {job : Job}
    {stage : Stage} (working : after.working proc = some (job, stage)) :
    storeDigestIsValid job.digest = true ∧
      EntrySound after.files (after.storeOf proc).pid job stage := by
  cases effect with
  | quiet silent packages links jobs =>
      rcases jobs proc with begun | ⟨same, pid⟩
      · obtain ⟨rfl, valid⟩ := begun job stage working
        exact ⟨valid, trivial⟩
      · obtain ⟨valid, sound⟩ := held.working proc job stage (same ▸ working)
        rw [pid]
        refine ⟨valid, sound.stable ?_ (links _)⟩
        intro name _ free
        exact free.of_cases ((packages name).imp_right And.left)
  | call actor own stands taken busy files next others pids =>
      obtain ⟨valid, sound⟩ := held.working actor own stands busy
      rw [files, pids]
      by_cases same : proc = actor
      · subst same
        rw [next] at working
        obtain ⟨later, pending, pair⟩ := Option.map_eq_some_iff.mp working
        obtain ⟨rfl, rfl⟩ := Prod.mk.inj pair
        refine ⟨valid, publishStep_entrySound event.1 ?_ (Sum.getLeft?_eq_some_iff.mp pending)⟩
        rw [world.storeOf_files]
        exact sound
      · have beside : proc = actor.other := by
          cases proc <;> cases actor <;> first | rfl | contradiction
        subst beside
        rw [others] at working
        obtain ⟨validOther, soundOther⟩ := held.working _ job stage working
        refine ⟨validOther, soundOther.stable ?_ (held.links busy event.1 (held.foreign busy working))⟩
        intro name claimed free
        rcases held.packages exclusive taken busy name with kept | ⟨_, gone⟩ | ⟨⟨tmpLink, rfl⟩, linked⟩
        · exact free.of_cases (Or.inl kept)
        · exact free.of_cases (Or.inr gone)
        · have apart := exclusive.apart taken
          rw [World.settles, World.claim, busy, working, Option.bind_some, Option.bind_some,
            claimed] at apart
          rw [← agree_of_not_conflicting apart]
          exact Or.inr linked

theorem World.delete_same (world : World) (name : Bytes) :
    (world.delete name).pid = world.pid ∧ (world.delete name).child = world.child := by
  unfold World.delete
  repeat' split
  all_goals exact ⟨rfl, rfl⟩

theorem worldStep_pid (sha : Sha256sum) (world : World) (event : Sys × Turn) :
    (worldStep sha world event).pid = world.pid := by
  obtain ⟨sys, turn⟩ := event
  cases turn with
  | delete name =>
      unfold worldStep
      dsimp only
      split
      next => exact (world.delete_same name).1
      next => rfl
  | _ =>
      unfold worldStep
      dsimp only
      repeat' split
      all_goals rfl

theorem World.Held.child (held : world.Held) {child : ImportChild}
    (present : (worldStep sha world event).child = some child) :
    child.pid ≠ world.pid ∧ child.pc.Held := by
  have old : world.child = some child → child.pid ≠ world.pid ∧ child.pc.Held :=
    fun same => ⟨held.pids child same, held.importing child same⟩
  obtain ⟨sys, turn⟩ := event
  unfold worldStep at present
  dsimp only at present
  cases turn with
  | put name content =>
      dsimp only at present
      split at present
      next => exact old present
      next => exact old present
  | delete name =>
      dsimp only at present
      split at present
      next => exact old ((world.delete_same name).2 ▸ present)
      next => exact old present
  | collect dryRun =>
      dsimp only at present
      split at present
      next => exact old present
      next => exact old present
  | importStart pid manifest =>
      dsimp only at present
      split at present
      next =>
        split at present
        next => exact old present
        next other =>
          obtain rfl := Option.some.inj present
          exact ⟨other, trivial⟩
      next => exact old present
  | reactor entry => exact old present
  | importer entry =>
      dsimp only at present
      split at present
      next => exact old present
      next earlier was =>
        obtain ⟨pc, stepped, rfl⟩ := Option.map_eq_some_iff.mp present
        exact ⟨held.pids earlier was,
          importerStep_held sha sys _ earlier.manifest entry (held.importing earlier was) stepped⟩

theorem TaskHeld.delete (held : TaskHeld world.task) (name : Bytes) :
    TaskHeld (world.delete name).task := by
  unfold World.delete
  split
  next => exact held
  next =>
    split
    next => exact held
    next path located =>
      split
      next => exact entryPath_eq_some located
      next sigPath found =>
        obtain ⟨sig, _, derived⟩ := Option.bind_eq_some_iff.mp found
        exact ⟨entryPath_eq_some derived, entryPath_eq_some located⟩

theorem TaskHeld.touch (held : TaskHeld task) (path : Option Path) :
    TaskHeld (task.touch path) := by
  cases task <;> exact held

theorem World.Held.reacts (held : world.Held) : TaskHeld (worldStep sha world event).task := by
  obtain ⟨sys, turn⟩ := event
  unfold worldStep
  dsimp only
  cases turn with
  | put name content =>
      dsimp only
      split
      next => exact ⟨sha.valid content, world.pid, world.tmpCounter, rfl⟩
      next => exact held.reacting
  | delete name =>
      dsimp only
      split
      next => exact held.reacting.delete name
      next => exact held.reacting
  | collect dryRun =>
      dsimp only
      split
      next => trivial
      next => exact held.reacting
  | importStart pid manifest =>
      dsimp only
      repeat' split
      all_goals exact held.reacting
  | reactor entry => exact reactorStep_held sys world.store entry held.reacting
  | importer entry =>
      dsimp only
      split
      next => exact held.reacting
      next => exact held.reacting.touch _

theorem World.Held.step (held : world.Held) (exclusive : Exclusive world event) :
    (worldStep sha world event).Held where
  pids := by
    intro child present
    rw [worldStep_pid]
    exact (held.child present).1
  reacting := held.reacts
  importing := fun child present => (held.child present).2
  working := fun _ _ _ =>
    held.keeps_working exclusive (worldStep_effect sha event held)

/-- An entry keeps its digest, unless the step is an unpublish of it. -/
theorem World.Held.keeps_published (held : world.Held) (exclusive : Exclusive world event)
    {name digest : Bytes} (found : published world.files name = some digest)
    (kept : world.withdraws event ≠ some name) :
    published (worldStep sha world event).files name = some digest := by
  cases worldStep_effect sha event held with
  | quiet silent packages links jobs =>
      rcases packages name with same | ⟨_, withdrawn⟩
      · rw [published_congr same]
        exact found
      · exact absurd withdrawn kept
  | call proc job stage taken working files next others pids =>
      obtain ⟨valid, sound⟩ := held.working proc job stage working
      rw [files]
      rcases held.packages exclusive taken working name with same | ⟨absent, _⟩ | ⟨⟨tmpLink, rfl⟩, linked⟩
      · rw [published_congr same]
        exact found
      · rw [absent] at found
        contradiction
      · obtain ⟨⟨entry, path, _, free⟩, _, _⟩ := sound
        obtain rfl := Path.packages.inj path
        have same : digest = job.digest := by
          rcases free with absent | own
          · rw [published_of_absent absent] at found
            contradiction
          · rw [published_eq_some, resolvePath_blobTarget valid own] at found
            exact (Except.ok.inj found).symm
        rw [same, published_eq_some]
        exact resolvePath_blobTarget valid linked

end Steps

/-! ## Successes for one name -/

/-- The step unpublishes no entry that can answer for the name. -/
def KeepsName (name : Bytes) (world : World) (event : Sys × Turn) : Prop :=
  ∀ key ∈ answering name, world.withdraws event ≠ some key

instance (name : Bytes) (world : World) (event : Sys × Turn) :
    Decidable (KeepsName name world event) :=
  inferInstanceAs (Decidable (∀ key ∈ answering name, world.withdraws event ≠ some key))

/-- The successes a run reports: canonical names and digests. -/
def reported (sha : Sha256sum) : World → List (Sys × Turn) → List (Bytes × Bytes)
  | _, [] => []
  | world, event :: rest =>
      (world.reports event).toList ++ reported sha (worldStep sha world event) rest

/-- No publish under way has a digest in hand for the name. -/
def Unanswered (world : World) (name : Bytes) : Prop :=
  ∀ proc job arches digest,
    world.working proc ≠ some (job, .resolve (.probing name arches (some digest)))

/-- Every digest in hand for the name is that of an entry. -/
structure Answerable (name : Bytes) (world : World) : Prop where
  held : world.Held
  hits : ∀ proc job stage, world.working proc = some (job, stage) → Hits world.files name stage

/-- An entry answers for the name with the digest, and no publish under way can
succeed for another one. -/
structure Decided (name digest : Bytes) (world : World) : Prop where
  held : world.Held
  decided : ∃ key ∈ answering name, published world.files key = some digest ∧
    ∀ proc job stage, world.working proc = some (job, stage) → canonicalForm job.name = some name →
      digest ≠ job.digest → Barred key job stage

section Successes

variable {sha : Sha256sum} {world : World} {event : Sys × Turn} {name digest : Bytes}

theorem Answerable.step (answered : Answerable name world) (exclusive : Exclusive world event)
    (keeps : KeepsName name world event) : Answerable name (worldStep sha world event) where
  held := answered.held.step exclusive
  hits := by
    have kept : ∀ stage, Hits world.files name stage →
        Hits (worldStep sha world event).files name stage := by
      intro stage hits arches found probing
      obtain ⟨key, among, present⟩ := hits arches found probing
      exact ⟨key, among, answered.held.keeps_published exclusive present (keeps key among)⟩
    intro proc job stage working
    cases worldStep_effect sha event answered.held with
    | quiet silent packages links jobs =>
        rcases jobs proc with begun | ⟨same, _⟩
        · obtain ⟨rfl, _⟩ := begun job stage working
          intro arches found probing
          contradiction
        · exact kept stage (answered.hits proc job stage (same ▸ working))
    | call actor own stands taken busy files next others pids =>
        by_cases same : proc = actor
        · subst same
          rw [next] at working
          obtain ⟨later, pending, pair⟩ := Option.map_eq_some_iff.mp working
          obtain ⟨rfl, rfl⟩ := Prod.mk.inj pair
          have sound := (answered.held.working proc own stands busy).2
          have hits := answered.hits proc own stands busy
          rw [← world.storeOf_files proc] at sound hits
          rw [files]
          exact publishStep_hits event.1 sound hits (Sum.getLeft?_eq_some_iff.mp pending)
        · have beside : proc = actor.other := by
            cases proc <;> cases actor <;> first | rfl | contradiction
          subst beside
          rw [others] at working
          exact kept stage (answered.hits _ job stage working)

/-- A success is that of a publish that makes its last call. -/
theorem World.reports_eq_some (reports : world.reports event = some (name, digest)) :
    ∃ proc job stage, event.2.proc = some proc ∧ world.working proc = some (job, stage) ∧
      (publishStep event.1 (world.storeOf proc) job stage).2 = .inr (.ok ()) ∧
      canonicalForm job.name = some name ∧ job.digest = digest := by
  unfold World.reports at reports
  split at reports
  next => contradiction
  next proc taken =>
    split at reports
    next => contradiction
    next job stage working =>
      split at reports
      next succeeded =>
        obtain ⟨canonical, form, pair⟩ := Option.map_eq_some_iff.mp reports
        obtain ⟨rfl, rfl⟩ := Prod.mk.inj pair
        exact ⟨proc, job, stage, taken, working, succeeded, form, rfl⟩
      next => contradiction

/-- A job that claims nothing under its name has met another digest, or has read
nothing yet. -/
theorem barred_of_unclaimed {files : Files} {pid : Nat} {job : Job} {stage : Stage}
    (sound : EntrySound files pid job stage) (form : canonicalForm job.name = some name)
    (unclaimed : job.claim stage ≠ some (name, job.digest)) (key : Bytes) :
    Barred key job stage := by
  have vacant : ∀ path, Vacant files job path → path = .packages name := by
    rintro path ⟨entry, rfl, own, _⟩
    rw [Option.some.inj (own.symm.trans form)]
  cases stage with
  | resolve pc =>
      cases pc with
      | start => trivial
      | probing canonical arches hit =>
          obtain rfl := Option.some.inj (sound.1.symm.trans form)
          cases hit with
          | none => simp [Job.claim] at unclaimed
          | some other =>
              left
              refine ⟨other, rfl, ?_⟩
              rintro rfl
              simp [Job.claim] at unclaimed
  | clear path =>
      obtain rfl := vacant path sound
      exact absurd rfl unclaimed
  | link path tmpLink =>
      obtain rfl := vacant path sound.1
      exact absurd rfl unclaimed
  | publish path tmpLink =>
      obtain rfl := vacant path sound.1
      exact absurd rfl unclaimed
  | _ => trivial

/-- A name that carries an architecture is claimed while it is free. -/
theorem claim_free {files : Files} {pid : Nat} {job : Job} {stage : Stage} {found : Bytes}
    (sound : EntrySound files pid job stage) (qualified : (storeArchOf name).isSome)
    (claimed : job.claim stage = some (name, found)) : Free files name job.digest := by
  cases stage with
  | resolve pc =>
      cases pc with
      | start => contradiction
      | probing canonical arches hit =>
          rw [Job.claim] at claimed
          split at claimed
          next =>
            obtain ⟨rfl, _⟩ := Prod.mk.inj (Option.some.inj claimed)
            rw [sound.2.1] at qualified
            contradiction
          next => contradiction
  | clear path =>
      obtain ⟨entry, rfl, _, free⟩ := sound
      obtain ⟨rfl, _⟩ := Prod.mk.inj (Option.some.inj claimed)
      exact free
  | link path tmpLink =>
      obtain ⟨⟨entry, rfl, _, free⟩, _⟩ := sound
      obtain ⟨rfl, _⟩ := Prod.mk.inj (Option.some.inj claimed)
      exact free
  | publish path tmpLink =>
      obtain ⟨⟨entry, rfl, _, free⟩, _⟩ := sound
      obtain ⟨rfl, _⟩ := Prod.mk.inj (Option.some.inj claimed)
      exact free
  | _ => contradiction

theorem Answerable.decided (answered : Answerable name world) (exclusive : Exclusive world event)
    (keeps : KeepsName name world event) (reports : world.reports event = some (name, digest)) :
    Decided name digest (worldStep sha world event) := by
  obtain ⟨proc, job, stage, taken, working, succeeded, form, rfl⟩ := World.reports_eq_some reports
  have held := answered.held
  obtain ⟨valid, sound⟩ := held.working proc job stage working
  rw [← world.storeOf_files proc] at sound
  obtain ⟨canonical, own, settled⟩ := publishStep_ok event.1 sound valid succeeded
  obtain rfl := Option.some.inj (own.symm.trans form)
  refine ⟨held.step exclusive, ?_⟩
  cases worldStep_effect sha event held with
  | quiet silent packages links jobs =>
      rw [silent] at reports
      contradiction
  | call actor other stands took busy files next others pids =>
      obtain rfl := Option.some.inj (took.symm.trans taken)
      obtain ⟨rfl, rfl⟩ := Prod.mk.inj (Option.some.inj (busy.symm.trans working))
      -- Whoever else is publishing the name has no claim to it with another digest.
      have unclaimed : ∀ later stands, world.working actor.other = some (later, stands) →
          other.digest ≠ later.digest → later.claim stands ≠ some (canonical, later.digest) := by
        intro later stood beside different claimed
        have apart := exclusive.apart taken
        rw [World.settles, World.claim, working, beside, Option.bind_some, Option.bind_some,
          claimed] at apart
        cases settled with
        | direct qualified found =>
            have free := claim_free (held.working _ _ _ beside).2 qualified claimed
            rw [world.storeOf_files] at found
            rcases free with absent | linked
            · rw [published_of_absent absent] at found
              contradiction
            · rw [published_eq_some,
                resolvePath_blobTarget (held.working _ _ _ beside).1 linked] at found
              exact different (Except.ok.inj found).symm
        | probed =>
            rw [Job.settles, if_pos rfl] at apart
            exact different (agree_of_not_conflicting apart)
        | linked tmpLink created => exact different (agree_of_not_conflicting apart)
      have barred : ∀ key proc later stood,
          (worldStep sha world event).working proc = some (later, stood) →
          canonicalForm later.name = some canonical → other.digest ≠ later.digest →
            Barred key later stood := by
        intro key proc later stood beside named different
        by_cases same : proc = actor
        · subst same
          rw [next, succeeded] at beside
          contradiction
        · have opposite : proc = actor.other := by
            cases proc <;> cases actor <;> first | rfl | contradiction
          subst opposite
          rw [others] at beside
          exact barred_of_unclaimed (held.working _ _ _ beside).2 named
            (unclaimed later stood beside different) key
      cases settled with
      | direct qualified found =>
          rw [world.storeOf_files] at found
          exact ⟨canonical, mem_answering _,
            held.keeps_published exclusive found (keeps _ (mem_answering _)), barred _⟩
      | probed =>
          obtain ⟨key, among, found⟩ := answered.hits actor other _ busy _ _ rfl
          exact ⟨key, among, held.keeps_published exclusive found (keeps key among), barred _⟩
      | linked tmpLink created =>
          rw [← files] at created
          exact ⟨canonical, mem_answering _, created, barred _⟩

theorem Decided.step (decided : Decided name digest world) (exclusive : Exclusive world event)
    (keeps : KeepsName name world event) :
    Decided name digest (worldStep sha world event) ∧
      ∀ found, world.reports event = some (name, found) → found = digest := by
  obtain ⟨held, key, among, present, barred⟩ := decided
  have later : published (worldStep sha world event).files key = some digest :=
    held.keeps_published exclusive present (keeps key among)
  cases worldStep_effect sha event held with
  | quiet silent packages links jobs =>
      refine ⟨⟨held.step exclusive, key, among, later, ?_⟩, ?_⟩
      · intro proc job stage working form different
        rcases jobs proc with begun | ⟨same, _⟩
        · obtain ⟨rfl, _⟩ := begun job stage working
          trivial
        · exact barred proc job stage (same ▸ working) form different
      · intro found reports
        rw [silent] at reports
        contradiction
  | call actor own stands taken busy files next others pids =>
      have sound := (held.working actor own stands busy).2
      have there := present
      rw [← world.storeOf_files actor] at sound there
      have follows := publishStep_follows event.1 (world.storeOf actor) own stands
      refine ⟨⟨held.step exclusive, key, among, later, ?_⟩, ?_⟩
      · intro proc job stage working form different
        by_cases same : proc = actor
        · subst same
          rw [next] at working
          obtain ⟨follower, pending, pair⟩ := Option.map_eq_some_iff.mp working
          obtain ⟨rfl, rfl⟩ := Prod.mk.inj pair
          exact (follows.barred (barred proc own stands busy form different) form among there
            different sound).2 _ (Sum.getLeft?_eq_some_iff.mp pending)
        · have beside : proc = actor.other := by
            cases proc <;> cases actor <;> first | rfl | contradiction
          subst beside
          rw [others] at working
          exact barred _ job stage working form different
      · intro found reports
        obtain ⟨proc, job, stage, took, working, succeeded, form, rfl⟩ :=
          World.reports_eq_some reports
        obtain rfl := Option.some.inj (taken.symm.trans took)
        obtain ⟨rfl, rfl⟩ := Prod.mk.inj (Option.some.inj (busy.symm.trans working))
        by_contra other
        exact (follows.barred (barred actor own stands busy form (Ne.symm other)) form among there
          (Ne.symm other) sound).1 succeeded

end Successes

/-! ## Runs -/

section Runs

variable {sha : Sha256sum} {world : World} {events : List (Sys × Turn)} {name digest : Bytes}

theorem World.held_run (st : Store)
    (exclusive : Along Exclusive (worldStep sha) (World.start st) events) :
    (run (worldStep sha) (World.start st) events).Held :=
  run_invariant (fun _ _ held condition => World.Held.step held condition) (World.held_start st)
    exclusive

theorem World.Held.run_published (held : world.Held)
    (exclusive : Along Exclusive (worldStep sha) world events)
    (kept : Along (fun world event => world.withdraws event ≠ some name) (worldStep sha) world
      events)
    (found : published world.files name = some digest) :
    published (run (worldStep sha) world events).files name = some digest := by
  have both : (run (worldStep sha) world events).Held ∧
      published (run (worldStep sha) world events).files name = some digest :=
    run_invariant (motive := fun world => world.Held ∧ published world.files name = some digest)
      (fun _ _ holds condition => ⟨holds.1.step condition.1,
        holds.1.keeps_published condition.1 holds.2 condition.2⟩)
      ⟨held, found⟩ (exclusive.and kept)
  exact both.2

/-- Once a publish has succeeded, every later success is for the same digest. -/
theorem Decided.reported (decided : Decided name digest world)
    (exclusive : Along Exclusive (worldStep sha) world events)
    (keeps : Along (KeepsName name) (worldStep sha) world events) {found : Bytes}
    (success : (name, found) ∈ reported sha world events) : found = digest := by
  induction events generalizing world with
  | nil => contradiction
  | cons event rest inductionHypothesis =>
      have step : Decided name digest (worldStep sha world event) ∧
          ∀ found, world.reports event = some (name, found) → found = digest :=
        decided.step exclusive.1 keeps.1
      obtain ⟨later, same⟩ := step
      rcases List.mem_append.mp success with now | after
      · exact same found (Option.mem_toList.mp now)
      · exact inductionHypothesis later exclusive.2 keeps.2 after

theorem Answerable.reported (answered : Answerable name world)
    (exclusive : Along Exclusive (worldStep sha) world events)
    (keeps : Along (KeepsName name) (worldStep sha) world events) {found : Bytes}
    (first : (name, digest) ∈ reported sha world events)
    (second : (name, found) ∈ reported sha world events) : digest = found := by
  induction events generalizing world with
  | nil => contradiction
  | cons event rest inductionHypothesis =>
      cases report : world.reports event with
      | none =>
          rw [CixCache.reported, report] at first second
          exact inductionHypothesis (answered.step exclusive.1 keeps.1) exclusive.2 keeps.2
            first second
      | some success =>
          obtain ⟨own, meant⟩ := success
          by_cases same : own = name
          · subst same
            have decided : Decided own meant (worldStep sha world event) :=
              answered.decided exclusive.1 keeps.1 report
            have agree : ∀ other, (own, other) ∈ CixCache.reported sha world (event :: rest) →
                other = meant := by
              intro other member
              rw [CixCache.reported, report] at member
              rcases List.mem_cons.mp member with now | after
              · exact (Prod.mk.inj now).2
              · exact decided.reported exclusive.2 keeps.2 after
            exact (agree digest first).trans (agree found second).symm
          · rw [CixCache.reported, report] at first second
            have elsewhere : ∀ other, (name, other) ∈
                (some (own, meant)).toList ++ CixCache.reported sha (worldStep sha world event) rest →
                (name, other) ∈ CixCache.reported sha (worldStep sha world event) rest := by
              intro other member
              rcases List.mem_cons.mp member with now | after
              · exact absurd (Prod.mk.inj now).1.symm same
              · exact after
            exact inductionHypothesis (answered.step exclusive.1 keeps.1) exclusive.2 keeps.2
              (elsewhere _ first) (elsewhere _ second)

/-- As long as neither race happens, and whatever the order in which the import
child and the reactor take their calls: an entry keeps its digest until it is
unpublished, and two publishes of one canonical name that succeed without an
unpublish of the entries that answer for it succeed for one digest. -/
theorem exclusive_run_never_overwrites (st : Store) {first second : List (Sys × Turn)}
    (exclusive : Along Exclusive (worldStep sha) (World.start st) (first ++ second)) :
    (∀ name digest,
      published (run (worldStep sha) (World.start st) first).files name = some digest →
      Along (fun world event => world.withdraws event ≠ some name) (worldStep sha)
        (run (worldStep sha) (World.start st) first) second →
      published (run (worldStep sha) (World.start st) (first ++ second)).files name =
        some digest) ∧
    ∀ name, Unanswered (run (worldStep sha) (World.start st) first) name →
      Along (KeepsName name) (worldStep sha) (run (worldStep sha) (World.start st) first) second →
      ∀ digest found,
        (name, digest) ∈ reported sha (run (worldStep sha) (World.start st) first) second →
        (name, found) ∈ reported sha (run (worldStep sha) (World.start st) first) second →
        digest = found := by
  obtain ⟨before, after⟩ := along_append.mp exclusive
  have held := World.held_run st before
  constructor
  · intro name digest found kept
    rw [run_append]
    exact held.run_published after kept found
  · intro name unanswered keeps digest found one other
    have answered : Answerable name (run (worldStep sha) (World.start st) first) := by
      refine ⟨held, ?_⟩
      rintro proc job stage working arches hit rfl
      exact absurd working (unanswered proc job arches hit)
    exact answered.reported after keeps one other

end Runs

/-! ### An import around an upload -/

/-- An import of the one file there is, after so many calls. -/
def importingTurns (calls : Nat) : List Turn :=
  .importStart 2 none :: .importer (some exportName) :: List.replicate calls (.importer none)

/-- Other bytes are uploaded under the name of that file. -/
def uploadTurns : List Turn :=
  .put exportName (ascii "b") :: List.replicate 8 (.reactor none)

/-- The import has only its last rename to make when the upload comes. -/
def overtakenTurns : List Turn := importingTurns 8 ++ uploadTurns

/-- The child renames its link over the entry the upload has created, and both
report success. -/
theorem import_overwrites_upload :
    published (run (worldStep .sample) (World.start exportStore) (allCalls overtakenTurns)).files
        exportName = some (Sha256sum.sample.digest (ascii "b")) ∧
      published (run (worldStep .sample) (World.start exportStore)
        (allCalls (overtakenTurns ++ [.importer none]))).files exportName =
          some (Sha256sum.sample.digest (ascii "a")) ∧
      Along (KeepsName exportName) (worldStep .sample) (World.start exportStore)
        (allCalls (overtakenTurns ++ [.importer none])) ∧
      reported .sample (World.start exportStore)
          (allCalls (overtakenTurns ++ [.importer none])) =
        [(exportName, Sha256sum.sample.digest (ascii "b")),
          (exportName, Sha256sum.sample.digest (ascii "a"))] := by
  decide +kernel

/-- Had the import made that call first, the upload would be refused. -/
theorem later_upload_refused :
    published (run (worldStep .sample) (World.start exportStore)
        (allCalls (importingTurns 9) ++ allCalls uploadTurns)).files exportName =
          some (Sha256sum.sample.digest (ascii "a")) ∧
      ∀ found,
        (exportName, found) ∈ reported .sample (World.start exportStore)
          (allCalls (importingTurns 9) ++ allCalls uploadTurns) →
        Sha256sum.sample.digest (ascii "a") = found := by
  obtain ⟨exclusive, imported, untouched, kept, answered⟩ :
      Along Exclusive (worldStep .sample) (World.start exportStore)
          (allCalls (importingTurns 9) ++ allCalls uploadTurns) ∧
        published (run (worldStep .sample) (World.start exportStore)
          (allCalls (importingTurns 9))).files exportName =
            some (Sha256sum.sample.digest (ascii "a")) ∧
        Along (fun world event => world.withdraws event ≠ some exportName) (worldStep .sample)
          (run (worldStep .sample) (World.start exportStore) (allCalls (importingTurns 9)))
          (allCalls uploadTurns) ∧
        Along (KeepsName exportName) (worldStep .sample) (World.start exportStore)
          (allCalls (importingTurns 9) ++ allCalls uploadTurns) ∧
        (exportName, Sha256sum.sample.digest (ascii "a")) ∈
          reported .sample (World.start exportStore)
            (allCalls (importingTurns 9) ++ allCalls uploadTurns) := by
    decide +kernel
  constructor
  · exact (exclusive_run_never_overwrites exportStore exclusive).1 exportName _ imported untouched
  · intro found success
    have whole : Along Exclusive (worldStep .sample) (World.start exportStore)
        ([] ++ (allCalls (importingTurns 9) ++ allCalls uploadTurns)) := exclusive
    refine (exclusive_run_never_overwrites exportStore whole).2 exportName ?_ kept _ found answered
      success
    intro proc job arches digest
    cases proc <;> simp [World.working, World.start, Task.job]

end CixCache
