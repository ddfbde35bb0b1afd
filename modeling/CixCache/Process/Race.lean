import CixCache.Lib.Run
import CixCache.Process.World

/-!
Contract: no entry dangles while an import runs, whatever the order of calls,
unless one of two races happens.

Owns: what each process may rely on between its calls (`ChildSound`,
`TaskSound`) and that the other's calls leave it true; `Calm`, the steps at
which neither race happens; the theorem on every calm run; and a run on which an
entry dangles.

Does not own: the calls (`Process.Calls`, `Process.World`).
-/

namespace CixCache

open CixCache.Lib

/-- Every entry's blob is present. -/
def NoDangling (files : Files) : Prop :=
  ∀ name digest, published files name = some digest → (stat files (.blobs digest)).isSome

theorem StoreInvariant.noDangling {sha : Sha256sum} {files : Files}
    (holds : StoreInvariant sha files) : NoDangling files := by
  intro name digest found
  obtain ⟨_, _, content, present⟩ := holds.published found
  rw [stat_of_regular present]
  rfl

/-! ## Steps without a race -/

/-- The child's next call renames a link into blobs/: the file it hashed has been
deleted and its name published again meanwhile. -/
def World.movesLink (world : World) : Bool :=
  match world.child with
  | some ⟨_, _, _, .adopting job .adopt⟩ =>
      match world.files job.source with
      | some (.symlink _) => true
      | _ => false
  | _ => false

/-- The digest whose blob the child has found present for a name it has yet to
publish. -/
def World.awaited (world : World) : Option Bytes :=
  match world.child with
  | some ⟨_, _, _, .adopting job stage⟩ => if stage.checked then some job.digest else none
  | _ => none

theorem movesLink_of {world : World} {child : ImportChild} {job : Job} {target : Bytes}
    (present : world.child = some child) (pc : child.pc = .adopting job .adopt)
    (link : world.files job.source = some (.symlink target)) : world.movesLink = true := by
  cases child
  subst pc
  simp [World.movesLink, present, link]

theorem awaited_of {world : World} {child : ImportChild} {job : Job} {stage : Stage}
    (present : world.child = some child) (pc : child.pc = .adopting job stage)
    (checked : stage.checked = true) : world.awaited = some job.digest := by
  cases child
  subst pc
  simp [World.awaited, present, checked]

/-- The sweep unlinks a blob that the child awaits, or one that an entry touched
since the collection began leads to. -/
def World.sweepsFresh (world : World) (digest : Bytes) : Bool :=
  match world.task with
  | .sweeping false live stream =>
      decide (digest ∉ live) && (decide (world.awaited = some digest) ||
        stream.touched.any fun name => decide (published world.files name = some digest))
  | _ => false

/-- Neither race happens at this step. -/
def Calm (world : World) (event : Sys × Turn) : Prop :=
  match event.2 with
  | .importer _ => world.movesLink = false
  | .reactor (some digest) => world.sweepsFresh digest = false
  | _ => True

instance (world : World) : (event : Sys × Turn) → Decidable (Calm world event)
  | (_, .importer _) => inferInstanceAs (Decidable (world.movesLink = false))
  | (_, .reactor (some digest)) => inferInstanceAs (Decidable (world.sweepsFresh digest = false))
  | (_, .reactor none) | (_, .put _ _) | (_, .delete _) | (_, .collect _) | (_, .importStart _ _) =>
      inferInstanceAs (Decidable True)

/-! ## What the processes rely on -/

/-- What the import child relies on between two calls. -/
def ChildSound (sha : Sha256sum) (files : Files) (pid : Nat) : ImportPc → Prop
  | .hash _ path => ∃ entry, path = .packages entry
  | .adopting job stage =>
      (∃ entry, job.source = .packages entry) ∧ storeDigestIsValid job.digest = true ∧
        StageSound sha files pid job stage
  | _ => True

/-- The file of an upload has the bytes that were hashed, if it is there still. -/
structure Uploaded (sha : Sha256sum) (files : Files) (job : Job) : Prop where
  source : ∃ pid counter, job.source = .tmp (.up pid counter)
  valid : storeDigestIsValid job.digest = true
  hashed : ∀ node, files job.source = some node →
    ∃ content, node = .regular content ∧ sha.digest content = job.digest

/-- What the reactor relies on between two calls. A collection relies on the
live set: each entry has its digest there, is still to be returned by `readdir`,
or was linked meanwhile. -/
def TaskSound (sha : Sha256sum) (files : Files) (pid : Nat) : Task → Prop
  | .idle => True
  | .checking job _ => Uploaded sha files job
  | .dropping path => ∃ pid counter, path = .tmp (.up pid counter)
  | .publishing job stage => Uploaded sha files job ∧ StageSound sha files pid job stage
  | .unsigning sigPath path => EntryLink sigPath ∧ EntryLink path
  | .withdrawing path => EntryLink path
  | .walking _ live stream =>
      ∀ name digest, published files name = some digest → digest ∈ live.slots ∨
        name ∈ stream.touched ∨ stream.opened name = true ∧ name ∉ stream.returned
  | .sweeping _ live stream =>
      ∃ slots, live = liveIndex slots ∧
        ∀ name digest, published files name = some digest →
          digest ∈ slots ∨ name ∈ stream.touched

structure World.Sound (sha : Sha256sum) (world : World) : Prop where
  tree : StoreInvariant sha world.files
  pids : ∀ child, world.child = some child → child.pid ≠ world.pid
  importing : ∀ child, world.child = some child →
    ChildSound sha world.files child.pid child.pc
  reacting : TaskSound sha world.files world.pid world.task

theorem World.sound_start {sha : Sha256sum} {st : Store} (holds : StoreInvariant sha st.files) :
    (World.start st).Sound sha where
  tree := holds
  pids := by
    intro child present
    contradiction
  importing := by
    intro child present
    contradiction
  reacting := trivial

section Interference

variable {sha : Sha256sum} {sys : Sys} {st : Store} {before after : Files} {pid : Nat}
  {job : Job} {stage : Stage} {task : Task} {pc : ImportPc}

/-- What the child relies on survives a call of the reactor that leaves its blob. -/
theorem ChildSound.stable (sound : ChildSound sha before pid pc)
    (regular : ∀ name content, packagesOf after name = some (.regular content) →
      packagesOf before name = some (.regular content))
    (blob : ∀ job stage, pc = .adopting job stage → stage.checked = true →
      (blobsOf before job.digest).isSome → (blobsOf after job.digest).isSome)
    (links : ∀ counter, tmpOf after (.pub pid counter) = tmpOf before (.pub pid counter)) :
    ChildSound sha after pid pc := by
  cases pc with
  | readdir => trivial
  | lstat name => trivial
  | hash name path => exact sound
  | adopting job stage =>
      obtain ⟨⟨entry, source⟩, valid, stands⟩ := sound
      refine ⟨⟨entry, source⟩, valid, stands.stable ?_ (blob job stage rfl) links⟩
      rw [source]
      exact regular entry

theorem Uploaded.stable (uploaded : Uploaded sha before job)
    (source : after job.source = before job.source ∨ after job.source = none) :
    Uploaded sha after job where
  source := uploaded.source
  valid := uploaded.valid
  hashed := by
    intro node present
    rcases source with same | gone
    · rw [same] at present
      exact uploaded.hashed node present
    · rw [gone] at present
      contradiction

theorem DirStream.mem_touch (stream : DirStream) {touched : Option Path} {name : Bytes}
    (marked : name ∈ stream.touched ∨ touched = some (.packages name)) :
    name ∈ (stream.touch touched).touched := by
  unfold DirStream.touch
  split
  next entry =>
    rcases marked with old | new
    · exact List.mem_cons_of_mem _ old
    · rw [Path.packages.inj (Option.some.inj new)]
      exact List.mem_cons_self
  next other =>
    rcases marked with old | new
    · exact old
    · exact absurd new (other name)

/-- What the reactor relies on survives a call of the child. -/
theorem TaskSound.stable (sound : TaskSound sha before pid task) (touched : Option Path)
    (uploads : ∀ pid counter, tmpOf after (.up pid counter) = tmpOf before (.up pid counter))
    (blob : ∀ digest, (blobsOf before digest).isSome → (blobsOf after digest).isSome)
    (links : ∀ counter, tmpOf after (.pub pid counter) = tmpOf before (.pub pid counter))
    (entries : ∀ name digest, published after name = some digest →
      published before name = some digest ∨ touched = some (.packages name)) :
    TaskSound sha after pid (task.touch touched) := by
  have kept : ∀ job, Uploaded sha before job → Uploaded sha after job := by
    intro job uploaded
    obtain ⟨owner, counter, source⟩ := uploaded.source
    apply uploaded.stable
    rw [source]
    exact Or.inl (uploads owner counter)
  cases task with
  | idle => trivial
  | checking job resolving => exact kept job sound
  | dropping path => exact sound
  | publishing job stage =>
      obtain ⟨uploaded, stands⟩ := sound
      refine ⟨kept job uploaded, stands.stable ?_ (fun _ => blob _) links⟩
      obtain ⟨owner, counter, source⟩ := uploaded.source
      rw [source]
      intro content present
      exact (uploads owner counter).symm.trans present
  | unsigning sigPath path => exact sound
  | withdrawing path => exact sound
  | walking dryRun live stream =>
      intro name digest found
      rcases entries name digest found with old | new
      · rcases sound name digest old with live | marked | owed
        · exact Or.inl live
        · exact Or.inr (Or.inl (stream.mem_touch (Or.inl marked)))
        · refine Or.inr (Or.inr ?_)
          unfold DirStream.touch
          split <;> exact owed
      · exact Or.inr (Or.inl (stream.mem_touch (Or.inr new)))
  | sweeping dryRun live stream =>
      obtain ⟨slots, index, covers⟩ := sound
      refine ⟨slots, index, ?_⟩
      intro name digest found
      rcases entries name digest found with old | new
      · exact (covers name digest old).imp_right fun marked => stream.mem_touch (Or.inl marked)
      · exact Or.inr (stream.mem_touch (Or.inr new))

end Interference

/-! ## Calls of the import child -/

section Child

variable {sha : Sha256sum} {sys : Sys} {st : Store} {manifest : Option JsonValue}
  {entry : Option Bytes} {pc : ImportPc}

/-- What one call of the child leaves: an effect on the tree, what it relies on
next, and everything under tmp/ that is not its own. -/
structure ChildStep (sha : Sha256sum) (st : Store) (pc : ImportPc)
    (out : Store × Option ImportPc) : Prop where
  effect : ∃ linkPath, TreeEffect sha linkPath st.files out.1.files ∧
    ∀ path, linkPath = some path → pc.touches = some path
  sound : ∀ next, out.2 = some next → ChildSound sha out.1.files st.pid next
  foreign : ∀ name, (∀ counter, name ≠ .pub st.pid counter) →
    tmpOf out.1.files name = tmpOf st.files name

theorem childStep_quiet {next : Option ImportPc}
    (sound : ∀ later, next = some later → ChildSound sha st.files st.pid later) :
    ChildStep sha st pc (st, next) where
  effect := ⟨none, .refl, by simp⟩
  sound := sound
  foreign := fun _ _ => rfl

theorem childStep_loop : ChildStep sha st pc (st, some .readdir) := by
  apply childStep_quiet
  intro later same
  obtain rfl := Option.some.inj same
  trivial

theorem importerStep_sound (sys : Sys) (manifest : Option JsonValue) (entry : Option Bytes)
    (holds : StoreInvariant sha st.files) (sound : ChildSound sha st.files st.pid pc)
    (moved : ∀ job target, pc = .adopting job .adopt →
      st.files job.source ≠ some (.symlink target)) :
    ChildStep sha st pc (importerStep sha sys st manifest entry pc) := by
  cases pc with
  | readdir =>
      apply childStep_quiet
      intro later same
      obtain ⟨name, _, rfl⟩ := Option.map_eq_some_iff.mp same
      trivial
  | lstat name =>
      rw [importerStep]
      split
      next => exact childStep_loop
      next =>
        split
        next => exact childStep_loop
        next =>
          split
          next => exact childStep_loop
          next path located =>
            split
            next => exact childStep_loop
            next => exact childStep_loop
            next =>
              apply childStep_quiet
              intro later same
              obtain rfl := Option.some.inj same
              exact ⟨name, rawEntryPath_eq_some located⟩
  | hash name path =>
      rw [importerStep]
      split
      next => exact childStep_loop
      next digest hashed =>
        split
        next => exact childStep_loop
        next =>
          apply childStep_quiet
          intro later same
          obtain rfl := Option.some.inj same
          obtain ⟨valid, content, file, digested⟩ := storeHashFile_some hashed
          refine ⟨sound, valid, ?_⟩
          intro other present
          rw [stat_of_regular present] at file
          obtain rfl := Option.some.inj file
          exact digested
  | adopting job stage =>
      obtain ⟨⟨source, named⟩, valid, stands⟩ := sound
      have outside : ∀ name, job.source ≠ .blobs name := by
        intro name
        rw [named]
        simp
      have effect := publishStep_effect sys stands valid outside
        (fun adopting target => moved job target (by rw [adopting]))
      have own : ∀ name, (∀ counter, name ≠ .pub st.pid counter) →
          tmpOf (publishStep sys st job stage).1.files name = tmpOf st.files name := by
        intro name foreign
        rcases publishStep_tmp sys stands foreign with same | ⟨own, _⟩
        · exact same
        · rw [named] at own
          contradiction
      have links : ∀ path, stage.linkPath = some path →
          (ImportPc.adopting job stage).touches = some path := by
        intro path last
        cases stage with
        | publish linkPath tmpLink => exact last
        | _ => contradiction
      rw [importerStep]
      split
      next after next stepped =>
        refine ⟨⟨stage.linkPath, ?_, links⟩, ?_, ?_⟩
        · rw [stepped] at effect
          exact effect
        · intro later same
          obtain rfl := Option.some.inj same
          have pending : (publishStep sys st job stage).2 = .inl next := by rw [stepped]
          have promise := publishStep_sound sys holds stands valid pending
          rw [stepped] at promise
          exact ⟨⟨source, named⟩, valid, promise⟩
        · rw [stepped] at own
          exact own
      next after result stepped =>
        refine ⟨⟨stage.linkPath, ?_, links⟩, ?_, ?_⟩
        · rw [stepped] at effect
          exact effect
        · intro later same
          obtain rfl := Option.some.inj same
          trivial
        · rw [stepped] at own
          exact own

end Child

/-! ## Calls of the reactor -/

section Reactor

variable {sha : Sha256sum} {sys : Sys} {st : Store} {entry : Option Bytes} {task : Task}

/-- The reactor's next call removes this blob, if it is there. -/
def Sweeps (task : Task) (entry : Option Bytes) (digest : Bytes) : Prop :=
  ∃ live stream, task = .sweeping false live stream ∧ entry = some digest ∧ digest ∉ live

/-- What one call of the reactor leaves. -/
structure ReactorStep (sha : Sha256sum) (st : Store) (entry : Option Bytes) (task : Task)
    (out : Store × Task) : Prop where
  tree : StoreInvariant sha out.1.files
  sound : TaskSound sha out.1.files st.pid out.2
  regular : ∀ name content, packagesOf out.1.files name = some (.regular content) →
    packagesOf st.files name = some (.regular content)
  blob : ∀ digest, (blobsOf st.files digest).isSome →
    (blobsOf out.1.files digest).isSome ∨ Sweeps task entry digest
  foreign : ∀ pid, pid ≠ st.pid → ∀ counter,
    tmpOf out.1.files (.pub pid counter) = tmpOf st.files (.pub pid counter)

theorem reactorStep_of_effect {linkPath : Option Path} {after : Store} {next : Task}
    (holds : StoreInvariant sha st.files) (effect : TreeEffect sha linkPath st.files after.files)
    (sound : TaskSound sha after.files st.pid next)
    (foreign : ∀ pid, pid ≠ st.pid → ∀ counter,
      tmpOf after.files (.pub pid counter) = tmpOf st.files (.pub pid counter)) :
    ReactorStep sha st entry task (after, next) where
  tree := effect.keeps holds
  sound := sound
  regular := fun _ _ => effect.regular
  blob := fun _ present => Or.inl (effect.blob present)
  foreign := foreign

theorem reactorStep_quiet {next : Task} (holds : StoreInvariant sha st.files)
    (sound : TaskSound sha st.files st.pid next) :
    ReactorStep sha st entry task (st, next) :=
  reactorStep_of_effect holds (TreeEffect.refl : TreeEffect sha none st.files st.files) sound
    (fun _ _ _ => rfl)

/-- The reactor removes a file that is not a link under tmp/. -/
theorem reactorStep_unlink {path : Path} {next : Task} (holds : StoreInvariant sha st.files)
    (outside : ∀ name, path ≠ .blobs name) (own : ∀ pid counter, path ≠ .tmp (.pub pid counter))
    (sound : TaskSound sha (unlink sys st.files path).1 st.pid next) :
    ReactorStep sha st entry task (st.withFiles (unlink sys st.files path).1, next) := by
  refine reactorStep_of_effect holds (treeEffect_unlink outside) sound ?_
  intro pid _ counter
  rw [Store.withFiles_files]
  rcases unlink_files sys st.files path with same | gone
  · rw [same]
  · rw [gone]
    exact Function.update_of_ne (own pid counter).symm _ _

/-- The reactor removes a blob that no entry leads to. -/
theorem reactorStep_sweep {name : Bytes} {dryRun : Bool} {live : List Bytes}
    {stream : DirStream} (holds : StoreInvariant sha st.files)
    (sweeps : Sweeps task entry name) (orphan : ∀ entry, published st.files entry ≠ some name)
    (sound : TaskSound sha st.files st.pid (.sweeping dryRun live stream)) :
    ReactorStep sha st entry task
      (st.withFiles (unlink sys st.files (.blobs name)).1, .sweeping dryRun live stream) := by
  rcases unlink_files sys st.files (.blobs name) with same | gone
  · rw [same]
    exact reactorStep_quiet holds sound
  · rw [gone]
    constructor
    · apply holds.sweep (packagesOf_update_blobs st.files none name)
      intro digest
      rw [blobsOf_update_blobs]
      by_cases own : digest = name
      · rw [own, Function.update_self]
        exact Or.inr ⟨rfl, orphan⟩
      · rw [Function.update_of_ne own]
        exact Or.inl rfl
    · exact sound
    · intro entry content present
      rw [Store.withFiles_files, packagesOf_update_blobs] at present
      exact present
    · intro digest present
      by_cases own : digest = name
      · rw [own]
        exact Or.inr sweeps
      · left
        rw [Store.withFiles_files, blobsOf_update_blobs, Function.update_of_ne own]
        exact present
    · intro pid _ counter
      rw [Store.withFiles_files, tmpOf_update_blobs]

theorem walkStep_some {live filled : SlotSet} {name : Bytes}
    (walked : walkStep sys st live name = some filled) :
    filled.slots = live.slots ∨ ∃ digest, filled.slots = live.slots ++ [digest] := by
  unfold walkStep at walked
  repeat' split at walked
  all_goals first
    | exact Or.inl (congrArg SlotSet.slots (Option.some.inj walked)).symm
    | exact Or.inr ⟨_, pushSlot_some walked⟩

/-- The walk takes the digest of an entry it comes by. -/
theorem walkStep_published {live filled : SlotSet} {name digest : Bytes}
    (walked : walkStep sys st live name = some filled) (valid : storeNameIsValid name = true)
    (found : published st.files name = some digest) : digest ∈ filled.slots := by
  have head := (storeNameIsValid.text valid).head
  unfold walkStep at walked
  rw [if_neg head, if_neg (by simp [valid]),
    rawEntryPath_of_lt _ (storeNameIsValid.length_lt valid)] at walked
  dsimp only at walked
  rw [published_eq_some.mp found] at walked
  rw [pushSlot_some walked]
  exact List.mem_append_right _ List.mem_cons_self

theorem sweepStep_cases (sys : Sys) (dryRun : Bool) (slots : List Bytes) (st : Store)
    (name : Bytes) :
    sweepStep sys dryRun (liveIndex slots) st name = st ∨
      dryRun = false ∧ name ∉ liveIndex slots ∧
        sweepStep sys dryRun (liveIndex slots) st name =
          st.withFiles (unlink sys st.files (.blobs name)).1 := by
  unfold sweepStep
  split
  next => exact Or.inl rfl
  next =>
    split
    next => exact Or.inl rfl
    next dead =>
      rw [search_liveIndex, ← mem_liveIndex] at dead
      split
      next => exact Or.inl rfl
      next path located =>
        obtain rfl := blobPath_eq_some located
        cases dryRun with
        | true => exact Or.inl rfl
        | false => exact Or.inr ⟨rfl, dead, rfl⟩

/-! One call of the reactor, task by task. -/

theorem reactorStep_checking_sound (sys : Sys) (holds : StoreInvariant sha st.files) {job : Job}
    {pc : ResolvePc} (uploaded : Uploaded sha st.files job) :
    ReactorStep sha st entry (.checking job pc) (reactorStep sys st entry (.checking job pc)) := by
  have stands : StageSound sha st.files st.pid job .access := by
    intro content present
    obtain ⟨other, same, hashed⟩ := uploaded.hashed _ present
    rw [Node.regular.inj same]
    exact hashed
  rw [reactorStep]
  split
  next => exact reactorStep_quiet holds uploaded
  next =>
    apply reactorStep_quiet holds
    split
    next => exact ⟨uploaded, stands⟩
    next => exact uploaded.source
  next => exact reactorStep_quiet holds ⟨uploaded, stands⟩
  next => exact reactorStep_quiet holds uploaded.source

theorem reactorStep_publishing_sound (sys : Sys) (holds : StoreInvariant sha st.files) {job : Job}
    {stage : Stage} (uploaded : Uploaded sha st.files job)
    (stands : StageSound sha st.files st.pid job stage) :
    ReactorStep sha st entry (.publishing job stage)
      (reactorStep sys st entry (.publishing job stage)) := by
  obtain ⟨owner, counter, source⟩ := uploaded.source
  have effect := publishStep_effect sys stands uploaded.valid (by simp [source]) (by
    intro _ target link
    obtain ⟨_, other, _⟩ := uploaded.hashed _ link
    contradiction)
  have foreign : ∀ pid, pid ≠ st.pid → ∀ counter,
      tmpOf (publishStep sys st job stage).1.files (.pub pid counter) =
        tmpOf st.files (.pub pid counter) := by
    intro pid other counter
    rcases publishStep_tmp sys stands
      (fun own same => other (TmpName.pub.inj same).1) with same | ⟨own, _⟩
    · exact same
    · rw [source] at own
      simp at own
  have later : Uploaded sha (publishStep sys st job stage).1.files job := by
    apply uploaded.stable
    rw [source]
    exact (publishStep_tmp sys stands (by simp)).imp_right And.right
  rw [reactorStep]
  split
  next after next stepped =>
    have promise := publishStep_sound sys holds stands uploaded.valid (by rw [stepped])
    rw [stepped] at effect foreign later promise
    exact reactorStep_of_effect holds effect ⟨later, promise⟩ foreign
  next after result stepped =>
    rw [stepped] at effect foreign
    exact reactorStep_of_effect holds effect trivial foreign

theorem reactorStep_unsigning_sound (sys : Sys) (holds : StoreInvariant sha st.files) {sigPath path : Path}
    (sound : TaskSound sha st.files st.pid (.unsigning sigPath path)) :
    ReactorStep sha st entry (.unsigning sigPath path)
      (reactorStep sys st entry (.unsigning sigPath path)) := by
  obtain ⟨⟨sig, rfl, _⟩, entryLink⟩ := sound
  have step : ∀ next, TaskSound sha (unlink sys st.files (.packages sig)).1 st.pid next →
      ReactorStep sha st entry (.unsigning (.packages sig) path)
        (st.withFiles (unlink sys st.files (.packages sig)).1, next) :=
    fun next stands => reactorStep_unlink holds (by simp) (by simp) stands
  rw [reactorStep]
  split
  next files removed =>
    rw [removed] at step
    exact step .idle trivial
  next files result _ removed =>
    rw [removed] at step
    exact step (.withdrawing path) entryLink

/-- At its end the walk has every entry, or it was linked since. -/
theorem reactorStep_walked_sound (sys : Sys) (holds : StoreInvariant sha st.files) {dryRun : Bool}
    {live : SlotSet} {stream : DirStream}
    (sound : TaskSound sha st.files st.pid (.walking dryRun live stream))
    (lists : ∀ name, stream.opened name = true →
      name ∈ stream.returned ∨ name ∈ stream.touched) :
    ReactorStep sha st none (.walking dryRun live stream)
      (reactorStep sys st none (.walking dryRun live stream)) := by
  refine reactorStep_quiet holds ⟨live.slots, rfl, ?_⟩
  intro name digest found
  rcases sound name digest found with collected | touched | ⟨opened, owed⟩
  · exact Or.inl collected
  · exact Or.inr touched
  · rcases lists name opened with returned | touched
    · exact absurd returned owed
    · exact Or.inr touched

/-- A name the walk is given is no longer owed to it. -/
theorem reactorStep_walking_sound (sys : Sys) (holds : StoreInvariant sha st.files) {dryRun : Bool}
    {live : SlotSet} {stream : DirStream} {name : Bytes}
    (sound : TaskSound sha st.files st.pid (.walking dryRun live stream)) :
    ReactorStep sha st (some name) (.walking dryRun live stream)
      (reactorStep sys st (some name) (.walking dryRun live stream)) := by
  rw [reactorStep]
  split
  next => exact reactorStep_quiet holds trivial
  next filled walked =>
    apply reactorStep_quiet holds
    intro other digest found
    rcases sound other digest found with collected | touched | ⟨opened, owed⟩
    · left
      rcases walkStep_some walked with same | ⟨more, grown⟩
      · rw [same]
        exact collected
      · rw [grown]
        exact List.mem_append_left _ collected
    · exact Or.inr (Or.inl touched)
    · by_cases here : other = name
      · left
        have valid := canonicalForm_valid (holds.published found).1
        rw [here] at found valid
        exact walkStep_published walked valid found
      · refine Or.inr (Or.inr ⟨opened, ?_⟩)
        rw [List.mem_cons, not_or]
        exact ⟨here, owed⟩

theorem reactorStep_sweeping_sound (sys : Sys) (holds : StoreInvariant sha st.files) {dryRun : Bool}
    {live : List Bytes} {stream : DirStream} {name : Bytes}
    (sound : TaskSound sha st.files st.pid (.sweeping dryRun live stream))
    (swept : dryRun = false → name ∉ live → ∀ entry ∈ stream.touched,
      published st.files entry ≠ some name) :
    ReactorStep sha st (some name) (.sweeping dryRun live stream)
      (reactorStep sys st (some name) (.sweeping dryRun live stream)) := by
  obtain ⟨slots, rfl, covers⟩ := sound
  rw [reactorStep]
  rcases sweepStep_cases sys dryRun slots st name with same | ⟨real, dead, swept_away⟩
  · rw [same]
    exact reactorStep_quiet holds ⟨slots, rfl, covers⟩
  · rw [swept_away]
    subst real
    -- Neither an entry the walk saw nor one linked since leads to the blob.
    have orphan : ∀ entry, published st.files entry ≠ some name := by
      intro entry found
      rcases covers entry name found with collected | touched
      · exact dead (mem_liveIndex.mpr collected)
      · exact swept rfl dead entry touched found
    exact reactorStep_sweep holds ⟨_, stream, rfl, rfl, dead⟩ orphan ⟨slots, rfl, covers⟩

theorem reactorStep_sound (sys : Sys) (holds : StoreInvariant sha st.files)
    (sound : TaskSound sha st.files st.pid task)
    (lists : ∀ dryRun live stream, task = .walking dryRun live stream → entry = none →
      ∀ name, stream.opened name = true → name ∈ stream.returned ∨ name ∈ stream.touched)
    (swept : ∀ digest live stream, entry = some digest → task = .sweeping false live stream →
      digest ∉ live → ∀ name ∈ stream.touched, published st.files name ≠ some digest) :
    ReactorStep sha st entry task (reactorStep sys st entry task) := by
  cases task with
  | idle => exact reactorStep_quiet holds trivial
  | checking job pc => exact reactorStep_checking_sound sys holds sound
  | dropping path =>
      obtain ⟨owner, counter, rfl⟩ := sound
      exact reactorStep_unlink holds (by simp) (by simp) trivial
  | publishing job stage => exact reactorStep_publishing_sound sys holds sound.1 sound.2
  | unsigning sigPath path => exact reactorStep_unsigning_sound sys holds sound
  | withdrawing path =>
      obtain ⟨canonical, rfl, _⟩ := sound
      exact reactorStep_unlink holds (by simp) (by simp) trivial
  | walking dryRun live stream =>
      cases entry with
      | none => exact reactorStep_walked_sound sys holds sound (lists dryRun live stream rfl rfl)
      | some name => exact reactorStep_walking_sound sys holds sound
  | sweeping dryRun live stream =>
      cases entry with
      | none => exact reactorStep_quiet holds trivial
      | some name =>
          apply reactorStep_sweeping_sound sys holds sound
          intro real
          subst real
          exact swept name live stream rfl rfl

end Reactor

/-! ## Both processes -/

section Worlds

variable {sha : Sha256sum} {world : World} {event : Sys × Turn}

/-- A turn that reaches an idle reactor leaves the tree, or stages a file. -/
theorem World.Sound.put (sound : world.Sound sha) (name content : Bytes) :
    (world.put sha name content).Sound sha where
  tree := sound.tree.congr (packagesOf_update_tmp ..) (blobsOf_update_tmp ..)
  pids := sound.pids
  importing := by
    intro child present
    apply (sound.importing child present).stable
    · intro entry content regular
      rw [World.put, packagesOf_update_tmp] at regular
      exact regular
    · intro job stage _ _ there
      rw [World.put, blobsOf_update_tmp]
      exact there
    · intro counter
      rw [World.put, tmpOf_update_tmp, Function.update_of_ne (by simp)]
  reacting := by
    refine ⟨⟨world.pid, world.tmpCounter, rfl⟩, sha.valid content, ?_⟩
    intro node present
    dsimp only [World.put] at present
    rw [Function.update_self] at present
    exact ⟨content, (Option.some.inj present).symm, rfl⟩

theorem World.Sound.delete (sound : world.Sound sha) (name : Bytes) :
    (world.delete name).Sound sha := by
  unfold World.delete
  split
  next => exact sound
  next =>
    split
    next => exact sound
    next path located =>
      split
      next => exact ⟨sound.tree, sound.pids, sound.importing, entryPath_eq_some located⟩
      next sigPath found =>
        obtain ⟨sig, _, derived⟩ := Option.bind_eq_some_iff.mp found
        exact ⟨sound.tree, sound.pids, sound.importing, entryPath_eq_some derived,
          entryPath_eq_some located⟩

theorem World.Sound.react (sound : world.Sound sha) {sys : Sys} {entry : Option Bytes}
    (lists : Lists world (sys, .reactor entry)) (calm : Calm world (sys, .reactor entry)) :
    (worldStep sha world (sys, .reactor entry)).Sound sha := by
  have swept : ∀ digest live stream, entry = some digest →
      world.task = .sweeping false live stream → digest ∉ live →
      world.awaited ≠ some digest ∧
        ∀ name ∈ stream.touched, published world.files name ≠ some digest := by
    intro digest live stream same sweeping dead
    subst same
    have fresh : world.sweepsFresh digest = false := calm
    simpa [World.sweepsFresh, sweeping, dead] using fresh
  have step : ReactorStep sha world.store entry world.task
      (reactorStep sys world.store entry world.task) :=
    reactorStep_sound sys sound.tree sound.reacting
      (fun dryRun live stream walking none => lists dryRun live stream walking (by rw [none]))
      (fun digest live stream same sweeping dead =>
        (swept digest live stream same sweeping dead).2)
  refine ⟨step.tree, sound.pids, ?_, step.sound⟩
  intro child present
  apply (sound.importing child present).stable step.regular
  · intro job stage pc checked there
    rcases step.blob job.digest there with still | ⟨live, stream, sweeping, same, dead⟩
    · exact still
    · exact absurd (awaited_of present pc checked) (swept _ live stream same sweeping dead).1
  · exact step.foreign child.pid (sound.pids child present)

theorem World.Sound.import (sound : world.Sound sha) {sys : Sys} {entry : Option Bytes}
    (calm : Calm world (sys, .importer entry)) :
    (worldStep sha world (sys, .importer entry)).Sound sha := by
  unfold worldStep
  dsimp only
  split
  next => exact sound
  next child present =>
    have moved : ∀ job target, child.pc = .adopting job .adopt →
        world.files job.source ≠ some (.symlink target) := by
      intro job target pc link
      have still : world.movesLink = false := calm
      rw [movesLink_of present pc link] at still
      contradiction
    have step : ChildStep sha (world.childStore child) child.pc
        (importerStep sha sys (world.childStore child) child.manifest entry child.pc) :=
      importerStep_sound sys child.manifest entry sound.tree (sound.importing child present) moved
    obtain ⟨linkPath, effect, touches⟩ := step.effect
    refine ⟨effect.keeps sound.tree, ?_, ?_, ?_⟩
    · intro later same
      obtain ⟨pc, _, rfl⟩ := Option.map_eq_some_iff.mp same
      exact sound.pids child present
    · intro later same
      obtain ⟨pc, next, rfl⟩ := Option.map_eq_some_iff.mp same
      exact step.sound pc next
    · apply sound.reacting.stable child.pc.touches
      · exact fun pid counter => step.foreign _ (by simp)
      · exact fun digest => effect.blob
      · intro counter
        apply step.foreign
        intro other same
        exact sound.pids child present (TmpName.pub.inj same).1.symm
      · intro name digest found
        exact (effect.published found).imp_right (touches _)

theorem worldStep_sound (event : Sys × Turn) (sound : world.Sound sha)
    (condition : Lists world event ∧ Calm world event) : (worldStep sha world event).Sound sha := by
  obtain ⟨sys, turn⟩ := event
  cases turn with
  | reactor entry => exact sound.react condition.1 condition.2
  | importer entry => exact sound.import condition.2
  | put name content =>
      unfold worldStep
      dsimp only
      split
      next => exact sound.put name content
      next => exact sound
  | delete name =>
      unfold worldStep
      dsimp only
      split
      next => exact sound.delete name
      next => exact sound
  | collect dryRun =>
      unfold worldStep
      dsimp only
      split
      next =>
        refine ⟨sound.tree, sound.pids, sound.importing, ?_⟩
        intro name digest found
        refine Or.inr (Or.inr ⟨?_, by simp⟩)
        show (packagesOf world.files name).isSome = true
        rw [(sound.tree.published found).2.1]
        rfl
      next => exact sound
  | importStart pid manifest =>
      unfold worldStep
      dsimp only
      split
      next idle free =>
        split
        next => exact sound
        next other =>
          refine ⟨sound.tree, ?_, ?_, sound.reacting⟩
          · intro child same
            obtain rfl := Option.some.inj same
            exact other
          · intro child same
            obtain rfl := Option.some.inj same
            trivial
      next => exact sound

/-- As long as neither race happens, no entry dangles, whatever the order in
which the import child and the reactor take their calls. -/
theorem calm_run_no_dangling {st : Store} (holds : StoreInvariant sha st.files)
    {events : List (Sys × Turn)}
    (lists : Along Lists (worldStep sha) (World.start st) events)
    (calm : Along Calm (worldStep sha) (World.start st) events) :
    NoDangling (run (worldStep sha) (World.start st) events).files := by
  have sound : (run (worldStep sha) (World.start st) events).Sound sha :=
    run_invariant (motive := World.Sound sha)
      (fun _ event held both => worldStep_sound event held both) (World.sound_start holds)
      (lists.and calm)
  exact sound.tree.noDangling

end Worlds

/-! ### A collection around an import -/

def exportName : Bytes := ascii "foo-1-1-x86_64.tar.gz"

/-- A static export of one artifact; blobs/ holds bytes nothing points at. -/
def exportStore : Store where
  root := Root.standard
  pid := 1
  tmpCounter := 0
  files
    | .packages name => if name = exportName then some (.regular (ascii "a")) else none
    | .blobs digest =>
        if digest = Sha256sum.sample.digest (ascii "b") then some (.regular (ascii "b")) else none
    | .tmp _ => none

def allCalls (turns : List Turn) : List (Sys × Turn) :=
  turns.map fun turn => (Sys.succeeding fun _ => none, turn)

/-- An import has started when a collection reads packages/, where nothing is
published yet. Then the child imports the file, up to its last rename or past it. -/
def walkTurns : List Turn :=
  [.importStart 2 none, .collect false, .reactor (some exportName), .reactor none,
    .importer (some exportName)]

def importTurns : List Turn := List.replicate 9 (.importer none)

/-- The sweep takes the digest of the imported file away. -/
def racingEvents : List (Sys × Turn) :=
  allCalls (walkTurns ++ importTurns ++ [.reactor (some (Sha256sum.sample.digest (ascii "a")))])

def calmEvents : List (Sys × Turn) :=
  allCalls (walkTurns ++ importTurns ++ [.reactor (some (Sha256sum.sample.digest (ascii "b")))])

theorem storeInvariant_export : StoreInvariant .sample exportStore.files where
  entries := by
    intro name target present
    simp only [packagesOf, exportStore] at present
    split at present
    next => simp at present
    next => contradiction
  blobs := by
    intro name node present
    simp only [blobsOf, exportStore] at present
    split at present
    next same => exact ⟨ascii "b", (Option.some.inj present).symm, same.symm⟩
    next => contradiction

theorem lists_of_ne {world : World} {event : Sys × Turn} (other : event.2 ≠ .reactor none) :
    Lists world event :=
  fun _ _ _ _ same => absurd same other

/-- The walk has returned the one file there is before it ends. -/
theorem lists_walk (rest : List Turn) (reads : ∀ turn ∈ rest, turn ≠ .reactor none) :
    Along Lists (worldStep .sample) (World.start exportStore) (allCalls (walkTurns ++ rest)) := by
  refine ⟨lists_of_ne (by simp), lists_of_ne (by simp), lists_of_ne (by simp), ?_,
    lists_of_ne (by simp), ?_⟩
  · intro dryRun live stream walking _ name opened
    have task : Task.walking dryRun live stream = .walking false .empty
        ⟨fun name => (packagesOf exportStore.files name).isSome, [exportName], []⟩ :=
      walking.symm.trans rfl
    obtain ⟨_, _, rfl⟩ := Task.walking.inj task
    left
    dsimp only [packagesOf, exportStore] at opened
    split at opened
    next same => rw [same]; exact List.mem_cons_self
    next => contradiction
  · apply along_of_forall
    intro event member world
    obtain ⟨turn, among, rfl⟩ := List.mem_map.mp member
    exact lists_of_ne (reads turn among)

/-- An entry dangles though `readdir` left nothing out. -/
theorem racing_import_dangles :
    StoreInvariant .sample exportStore.files ∧
      Along Lists (worldStep .sample) (World.start exportStore) racingEvents ∧
      ¬ NoDangling (run (worldStep .sample) (World.start exportStore) racingEvents).files := by
  refine ⟨storeInvariant_export, lists_walk _ (by simp), ?_⟩
  intro safe
  obtain ⟨found, gone⟩ :
      published (run (worldStep .sample) (World.start exportStore) racingEvents).files
          exportName = some (Sha256sum.sample.digest (ascii "a")) ∧
        stat (run (worldStep .sample) (World.start exportStore) racingEvents).files
          (.blobs (Sha256sum.sample.digest (ascii "a"))) = none := by
    decide +kernel
  have present := safe _ _ found
  rw [gone] at present
  exact absurd present (by simp)

/-- The same import and the same collection, but the sweep comes by the bytes
nothing points at. -/
theorem calm_import_keeps :
    NoDangling (run (worldStep .sample) (World.start exportStore) calmEvents).files ∧
      published (run (worldStep .sample) (World.start exportStore) calmEvents).files exportName =
        some (Sha256sum.sample.digest (ascii "a")) := by
  obtain ⟨calm, found⟩ :
      Along Calm (worldStep .sample) (World.start exportStore) calmEvents ∧
        published (run (worldStep .sample) (World.start exportStore) calmEvents).files
          exportName = some (Sha256sum.sample.digest (ascii "a")) := by
    decide +kernel
  exact ⟨calm_run_no_dangling storeInvariant_export (lists_walk _ (by simp)) calm, found⟩

end CixCache
