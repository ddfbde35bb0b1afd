import CixCache.Store.Walk

/-!
Contract: the two offline passes that rename published entries.

Owns: `storeCanonicalize` and `storeSetArch` with their loops, the step both
share, and the induction principles by which a property of the tree that single
renames keep survives a whole pass.

Does not own: what the passes promise to an operator.
-/

namespace CixCache

/-! ## Functions of the source -/

/-- `rc`, `renamed` and `conflicts` of a pass. -/
structure Migration where
  failed : Bool
  renamed : Nat
  conflicts : Nat
deriving DecidableEq, Repr

/-- The end of both loops: skip a taken target, report in a dry run, rename. -/
def migrateEntry (sys : Sys) (dryRun : Bool) (source target : Path) (st : Store)
    (pass : Migration) : Store × Migration :=
  if (st.files target).isSome then (st, { pass with conflicts := pass.conflicts + 1 })
  else if dryRun then (st, { pass with renamed := pass.renamed + 1 })
  else
    match rename sys st.files source target with
    | none => (st, { pass with failed := true })
    | some files => (st.withFiles files, { pass with renamed := pass.renamed + 1 })

def canonicalizeLoop (sys : Sys) (dryRun : Bool) :
    List Bytes → Store → Migration → Store × Migration
  | [], st, pass => (st, pass)
  | name :: rest, st, pass =>
      match storeCanonicalName name with
      | some (canonical, true) =>
          match rawEntryPath st.root name, rawEntryPath st.root canonical with
          | some source, some target =>
              let (next, counted) := migrateEntry sys dryRun source target st pass
              canonicalizeLoop sys dryRun rest next counted
          | _, _ => canonicalizeLoop sys dryRun rest st { pass with failed := true }
      | _ => canonicalizeLoop sys dryRun rest st pass

/-- `none` when the store cannot be read. -/
def storeCanonicalize (sys : Sys) (st : Store) (dryRun : Bool) : Store × Option Migration :=
  match storeWalk sys st (collectNoncanonical sys) .empty with
  | none => (st, none)
  | some set =>
      let (migrated, pass) := canonicalizeLoop sys dryRun set.slots st ⟨false, 0, 0⟩
      (migrated, some pass)

def setArchLoop (sys : Sys) (arch : Bytes) (dryRun : Bool) :
    List Bytes → Store → Migration → Store × Migration
  | [], st, pass => (st, pass)
  | name :: rest, st, pass =>
      let toName := archName name arch
      if storeNameMax ≤ toName.length then
        setArchLoop sys arch dryRun rest st { pass with failed := true }
      else
        match rawEntryPath st.root name, rawEntryPath st.root toName with
        | some source, some target =>
            let (next, counted) := migrateEntry sys dryRun source target st pass
            setArchLoop sys arch dryRun rest next counted
        | _, _ => setArchLoop sys arch dryRun rest st { pass with failed := true }

/-- `none` for an architecture the store does not know, and when the store
cannot be read. -/
def storeSetArch (sys : Sys) (st : Store) (arch : Bytes) (dryRun : Bool) :
    Store × Option Migration :=
  if gArches.contains arch = false then (st, none)
  else
    match storeWalk sys st (collectArchless sys) .empty with
    | none => (st, none)
    | some set =>
        let (migrated, pass) := setArchLoop sys arch dryRun set.slots st ⟨false, 0, 0⟩
        (migrated, some pass)

/-! ## Passes over the tree -/

section Passes

variable {sys : Sys} {st : Store}

/-- A step of a pass keeps the tree or renames onto a free target. -/
theorem migrateEntry_induct {dryRun : Bool} {source target : Path} {pass : Migration}
    {motive : Files → Prop} (start : motive st.files)
    (step : ∀ after, st.files target = none →
      rename sys st.files source target = some after → motive after) :
    motive (migrateEntry sys dryRun source target st pass).1.files := by
  unfold migrateEntry
  split
  next => exact start
  next free =>
    split
    next => exact start
    next =>
      split
      next => exact start
      next after renamed =>
        apply step after _ renamed
        simpa using free

/-- A stamping only renames a name to its spelling with the architecture. -/
theorem setArchLoop_induct {arch : Bytes} {dryRun : Bool} {names : List Bytes} {pass : Migration}
    {motive : Files → Prop} (start : motive st.files)
    (step : ∀ name ∈ names, ∀ files after, (archName name arch).length < storeNameMax →
      files (.packages (archName name arch)) = none → motive files →
        rename sys files (.packages name) (.packages (archName name arch)) = some after →
          motive after) :
    motive (setArchLoop sys arch dryRun names st pass).1.files := by
  induction names generalizing st pass with
  | nil => exact start
  | cons name rest inductionHypothesis =>
      have restStep := fun other (member : other ∈ rest) =>
        step other (List.mem_cons_of_mem _ member)
      unfold setArchLoop
      dsimp only
      split
      next => exact inductionHypothesis start restStep
      next fits =>
        split
        next source target sourcePath targetPath =>
          apply inductionHypothesis _ restStep
          apply migrateEntry_induct start
          intro after free renamed
          unfold rawEntryPath at sourcePath targetPath
          split at sourcePath
          next => contradiction
          next =>
            split at targetPath
            next => contradiction
            next =>
              obtain rfl := Option.some.inj sourcePath
              obtain rfl := Option.some.inj targetPath
              exact step name List.mem_cons_self st.files after (Nat.lt_of_not_le fits) free
                start renamed
        next => exact inductionHypothesis start restStep

/-- Every name a stamping collects is reported by the walk and carries no
architecture. -/
theorem mem_archless {names : List Bytes} {name : Bytes}
    (member : name ∈ (listed st.files names).filterMap fun entry =>
      if storeNameIsValid entry.1 = false ∨ (storeArchOf entry.1).isSome then none
      else some (snprintf storeNameMax entry.1)) :
    storeArchOf name = none ∧ ∃ digest, published st.files name = some digest := by
  obtain ⟨entry, inside, collected⟩ := List.mem_filterMap.mp member
  obtain ⟨_, valid, found⟩ := mem_listed.mp inside
  split at collected
  next => contradiction
  next archless =>
    rw [snprintf_of_lt (storeNameIsValid.length_lt valid)] at collected
    obtain rfl := Option.some.inj collected
    refine ⟨?_, entry.2, found⟩
    simp only [not_or] at archless
    simpa using archless.2

end Passes

end CixCache
