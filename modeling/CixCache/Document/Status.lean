import CixCache.JsonWriter
import CixCache.Server.Upload
import CixCache.Store.Version

/-!
Contract: the counters of /api/v1/status.

Owns: `countEntry`, the distinct names, and `apiStatus` as a sequence of writer
calls; `Status`, the document as a tree; that the calls write that tree; and the
counters in terms of the entries a walk reports.

Does not own: the clock and the request counters, which are given.
-/

namespace CixCache

open CixCache.Lib

/-! ## Functions of the source -/

/-- `struct list_ctx` -/
structure ListCtx where
  count : Nat
  unstamped : Nat
  installers : Nat
  installerBytes : Int
  bytes : Int
  names : SlotSet
deriving DecidableEq, Repr

def ListCtx.zeroed : ListCtx := ⟨0, 0, 0, 0, 0, .empty⟩

def rememberName (sys : Sys) (lc : ListCtx) (shortName : Bytes) : ListCtx :=
  match pushSlot sys lc.names (snprintf storeNameMax shortName) with
  | none => lc
  | some names => { lc with names := names }

/-- Bytes are added when there are any. -/
def ListCtx.addBytes (lc : ListCtx) (installer : Bool) (size : Int) : ListCtx :=
  if size > 0 then
    if installer then { lc with installerBytes := lc.installerBytes + size }
    else { lc with bytes := lc.bytes + size }
  else lc

def countEntry (sys : Sys) : WalkCallback ListCtx :=
  fun lc name _ size _ =>
    let shortName := (storeSplitDisplay name).name
    -- A signature's bytes belong with whatever it signs.
    if storeIsSignature name then some (lc.addBytes (storeIsInstaller name) (offT size))
    else
      let lc := if storeArchOf name = none then { lc with unstamped := lc.unstamped + 1 } else lc
      if storeIsInstaller name then
        some ({ lc with installers := lc.installers + 1 }.addBytes true (offT size))
      else
        let lc := rememberName sys lc shortName
        some ({ lc with count := lc.count + 1 }.addBytes false (offT size))

/-- The names that differ from the one before. -/
def distinctRuns : Option Bytes → List Bytes → Nat
  | _, [] => 0
  | before, name :: rest => (if before = some name then 0 else 1) + distinctRuns (some name) rest

def distinctNames (env : DocEnv) (lc : ListCtx) : Nat :=
  if lc.names.slots.length = 0 then 0
  else distinctRuns none (env.routine.sort strcmp lc.names.slots)

/-- What the document takes from elsewhere: the build, the clock, the counters. -/
structure ServerFacts where
  buildVersion : Bytes
  buildTime : Bytes
  buildDirty : Bool
  uptimeMs : Int
  requests : Int
  artifactHits : Int
  artifactMisses : Int
  artifactAliases : Int
  servedBytes : Int
deriving DecidableEq, Repr

/-- `pkgs`; the result of the walk is not looked at. -/
def statusCounters (sys : Sys) (st : Store) : ListCtx :=
  (storeWalk sys st (countEntry sys) .zeroed).getD .zeroed

/-- The build, shaped like a record of the listing. -/
def writeBuild (w : JsonWriter) (facts : ServerFacts) : JsonWriter :=
  let split := storeSplitDisplay facts.buildVersion
  let w := jwStr (jwKey (jwObjOpen w) (ascii "identity")) facts.buildVersion
  let w := jwStr (jwKey w (ascii "artifact")) split.name
  let w := jwStr (jwKey w (ascii "version")) split.version
  let w := jwInt (jwKey w (ascii "release")) split.release
  let w := jwStr (jwKey w (ascii "arch")) split.arch
  let w := jwStr (jwKey w (ascii "time")) facts.buildTime
  jwObjClose (jwBool (jwKey w (ascii "dirty")) facts.buildDirty)

def apiStatus (env : DocEnv) (conf : Conf) (facts : ServerFacts) (req : HttpRequest) (st : Store)
    (w : JsonWriter) : JsonWriter :=
  let pkgs := statusCounters env.sys st
  let w := writeBuild (jwKey (jwObjOpen w) (ascii "build")) facts
  -- Where the store lives is operator information.
  let w := if bearerOk req conf.pushToken then jwStr (jwKey w (ascii "root")) st.root.text else w
  let w := jwInt (jwKey w (ascii "uptime_seconds")) (facts.uptimeMs.tdiv 1000)
  let w := jwInt (jwKey w (ascii "requests")) facts.requests
  let w := jwInt (jwKey w (ascii "artifact_hits")) facts.artifactHits
  let w := jwInt (jwKey w (ascii "artifact_misses")) facts.artifactMisses
  let w := jwInt (jwKey w (ascii "artifact_aliases")) facts.artifactAliases
  let w := jwInt (jwKey w (ascii "served_bytes")) facts.servedBytes
  let w := jwInt (jwKey w (ascii "unstamped")) pkgs.unstamped
  let w := jwInt (jwKey w (ascii "installers")) pkgs.installers
  let w := jwInt (jwKey w (ascii "installer_bytes")) pkgs.installerBytes
  let w := jwInt (jwKey w (ascii "packages")) pkgs.count
  let w := jwInt (jwKey w (ascii "unique_packages")) (distinctNames env pkgs)
  let w := jwInt (jwKey w (ascii "package_bytes")) pkgs.bytes
  let w := jwBool (jwKey w (ascii "pull_open")) (conf.pullToken == [])
  jwObjClose (jwBool (jwKey w (ascii "push_configured")) (conf.pushToken != []))

/-! ## The document as a tree -/

structure Status where
  facts : ServerFacts
  root : Option Bytes
  unstamped : Nat
  installers : Nat
  installerBytes : Int
  packages : Nat
  uniquePackages : Nat
  packageBytes : Int
  pullOpen : Bool
  pushConfigured : Bool
deriving DecidableEq, Repr

def ServerFacts.buildJson (facts : ServerFacts) : JsonValue :=
  .object [(ascii "identity", .string facts.buildVersion),
    (ascii "artifact", .string (storeSplitDisplay facts.buildVersion).name),
    (ascii "version", .string (storeSplitDisplay facts.buildVersion).version),
    (ascii "release", .number (printedInt (storeSplitDisplay facts.buildVersion).release)),
    (ascii "arch", .string (storeSplitDisplay facts.buildVersion).arch),
    (ascii "time", .string facts.buildTime), (ascii "dirty", .boolean facts.buildDirty)]

def Status.json (status : Status) : JsonValue :=
  .object ([(ascii "build", status.facts.buildJson)] ++
    (status.root.toList.map (fun root => (ascii "root", .string root)) ++
      [(ascii "uptime_seconds", .number (printedInt (status.facts.uptimeMs.tdiv 1000))),
        (ascii "requests", .number (printedInt status.facts.requests)),
        (ascii "artifact_hits", .number (printedInt status.facts.artifactHits)),
        (ascii "artifact_misses", .number (printedInt status.facts.artifactMisses)),
        (ascii "artifact_aliases", .number (printedInt status.facts.artifactAliases)),
        (ascii "served_bytes", .number (printedInt status.facts.servedBytes)),
        (ascii "unstamped", .number (printedInt status.unstamped)),
        (ascii "installers", .number (printedInt status.installers)),
        (ascii "installer_bytes", .number (printedInt status.installerBytes)),
        (ascii "packages", .number (printedInt status.packages)),
        (ascii "unique_packages", .number (printedInt status.uniquePackages)),
        (ascii "package_bytes", .number (printedInt status.packageBytes)),
        (ascii "pull_open", .boolean status.pullOpen),
        (ascii "push_configured", .boolean status.pushConfigured)]))

def statusOf (env : DocEnv) (conf : Conf) (facts : ServerFacts) (req : HttpRequest) (st : Store) :
    Status :=
  let pkgs := statusCounters env.sys st
  { facts := facts
    root := if bearerOk req conf.pushToken then some st.root.text else none
    unstamped := pkgs.unstamped
    installers := pkgs.installers
    installerBytes := pkgs.installerBytes
    packages := pkgs.count
    uniquePackages := distinctNames env pkgs
    packageBytes := pkgs.bytes
    pullOpen := conf.pullToken == []
    pushConfigured := conf.pushToken != [] }

theorem writes_build (facts : ServerFacts) : WritesValue (writeBuild · facts) facts.buildJson :=
  (WritesMembers.append ((writes_str _).member _)
    (WritesMembers.append ((writes_str _).member _)
      (WritesMembers.append ((writes_str _).member _)
        (WritesMembers.append ((writes_int _).member _)
          (WritesMembers.append ((writes_str _).member _)
            (WritesMembers.append ((writes_str _).member _) ((writes_bool _).member _))))))).object

/-- The calls of `api_status` write the tree. -/
theorem writes_status (env : DocEnv) (conf : Conf) (facts : ServerFacts) (req : HttpRequest)
    (st : Store) :
    WritesValue (apiStatus env conf facts req st) (statusOf env conf facts req st).json := by
  have root : WritesMembers
      (fun w => if bearerOk req conf.pushToken then jwStr (jwKey w (ascii "root")) st.root.text
        else w)
      ((statusOf env conf facts req st).root.toList.map fun root => (ascii "root", .string root)) := by
    unfold statusOf
    dsimp only
    split
    next => exact (writes_str _).member _
    next => exact WritesMembers.nil
  have number := fun (key : String) (v : Int) => (writes_int v).member (ascii key)
  let pkgs := statusCounters env.sys st
  have switches := ((writes_bool (conf.pullToken == [])).member (ascii "pull_open")).append
    ((writes_bool (conf.pushToken != [])).member (ascii "push_configured"))
  have packages := (number "packages" pkgs.count).append
    ((number "unique_packages" (distinctNames env pkgs)).append
      ((number "package_bytes" pkgs.bytes).append switches))
  have counters := (number "unstamped" pkgs.unstamped).append
    ((number "installers" pkgs.installers).append
      ((number "installer_bytes" pkgs.installerBytes).append packages))
  have requests := (number "requests" facts.requests).append
    ((number "artifact_hits" facts.artifactHits).append
      ((number "artifact_misses" facts.artifactMisses).append
        ((number "artifact_aliases" facts.artifactAliases).append
          ((number "served_bytes" facts.servedBytes).append counters))))
  exact (((writes_build facts).member (ascii "build")).append
    (root.append ((number "uptime_seconds" (facts.uptimeMs.tdiv 1000)).append requests))).object

/-! ## What is counted -/

/-- The counters after some entries. -/
structure Counted (lc : ListCtx) (entries : List StoreEntry) : Prop where
  count : lc.count =
    entries.countP fun e => !storeIsSignature e.name && storeIsInstaller e.name == false
  installers : lc.installers =
    entries.countP fun e => !storeIsSignature e.name && storeIsInstaller e.name == true
  bytes : lc.bytes = presentBytes (entries.filter fun e => storeIsInstaller e.name == false)
  installerBytes : lc.installerBytes =
    presentBytes (entries.filter fun e => storeIsInstaller e.name == true)

section Counting

variable {sys : Sys} {st : Store}

/-- The counters a document sums up. -/
structure SameCounts (left right : ListCtx) : Prop where
  count : left.count = right.count
  installers : left.installers = right.installers
  bytes : left.bytes = right.bytes
  installerBytes : left.installerBytes = right.installerBytes

theorem SameCounts.trans {first second third : ListCtx} (left : SameCounts first second)
    (right : SameCounts second third) : SameCounts first third :=
  ⟨left.count.trans right.count, left.installers.trans right.installers,
    left.bytes.trans right.bytes, left.installerBytes.trans right.installerBytes⟩

theorem rememberName_counts (sys : Sys) (lc : ListCtx) (shortName : Bytes) :
    SameCounts (rememberName sys lc shortName) lc := by
  unfold rememberName
  split <;> exact ⟨rfl, rfl, rfl, rfl⟩

theorem addBytes_package (lc : ListCtx) (size : Int) :
    SameCounts (lc.addBytes false size)
      { lc with bytes := lc.bytes + if size > 0 then size else 0 } := by
  unfold ListCtx.addBytes
  by_cases present : size > 0 <;> constructor <;> simp [present]

theorem addBytes_installer (lc : ListCtx) (size : Int) :
    SameCounts (lc.addBytes true size)
      { lc with installerBytes := lc.installerBytes + if size > 0 then size else 0 } := by
  unfold ListCtx.addBytes
  by_cases present : size > 0 <;> constructor <;> simp [present]

/-- One artifact or signature in the counters. -/
def ListCtx.counting (lc : ListCtx) (name : Bytes) (size : Int) : ListCtx :=
  let added := if size > 0 then size else 0
  { lc with
    count := lc.count + if !storeIsSignature name && storeIsInstaller name == false then 1 else 0
    installers :=
      lc.installers + if !storeIsSignature name && storeIsInstaller name == true then 1 else 0
    bytes := lc.bytes + if storeIsInstaller name == false then added else 0
    installerBytes := lc.installerBytes + if storeIsInstaller name == true then added else 0 }

theorem countEntry_counts (sys : Sys) (lc : ListCtx) (name digest : Bytes) (size : Option Nat)
    (mtime : Int) :
    ∃ next, countEntry sys lc name digest size mtime = some next ∧
      SameCounts next (lc.counting name (offT size)) := by
  have unstamped : SameCounts
      (if storeArchOf name = none then { lc with unstamped := lc.unstamped + 1 } else lc) lc := by
    split <;> exact ⟨rfl, rfl, rfl, rfl⟩
  unfold countEntry
  dsimp only
  generalize (if storeArchOf name = none then { lc with unstamped := lc.unstamped + 1 } else lc) =
    stamped at unstamped
  cases signature : storeIsSignature name <;> cases installer : storeIsInstaller name
  · have remembered := (rememberName_counts sys stamped (storeSplitDisplay name).name).trans
      unstamped
    refine ⟨_, rfl, (addBytes_package _ _).trans ?_⟩
    constructor <;> simp [remembered.count, remembered.installers, remembered.bytes,
      remembered.installerBytes, ListCtx.counting, signature, installer]
  · refine ⟨_, rfl, (addBytes_installer _ _).trans ?_⟩
    constructor <;> simp [unstamped.count, unstamped.installers, unstamped.bytes,
      unstamped.installerBytes, ListCtx.counting, signature, installer]
  · refine ⟨_, rfl, (addBytes_package _ _).trans ?_⟩
    constructor <;> simp [ListCtx.counting, signature, installer]
  · refine ⟨_, rfl, (addBytes_installer _ _).trans ?_⟩
    constructor <;> simp [ListCtx.counting, signature, installer]

theorem presentBytes_append_singleton (entries : List StoreEntry) (keep : StoreEntry → Bool)
    (e : StoreEntry) :
    presentBytes ((entries ++ [e]).filter keep) =
      presentBytes (entries.filter keep) +
        (if keep e then (if e.size > 0 then e.size else 0) else 0) := by
  unfold presentBytes
  rw [List.filter_append, List.map_append, List.sum_append]
  cases kept : keep e <;> simp [kept]

theorem Counted.entry {lc next : ListCtx} {entries : List StoreEntry} {e : StoreEntry}
    (counted : Counted lc entries) (same : SameCounts next (lc.counting e.name e.size)) :
    Counted next (entries ++ [e]) where
  count := by
    rw [same.count, List.countP_append, List.countP_singleton, ← counted.count]
    rfl
  installers := by
    rw [same.installers, List.countP_append, List.countP_singleton, ← counted.installers]
    rfl
  bytes := by
    rw [same.bytes, presentBytes_append_singleton, ← counted.bytes]
    rfl
  installerBytes := by
    rw [same.installerBytes, presentBytes_append_singleton, ← counted.installerBytes]
    rfl

/-- Every entry the walk reports is counted. -/
theorem Counted.walk {lc : ListCtx} {before : List StoreEntry} (counted : Counted lc before)
    (entries : List (Bytes × Bytes)) :
    ∃ filled, entries.foldlM (fun ctx entry => countEntry sys ctx entry.1 entry.2
        (storeBlobExists st entry.2) (sys.mtime (.packages entry.1))) lc = some filled ∧
      Counted filled (before ++ entries.map (entryOf sys st)) := by
  induction entries generalizing lc before with
  | nil => exact ⟨lc, rfl, by simpa using counted⟩
  | cons entry rest inductionHypothesis =>
      obtain ⟨next, stepped, same⟩ := countEntry_counts sys lc entry.1 entry.2
        (storeBlobExists st entry.2) (sys.mtime (.packages entry.1))
      have further : Counted next (before ++ [entryOf sys st entry]) := counted.entry same
      obtain ⟨filled, done, final⟩ := inductionHypothesis further
      refine ⟨filled, ?_, ?_⟩
      · rw [List.foldlM_cons, stepped]
        exact done
      · rw [List.append_assoc] at final
        exact final

/-- The counters of a directory that can be read. -/
theorem statusCounters_counted {names : List Bytes}
    (opened : sys.readdir .packages = some names) :
    Counted (statusCounters sys st) (storedEntries sys st names) := by
  have zeroed : Counted .zeroed [] := ⟨rfl, rfl, rfl, rfl⟩
  obtain ⟨filled, done, counted⟩ := zeroed.walk (listed st.files names)
  unfold statusCounters storeWalk
  rw [opened]
  dsimp only
  rw [walkEntries_eq, done]
  exact counted

end Counting

end CixCache
