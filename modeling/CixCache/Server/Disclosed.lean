import CixCache.Document.Status
import CixCache.Server.Activity
import CixCache.Server.Authority

/-!
Contract: what the documents behind the push token say.

Owns: `apiImportStatus`, and the texts of the documents that `dispatch_api` answers with; that
a text tells exactly what the request is recorded to be told; and what is left of it without
the token.

Does not own: the documents that say nothing the token guards.
-/

namespace CixCache

open CixCache.Lib

/-! ## Functions of the source -/

/-- `g_import_running`, `g_import_started_ms` and `g_import_last_status`, and the clock. -/
structure ImportFacts where
  running : Bool
  startedMs : Int
  lastStatus : Int
  nowMs : Int
deriving DecidableEq, Repr

/-- The seconds an import has been running for. -/
def ImportFacts.elapsed (facts : ImportFacts) : Int :=
  if facts.running then (facts.nowMs - facts.startedMs).tdiv 1000 else 0

def apiImportStatus (facts : ImportFacts) (w : JsonWriter) : JsonWriter :=
  let w := jwBool (jwKey (jwObjOpen w) (ascii "running")) facts.running
  let w := jwInt (jwKey w (ascii "elapsed_seconds")) facts.elapsed
  jwObjClose (jwInt (jwKey w (ascii "last_exit_status")) facts.lastStatus)

/-- What the guarded documents are made of, besides the store. -/
structure Sources where
  env : DocEnv
  facts : ServerFacts
  log : ActivityLog
  imports : ImportFacts

/-- The text of the document that `dispatch_api` answers with, where it is `api_status`,
`api_log` or `api_import_status` that answers. -/
def guardedText (sources : Sources) (conf : Conf) (st : Store) (req : HttpRequest)
    (endpoint : Bytes) : Option Bytes :=
  let operator := bearerOk req conf.pushToken
  let isGet := decide (req.method = ascii "GET")
  if isGet && endpoint == ascii "status" then
    some (apiStatus sources.env conf sources.facts req st jwInit).buf
  else if isGet && endpoint == ascii "artifacts" then none
  else if isGet && endpoint == ascii "log" then
    if operator then apiLog sources.log req.path else none
  else if isGet && endpoint == ascii "import-status" then
    if operator then some (apiImportStatus sources.imports jwInit).buf else none
  else none

/-! ## The documents as trees -/

/-- What a guarded document says. -/
inductive Told where
  | status (status : Status)
  | log (page : List LogEntry) (seq : Int)
  | importStatus (facts : ImportFacts)

def ImportFacts.json (facts : ImportFacts) : JsonValue :=
  .object
    [(ascii "running", .boolean facts.running),
      (ascii "elapsed_seconds", .number (printedInt facts.elapsed)),
      (ascii "last_exit_status", .number (printedInt facts.lastStatus))]

def Told.json : Told → JsonValue
  | .status told => told.json
  | .log page seq => logReport page seq
  | .importStatus facts => facts.json

/-- What the token guards of it. -/
def Told.privileges : Told → List Privilege
  | .status told => if told.root.isSome then [.storeRoot] else []
  | .log _ _ => [.activityLog]
  | .importStatus _ => [.importStatus]

/-- What is said is what the server has. -/
inductive Told.From (sources : Sources) (conf : Conf) (st : Store) (req : HttpRequest) :
    Told → Prop
  | status : From sources conf st req (.status (statusOf sources.env conf sources.facts req st))
  | log (page : List LogEntry) (kept : ∀ entry ∈ page, entry ∈ Set.range sources.log.ring) :
      From sources conf st req (.log page sources.log.seq)
  | importStatus : From sources conf st req (.importStatus sources.imports)

theorem writes_importStatus (facts : ImportFacts) :
    WritesValue (apiImportStatus facts) facts.json := by
  have running := (writes_bool facts.running).member (ascii "running")
  have elapsed := (writes_int facts.elapsed).member (ascii "elapsed_seconds")
  have status := (writes_int facts.lastStatus).member (ascii "last_exit_status")
  exact (running.append (elapsed.append status)).object

section Log

variable {log : ActivityLog}

/-- The loop of `api_log` writes entries of the ring and nothing else. -/
theorem apiLogLoop_page {turns : Nat} {i : Int} {w written : JsonWriter}
    (ends : apiLogLoop log turns i w = some written) :
    ∃ page : List LogEntry, (∀ entry ∈ page, entry ∈ Set.range log.ring) ∧
      written = page.foldl writeLogEntry w := by
  induction turns generalizing i w with
  | zero =>
      unfold apiLogLoop at ends
      split at ends
      next => exact ⟨[], by simp, (Option.some.inj ends).symm⟩
      next => contradiction
  | succ turns inductionHypothesis =>
      unfold apiLogLoop at ends
      split at ends
      next => exact ⟨[], by simp, (Option.some.inj ends).symm⟩
      next =>
        simp only [Option.bind_eq_bind, Option.bind_eq_some_iff] at ends
        obtain ⟨_, _, slot, _, next, _, rest⟩ := ends
        obtain ⟨page, kept, same⟩ := inductionHypothesis rest
        split at same
        next => exact ⟨page, kept, same⟩
        next =>
          refine ⟨log.ring slot :: page, ?_, same⟩
          intro entry member
          rcases List.mem_cons.mp member with here | later
          · exact ⟨slot, here.symm⟩
          · exact kept entry later

/-- Whatever page `api_log` answers with, its entries are those of the ring. -/
theorem apiLog_page {rawPath text : Bytes} (answered : apiLog log rawPath = some text) :
    ∃ page : List LogEntry, (∀ entry ∈ page, entry ∈ Set.range log.ring) ∧
      text = (logReport page log.seq).text := by
  unfold apiLog at answered
  simp only [Option.bind_eq_bind, Option.bind_eq_some_iff] at answered
  obtain ⟨_, _, _, _, w, looped, buffer⟩ := answered
  obtain ⟨page, kept, rfl⟩ := apiLogLoop_page looped
  exact ⟨page, kept, (Option.some.inj buffer).symm.trans (writes_report page log.seq)⟩

end Log

/-! ## Who is told -/

section Told

variable {sources : Sources} {conf : Conf} {sys : Sys} {st : Store} {importRunning : Bool}
  {conn : Conn} {req : HttpRequest} {endpoint text : Bytes}

/-- The root is in the status of a request with the token only. -/
theorem statusOf_root (sources : Sources) (conf : Conf) (st : Store) (req : HttpRequest)
    (conn : Conn) :
    (apiStatusPrivileged conf conn req).events =
      (Told.status (statusOf sources.env conf sources.facts req st)).privileges := by
  unfold apiStatusPrivileged Told.privileges statusOf
  dsimp only
  split <;> rfl

/-- A request is told by its document exactly what it is recorded to be told. -/
theorem guardedText_told (answered : guardedText sources conf st req endpoint = some text) :
    ∃ told : Told, told.From sources conf st req ∧ text = told.json.text ∧
      (privilegeHandlers.dispatchApi conf sys st importRunning conn req endpoint).events =
        told.privileges := by
  unfold guardedText at answered
  unfold Handlers.dispatchApi
  dsimp only at answered ⊢
  split at answered
  next status =>
    refine ⟨_, .status, ?_, ?_⟩
    · rw [← Option.some.inj answered]
      exact (writes_status _ _ _ _ _).document
    · rw [if_pos status, ← statusOf_root sources conf st req conn]
      exact List.append_nil _
  next noStatus =>
    rw [if_neg noStatus]
    split at answered
    next => contradiction
    next noArtifacts =>
      rw [if_neg noArtifacts]
      split at answered
      next log =>
        split at answered
        next operator =>
          obtain ⟨page, kept, written⟩ := apiLog_page answered
          refine ⟨_, .log page kept, written, ?_⟩
          rw [if_pos log, if_pos operator]
          rfl
        next => contradiction
      next noLog =>
        rw [if_neg noLog]
        split at answered
        next importStatus =>
          split at answered
          next operator =>
            refine ⟨_, .importStatus, ?_, ?_⟩
            · rw [← Option.some.inj answered]
              exact (writes_importStatus _).document
            · rw [if_pos importStatus, if_pos operator]
              rfl
          next => contradiction
        next => contradiction

/-- Without the token a request gets no document but the status, and no root in it. -/
theorem guardedText_unauthorised (denied : bearerOk req conf.pushToken = false)
    (answered : guardedText sources conf st req endpoint = some text) :
    (statusOf sources.env conf sources.facts req st).root = none ∧
      text = (statusOf sources.env conf sources.facts req st).json.text := by
  have closed : ¬ bearerOk req conf.pushToken = true := by simp [denied]
  unfold guardedText at answered
  simp only [if_neg closed] at answered
  split at answered
  next =>
    constructor
    · unfold statusOf
      rw [if_neg closed]
    · rw [← Option.some.inj answered]
      exact (writes_status _ _ _ _ _).document
  next => simp at answered

end Told

end CixCache
