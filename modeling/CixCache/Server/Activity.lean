import Mathlib.Data.List.TakeWhile
import Mathlib.Order.MinMax
import CixCache.JsonWriter
import CixCache.Lib.Ring
import CixCache.Server.Parse

/-!
Contract: the activity log and the endpoint that tails it.

Owns: `serverLog` and the ring it writes, `queryInt`, `apiLog` with its loop; which
cursors a page is exact for; and that a client which polls with the last number it
was given sees every entry once.

A number is a `long long`: a computation that leaves its range, an index outside the
ring and a loop of more than LOG_RING turns are all `none`.

Does not own: who may read the log.
-/

namespace CixCache

open CixCache.Lib

/-! ## Functions of the source -/

/-- LOG_RING -/
def logRing : Nat := 512

/-- LOG_TEXT_MAX -/
def logTextMax : Nat := 200

/-- LLONG_MAX -/
def llongMax : Nat := 2 ^ 63 - 1

/-- The value of a signed computation that does not overflow. -/
def longLong (value : Int) : Option Int :=
  if -(llongMax : Int) - 1 ≤ value ∧ value ≤ llongMax then some value else none

/-- `struct log_entry` -/
structure LogEntry where
  seq : Int
  wallMs : Int
  level : Bytes
  text : Bytes
deriving DecidableEq, Repr

/-- `g_log` and `g_log_seq` -/
structure ActivityLog where
  ring : Fin logRing → LogEntry
  seq : Int

/-- Both are zero when the server starts. -/
def ActivityLog.start : ActivityLog := ⟨fun _ => ⟨0, 0, [], []⟩, 0⟩

/-- `g_log[index]`, which has to be within the ring. -/
def ringIndex (index : Int) : Option (Fin logRing) :=
  if fits : 0 ≤ index ∧ index.toNat < logRing then some ⟨index.toNat, fits.2⟩ else none

/-- A call of `server_log`, with the clock it reads and its formatted text. -/
structure LogCall where
  wallMs : Int
  level : Bytes
  text : Bytes
deriving DecidableEq, Repr

def serverLog (log : ActivityLog) (call : LogCall) : Option ActivityLog := do
  let slot ← ringIndex (log.seq.tmod logRing)
  let seq ← longLong (log.seq + 1)
  some
    { ring := Function.update log.ring slot
        ⟨seq, call.wallMs, snprintf 8 call.level, snprintf logTextMax call.text⟩
      seq := seq }

def serverLogs : ActivityLog → List LogCall → Option ActivityLog
  | log, [] => some log
  | log, call :: rest => do
      let next ← serverLog log call
      serverLogs next rest

/-- `strtoll(text, NULL, 10)` -/
def strtoll (text : Bytes) : Int := (strtol text).getD 0

abbrev ampersand : Byte := 38
abbrev equals : Byte := 61

/-- The loop of `query_int`; each turn but the last passes an ampersand. -/
def queryIntLoop (key : Bytes) : Nat → Bytes → Option Int
  | 0, _ => none
  | _ + 1, [] => none
  | fuel + 1, c :: rest =>
      let q := c :: rest
      if q.take key.length = key ∧ (q.drop key.length).head? = some equals then
        some (strtoll (q.drop (key.length + 1)))
      else if ampersand ∈ q then
        queryIntLoop key fuel ((q.dropWhile fun c => c ≠ ampersand).drop 1)
      else none

/-- `none` for -1. -/
def queryInt (path key : Bytes) : Option Int :=
  if questionMark ∈ path then
    queryIntLoop key path.length ((path.dropWhile fun c => c ≠ questionMark).drop 1)
  else none

def writeLogEntry (w : JsonWriter) (e : LogEntry) : JsonWriter :=
  let w := jwObjOpen w
  let w := jwInt (jwKey w (ascii "seq")) e.seq
  let w := jwInt (jwKey w (ascii "time_ms")) e.wallMs
  let w := jwStr (jwKey w (ascii "level")) e.level
  let w := jwStr (jwKey w (ascii "text")) e.text
  jwObjClose w

/-- The loop of `api_log`, which may still take so many turns. -/
def apiLogLoop (log : ActivityLog) : Nat → Int → JsonWriter → Option JsonWriter
  | turns, i, w =>
      if log.seq < i then some w
      else
        match turns with
        | 0 => none
        | turns + 1 => do
            let before ← longLong (i - 1)
            let slot ← ringIndex (before.tmod logRing)
            let e := log.ring slot
            let next ← longLong (i + 1)
            apiLogLoop log turns next (if e.seq ≠ i then w else writeLogEntry w e)

/-- Where the ring starts. -/
def oldestLogged (log : ActivityLog) : Option Int :=
  if (logRing : Int) < log.seq then longLong (log.seq - logRing) else some 0

/-- The document of `api_log`. -/
def apiLog (log : ActivityLog) (rawPath : Bytes) : Option Bytes := do
  let after := (queryInt rawPath (ascii "after")).getD 0
  let oldest ← oldestLogged log
  let after := if after < oldest then oldest else after
  let first ← longLong (after + 1)
  let w := jwArrOpen (jwKey (jwObjOpen jwInit) (ascii "entries"))
  let w ← apiLogLoop log logRing first w
  let w := jwInt (jwKey (jwArrClose w) (ascii "seq")) log.seq
  some (jwObjClose w).buf

/-! ## Pages -/

/-- What the so-and-so-many-th call writes. -/
def LogCall.entry (call : LogCall) (number : Nat) : LogEntry :=
  ⟨number, call.wallMs, snprintf 8 call.level, snprintf logTextMax call.text⟩

/-- The entries of calls that come after so many others. -/
def entriesFrom : Nat → List LogCall → List LogEntry
  | _, [] => []
  | count, call :: rest => call.entry (count + 1) :: entriesFrom (count + 1) rest

/-- The last LOG_RING entries. -/
def lastLogged (calls : List LogCall) : List LogEntry :=
  (entriesFrom 0 calls).drop (calls.length - logRing)

/-- Exactly the entries past the cursor among the last LOG_RING, each once, in
increasing order. -/
structure ExactPage (calls : List LogCall) (after : Int) (page : List LogEntry) : Prop where
  increasing : page.Pairwise fun earlier later => earlier.seq < later.seq
  exact : ∀ entry, entry ∈ page ↔ entry ∈ lastLogged calls ∧ after < entry.seq

def LogEntry.tree (e : LogEntry) : JsonValue :=
  .object
    [(ascii "seq", .number (printedInt e.seq)), (ascii "time_ms", .number (printedInt e.wallMs)),
      (ascii "level", .string e.level), (ascii "text", .string e.text)]

/-- The document that carries a page and the number of the last entry there is. -/
def logReport (page : List LogEntry) (seq : Int) : JsonValue :=
  .object
    [(ascii "entries", .array (page.map LogEntry.tree)), (ascii "seq", .number (printedInt seq))]

/-- The cursor a target carries. -/
def cursorOf (rawPath : Bytes) : Int := (queryInt rawPath (ascii "after")).getD 0

/-- After these calls the endpoint answers with an exact page, with no overflow, with
every index in the ring, and within LOG_RING turns of its loop. -/
def TailsExactly (calls : List LogCall) (rawPath : Bytes) : Prop :=
  ∃ log page, serverLogs .start calls = some log ∧
    apiLog log rawPath = some (logReport page log.seq).text ∧
    ExactPage calls (cursorOf rawPath) page

section Entries

variable {calls : List LogCall} {count : Nat}

@[simp] theorem entriesFrom_length (count : Nat) (calls : List LogCall) :
    (entriesFrom count calls).length = calls.length := by
  induction calls generalizing count with
  | nil => rfl
  | cons call rest inductionHypothesis =>
      rw [entriesFrom, List.length_cons, List.length_cons, inductionHypothesis]

theorem entriesFrom_append (count : Nat) (before calls : List LogCall) :
    entriesFrom count (before ++ calls) =
      entriesFrom count before ++ entriesFrom (count + before.length) calls := by
  induction before generalizing count with
  | nil => simp [entriesFrom]
  | cons call rest inductionHypothesis =>
      have further : count + (call :: rest).length = count + 1 + rest.length := by
        rw [List.length_cons]
        omega
      rw [List.cons_append, entriesFrom, entriesFrom, inductionHypothesis, further,
        List.cons_append]

theorem entriesFrom_seq (count : Nat) (calls : List LogCall) (number : Nat)
    (logged : number < (entriesFrom count calls).length) :
    (entriesFrom count calls)[number].seq = count + number + 1 := by
  induction calls generalizing count number with
  | nil => exact absurd logged (Nat.not_lt_zero number)
  | cons call rest inductionHypothesis =>
      cases number with
      | zero =>
          show ((count + 1 : Nat) : Int) = count + (0 : Nat) + 1
          simp
      | succ number =>
          have later : number < (entriesFrom (count + 1) rest).length := by
            rw [entriesFrom, List.length_cons] at logged
            omega
          show (entriesFrom (count + 1) rest)[number].seq = _
          rw [inductionHypothesis (count + 1) number later]
          push_cast
          omega

theorem entriesFrom_increasing (count : Nat) (calls : List LogCall) :
    (entriesFrom count calls).Pairwise fun earlier later => earlier.seq < later.seq := by
  rw [List.pairwise_iff_getElem]
  intro earlier later logged loggedLater before
  rw [entriesFrom_seq, entriesFrom_seq]
  omega

/-- Dropping so many entries keeps those with a greater number. -/
theorem mem_drop_entries {entry : LogEntry} (skipped : Nat) :
    entry ∈ (entriesFrom 0 calls).drop skipped ↔
      entry ∈ entriesFrom 0 calls ∧ (skipped : Int) < entry.seq := by
  rw [List.mem_drop_iff_getElem, List.mem_iff_getElem]
  constructor
  · rintro ⟨number, logged, rfl⟩
    refine ⟨⟨number + skipped, logged, by simp only [Nat.add_comm]⟩, ?_⟩
    rw [entriesFrom_seq]
    push_cast
    omega
  · rintro ⟨⟨number, logged, rfl⟩, newer⟩
    rw [entriesFrom_seq] at newer
    push_cast at newer
    have place : skipped + (number - skipped) = number := by omega
    exact ⟨number - skipped, by omega, by simp only [place]⟩

/-- What follows a cursor no older than the ring is exact. -/
theorem exactPage_drop {after : Int} {skipped : Nat}
    (clamped : (skipped : Int) = max after ((calls.length - logRing : Nat) : Int)) :
    ExactPage calls after ((entriesFrom 0 calls).drop skipped) where
  increasing := (entriesFrom_increasing 0 calls).sublist (List.drop_sublist _ _)
  exact := by
    intro entry
    unfold lastLogged
    rw [mem_drop_entries, mem_drop_entries, clamped, max_lt_iff]
    tauto

end Entries

/-! ## The ring after some calls -/

/-- The log as these calls leave it. -/
structure ActivityLog.Holds (log : ActivityLog) (calls : List LogCall) : Prop where
  seq : log.seq = calls.length
  ring : RingHolds log.ring (entriesFrom 0 calls)

section Ring

variable {log : ActivityLog} {calls : List LogCall}

theorem holds_start : ActivityLog.start.Holds [] := ⟨rfl, ringHolds_nil _⟩

theorem longLong_of_le {value : Nat} (small : value ≤ llongMax) :
    longLong (value : Int) = some (value : Int) := by
  unfold longLong
  rw [if_pos (by omega)]

theorem longLong_eq_some {value result : Int} (inRange : longLong value = some result) :
    result = value ∧ value ≤ llongMax := by
  unfold longLong at inRange
  split at inRange
  next bounds => exact ⟨(Option.some.inj inRange).symm, bounds.2⟩
  next => contradiction

/-- A number that is not negative has its slot in the ring. -/
theorem ringIndex_tmod (number : Nat) :
    ringIndex ((number : Int).tmod logRing) =
      some ⟨number % logRing, Nat.mod_lt _ (by decide)⟩ := by
  have remainder : ((number : Int).tmod logRing) = ((number % logRing : Nat) : Int) := rfl
  have below : number % logRing < logRing := Nat.mod_lt _ (by decide)
  unfold ringIndex
  rw [remainder, dif_pos ⟨Int.natCast_nonneg _, below⟩]
  rfl

theorem ActivityLog.Holds.serverLog (holds : log.Holds calls) (call : LogCall)
    (room : calls.length < llongMax) :
    ∃ next, serverLog log call = some next ∧ next.Holds (calls ++ [call]) := by
  have counted : longLong ((calls.length : Int) + 1) = some ((calls.length + 1 : Nat) : Int) :=
    longLong_of_le room
  have slot := ringIndex_tmod calls.length
  unfold CixCache.serverLog
  rw [holds.seq, slot, counted]
  refine ⟨_, rfl, ?_, ?_⟩
  · simp
  · rw [entriesFrom_append]
    have written := @RingHolds.push _ _ _ _ holds.ring
      ⟨calls.length % logRing, Nat.mod_lt _ (by decide)⟩ (by rw [entriesFrom_length]) (call.entry (calls.length + 1))
    simpa [entriesFrom, LogCall.entry] using written

theorem ActivityLog.Holds.serverLogs (holds : log.Holds calls) (more : List LogCall)
    (room : calls.length + more.length ≤ llongMax) :
    ∃ next, serverLogs log more = some next ∧ next.Holds (calls ++ more) := by
  induction more generalizing log calls with
  | nil => exact ⟨log, rfl, by rwa [List.append_nil]⟩
  | cons call rest inductionHypothesis =>
      rw [List.length_cons] at room
      obtain ⟨next, logged, held⟩ := holds.serverLog call (by omega)
      obtain ⟨last, rested, ends⟩ := inductionHypothesis held (by simp; omega)
      refine ⟨last, ?_, by simpa using ends⟩
      rw [CixCache.serverLogs, logged]
      exact rested

/-- The number of the last entry counts the calls and stays a `long long`. -/
theorem serverLogs_seq {next : ActivityLog} (logged : serverLogs log calls = some next)
    (room : log.seq ≤ llongMax) :
    next.seq = log.seq + calls.length ∧ next.seq ≤ llongMax := by
  induction calls generalizing log with
  | nil =>
      obtain rfl := Option.some.inj logged
      simpa using room
  | cons call rest inductionHypothesis =>
      simp only [serverLogs, Option.bind_eq_bind, Option.bind_eq_some_iff] at logged
      obtain ⟨middle, first, rested⟩ := logged
      simp only [serverLog, Option.bind_eq_bind, Option.bind_eq_some_iff] at first
      obtain ⟨slot, _, seq, counted, same⟩ := first
      obtain ⟨rfl, small⟩ := longLong_eq_some counted
      obtain rfl := Option.some.inj same
      obtain ⟨length, bound⟩ := inductionHypothesis rested small
      refine ⟨?_, bound⟩
      rw [length, List.length_cons]
      push_cast
      omega

end Ring

/-! ## Exact pages -/

section Pages

variable {log : ActivityLog} {calls : List LogCall}

/-- The loop writes the entries it has not passed, when the ring still has them. -/
theorem apiLogLoop_writes (holds : log.Holds calls) (room : calls.length < llongMax)
    {passed turns : Nat} (kept : calls.length ≤ passed + logRing)
    (enough : calls.length ≤ passed + turns) (w : JsonWriter) :
    apiLogLoop log turns (passed + 1 : Nat) w =
      some (((entriesFrom 0 calls).drop passed).foldl writeLogEntry w) := by
  have length : (entriesFrom 0 calls).length = calls.length := entriesFrom_length 0 calls
  induction turns generalizing passed w with
  | zero =>
      rw [List.drop_eq_nil_of_le (by omega)]
      unfold apiLogLoop
      rw [holds.seq, if_pos (by push_cast; omega)]
      rfl
  | succ turns inductionHypothesis =>
      unfold apiLogLoop
      rw [holds.seq]
      split
      next done =>
        push_cast at done
        rw [List.drop_eq_nil_of_le (by omega)]
        rfl
      next more =>
        push_cast at more
        have logged : passed < (entriesFrom 0 calls).length := by omega
        have before : longLong (((passed + 1 : Nat) : Int) - 1) = some ((passed : Nat) : Int) := by
          rw [show ((passed + 1 : Nat) : Int) - 1 = (passed : Nat) by push_cast; omega]
          exact longLong_of_le (by omega)
        have after : longLong (((passed + 1 : Nat) : Int) + 1) =
            some ((passed + 1 + 1 : Nat) : Int) := by
          have small : passed + 1 + 1 ≤ llongMax := by omega
          exact longLong_of_le small
        have entry : log.ring ⟨passed % logRing, Nat.mod_lt _ (by decide)⟩ =
            (entriesFrom 0 calls)[passed] :=
          holds.ring passed logged _ (by omega) rfl
        have number : (entriesFrom 0 calls)[passed].seq = ((passed + 1 : Nat) : Int) := by
          rw [entriesFrom_seq]
          push_cast
          omega
        rw [before, after]
        simp only [Option.bind_eq_bind, Option.bind_some]
        rw [ringIndex_tmod]
        simp only [Option.bind_some]
        rw [entry, number, if_neg (by simp), inductionHypothesis (by omega) (by omega),
          List.drop_eq_getElem_cons logged, List.foldl_cons]

/-- No turn of the loop leaves a log whose numbers are used up. -/
theorem apiLogLoop_full (full : log.seq = llongMax) (turns : Nat) {i : Int}
    (within : i ≤ llongMax) (w : JsonWriter) : apiLogLoop log turns i w = none := by
  induction turns generalizing i w with
  | zero =>
      unfold apiLogLoop
      rw [if_neg (by omega)]
  | succ turns inductionHypothesis =>
      unfold apiLogLoop
      rw [if_neg (by omega)]
      simp only [Option.bind_eq_bind, Option.bind_eq_none_iff]
      intro before _ slot _ next advanced
      obtain ⟨rfl, small⟩ := longLong_eq_some advanced
      exact inductionHypothesis small _

theorem writes_entry (e : LogEntry) : WritesValue (writeLogEntry · e) e.tree :=
  WritesMembers.object
    (((((writes_int e.seq).member (ascii "seq")).append
      ((writes_int e.wallMs).member (ascii "time_ms"))).append
      ((writes_str e.level).member (ascii "level"))).append
      ((writes_str e.text).member (ascii "text")))

/-- The calls of `api_log` write the report of its page. -/
theorem writes_report (page : List LogEntry) (seq : Int) :
    (jwObjClose (jwInt (jwKey (jwArrClose (page.foldl writeLogEntry
      (jwArrOpen (jwKey (jwObjOpen jwInit) (ascii "entries"))))) (ascii "seq")) seq)).buf =
      (logReport page seq).text :=
  (WritesMembers.object
    (((WritesItems.foldl writes_entry page).array.member (ascii "entries")).append
      ((writes_int seq).member (ascii "seq")))).document

theorem strtol_le {text : Bytes} {value : Int} (converted : strtol text = some value) :
    value ≤ longMax := by
  unfold strtol at converted
  extract_lets text negative unsigned digits at converted
  split at converted
  next => contradiction
  split at converted
  next =>
    obtain rfl := Option.some.inj converted
    omega
  next =>
    obtain rfl := Option.some.inj converted
    omega

theorem queryIntLoop_le {key q : Bytes} {fuel : Nat} {value : Int}
    (found : queryIntLoop key fuel q = some value) : value ≤ llongMax := by
  induction fuel generalizing q with
  | zero => contradiction
  | succ fuel inductionHypothesis =>
      cases q with
      | nil => contradiction
      | cons c rest =>
          unfold queryIntLoop at found
          dsimp only at found
          split at found
          next =>
            obtain rfl := Option.some.inj found
            unfold strtoll
            cases converted : strtol (List.drop (key.length + 1) (c :: rest)) with
            | none => exact Int.natCast_nonneg _
            | some value => exact strtol_le converted
          split at found
          next => exact inductionHypothesis found
          next => contradiction

/-- Whatever a target says, its cursor is at most LLONG_MAX. -/
theorem cursorOf_le (rawPath : Bytes) : cursorOf rawPath ≤ llongMax := by
  unfold cursorOf queryInt
  split
  next =>
    cases found : queryIntLoop (ascii "after") rawPath.length
        ((rawPath.dropWhile fun c => c ≠ questionMark).drop 1) with
    | none => exact Int.natCast_nonneg _
    | some value => exact queryIntLoop_le found
  next => exact Int.natCast_nonneg _

/-- Past its cursor, or past what the ring has lost, a page has every entry. -/
theorem apiLog_writes (holds : log.Holds calls) (room : calls.length < llongMax)
    {rawPath : Bytes} (below : cursorOf rawPath < llongMax) {passed : Nat}
    (clamped : (passed : Int) = max (cursorOf rawPath) ((calls.length - logRing : Nat) : Int)) :
    apiLog log rawPath =
      some (logReport ((entriesFrom 0 calls).drop passed) log.seq).text := by
  have oldest : oldestLogged log = some ((calls.length - logRing : Nat) : Int) := by
    unfold oldestLogged
    rw [holds.seq]
    split
    next more =>
      rw [show (calls.length : Int) - logRing = ((calls.length - logRing : Nat) : Int) by omega]
      exact longLong_of_le (by omega)
    next few =>
      rw [show calls.length - logRing = 0 by omega]
      rfl
  have after : (if cursorOf rawPath < ((calls.length - logRing : Nat) : Int)
      then ((calls.length - logRing : Nat) : Int) else cursorOf rawPath) = passed := by
    split <;> omega
  have first : longLong ((passed : Int) + 1) = some ((passed + 1 : Nat) : Int) := by
    have small : passed + 1 ≤ llongMax := by omega
    exact longLong_of_le small
  unfold apiLog
  rw [oldest]
  simp only [Option.bind_eq_bind, Option.bind_some]
  rw [← cursorOf, after, first]
  simp only [Option.bind_some]
  rw [apiLogLoop_writes holds room (by omega) (by omega)]
  exact congrArg some (writes_report _ _)

/-- Past the last number there is, there is none to start from. -/
theorem apiLog_saturated {rawPath : Bytes} (saturated : cursorOf rawPath = llongMax) :
    apiLog log rawPath = none := by
  unfold apiLog
  simp only [Option.bind_eq_bind, Option.bind_eq_none_iff]
  intro oldest started first advanced
  rw [← cursorOf, saturated] at advanced
  have early : oldest ≤ llongMax := by
    unfold oldestLogged at started
    split at started
    next => exact (longLong_eq_some started).1 ▸ (longLong_eq_some started).2
    next =>
      rw [← Option.some.inj started]
      exact Int.natCast_nonneg _
  rw [if_neg (by omega)] at advanced
  have bound := (longLong_eq_some advanced).2
  omega

/-- A log whose numbers are used up cannot be read. -/
theorem apiLog_full (full : log.seq = llongMax) (rawPath : Bytes) : apiLog log rawPath = none := by
  unfold apiLog
  simp only [Option.bind_eq_bind, Option.bind_eq_none_iff]
  intro oldest _ first advanced writer written
  obtain ⟨rfl, small⟩ := longLong_eq_some advanced
  rw [apiLogLoop_full full logRing small] at written
  contradiction

end Pages

/-! ## A client that polls -/

/-- The target of a client that was last given this number. -/
def pollPath (given : Nat) : Bytes := ascii "/api/v1/log?after=" ++ printed given

/-- In every round some calls are logged and the client asks once, with the number
the last answer gave it; what it is shown is the pages of all answers. -/
inductive Polls : ActivityLog → Nat → List (List LogCall) → List LogEntry → Prop
  | done (log : ActivityLog) (given : Nat) : Polls log given [] []
  | round {log next : ActivityLog} {given last : Nat} {calls : List LogCall}
      {rest : List (List LogCall)} {page shown : List LogEntry}
      (logged : serverLogs log calls = some next)
      (answered : apiLog next (pollPath given) = some (logReport page last).text)
      (polls : Polls next last rest shown) : Polls log given (calls :: rest) (page ++ shown)

section Polling

variable {log : ActivityLog} {calls : List LogCall}

theorem printed_ne_nil (n : Nat) : printed n ≠ [] := by
  simp [printed, Nat.toDigits_ne_nil]

/-- Printed numbers are read back. -/
theorem decimal_printed (n : Nat) : decimal (printed n) = n := by
  rw [decimal_eq_runValue, runValue_printed]

theorem strtoll_printed {n : Nat} (small : n ≤ llongMax) : strtoll (printed n) = n := by
  have run : (printed n).all isDigit = true := List.all_eq_true.mpr (printed_digits n)
  rw [strtoll, strtol_digits (printed_ne_nil n) run, decimal_printed, Option.getD_some]
  exact congrArg Nat.cast (min_eq_left small)

theorem cursorOf_pollPath {given : Nat} (small : given ≤ llongMax) :
    cursorOf (pollPath given) = given := by
  have literal : ascii "/api/v1/log?after=" =
      ascii "/api/v1/log" ++ questionMark :: (ascii "after" ++ [equals]) := by decide
  have unasked : ∀ c ∈ ascii "/api/v1/log", decide (c ≠ questionMark) = true := by
    decide +kernel
  have path : pollPath given =
      ascii "/api/v1/log" ++ questionMark :: (ascii "after" ++ equals :: printed given) := by
    rw [pollPath, literal]
    simp
  have query : ((pollPath given).dropWhile fun c => c ≠ questionMark).drop 1 =
      ascii "after" ++ equals :: printed given := by
    rw [path, List.dropWhile_append_of_pos unasked]
    simp
  have asked : questionMark ∈ pollPath given := by
    rw [path]
    simp
  obtain ⟨fuel, length⟩ := Nat.exists_eq_add_one.mpr (List.length_pos_of_mem asked)
  have key : ascii "after" = [97, 102, 116, 101, 114] := by decide
  unfold cursorOf queryInt
  rw [if_pos asked, query, length, key]
  show (queryIntLoop _ (fuel + 1)
    (97 :: 102 :: 116 :: 101 :: 114 :: equals :: printed given)).getD 0 = _
  unfold queryIntLoop
  dsimp only
  rw [if_pos (by simp)]
  exact strtoll_printed small

/-- As long as fewer than LOG_RING entries arrive between its polls, a client is shown
exactly the entries that were logged, each once. -/
theorem ActivityLog.Holds.polls (holds : log.Holds calls) {rounds : List (List LogCall)}
    (few : ∀ round ∈ rounds, round.length < logRing)
    (room : calls.length + rounds.flatten.length < llongMax) :
    Polls log calls.length rounds (entriesFrom calls.length rounds.flatten) := by
  induction rounds generalizing log calls with
  | nil => exact .done log calls.length
  | cons round rest inductionHypothesis =>
      rw [List.flatten_cons, List.length_append] at room
      have short := few round List.mem_cons_self
      obtain ⟨next, logged, held⟩ := holds.serverLogs round (by omega)
      have length : (calls ++ round).length = calls.length + round.length := List.length_append
      have cursor : cursorOf (pollPath calls.length) = calls.length :=
        cursorOf_pollPath (by omega)
      have answered : apiLog next (pollPath calls.length) =
          some (logReport (entriesFrom calls.length round) (calls ++ round).length).text := by
        rw [@apiLog_writes _ _ held (by omega) _ (by omega) calls.length (by omega), held.seq,
          entriesFrom_append, List.drop_left' (entriesFrom_length 0 calls), Nat.zero_add]
      have rested := inductionHypothesis held
        (fun other member => few other (List.mem_cons_of_mem _ member)) (by omega)
      rw [List.flatten_cons, entriesFrom_append, ← length]
      exact .round logged answered rested

end Polling

/-! ## Every cursor -/

/-- The numbers of the log have not run out, and the cursor is not the last of them. -/
def TailSafe (calls : List LogCall) (rawPath : Bytes) : Prop :=
  calls.length < llongMax ∧ cursorOf rawPath ≠ llongMax

theorem tailSafe_of_tailsExactly {calls : List LogCall} {rawPath : Bytes}
    (tails : TailsExactly calls rawPath) : TailSafe calls rawPath := by
  obtain ⟨log, page, logged, answered, _⟩ := tails
  obtain ⟨length, bound⟩ := serverLogs_seq logged (Int.natCast_nonneg _)
  have count : log.seq = calls.length := by
    rw [length]
    exact Int.zero_add _
  constructor
  · by_contra used
    have full : log.seq = llongMax := by omega
    rw [apiLog_full full] at answered
    contradiction
  · intro saturated
    rw [apiLog_saturated saturated] at answered
    contradiction

theorem tailsExactly_of_tailSafe {calls : List LogCall} {rawPath : Bytes}
    (safe : TailSafe calls rawPath) : TailsExactly calls rawPath := by
  obtain ⟨room, unsaturated⟩ := safe
  have bound := cursorOf_le rawPath
  obtain ⟨log, logged, holds⟩ :=
    holds_start.serverLogs calls (by rw [List.length_nil]; omega)
  obtain ⟨passed, clamped⟩ : ∃ passed : Nat, (passed : Int) =
      max (cursorOf rawPath) ((calls.length - logRing : Nat) : Int) :=
    ⟨(max (cursorOf rawPath) ((calls.length - logRing : Nat) : Int)).toNat, by omega⟩
  exact ⟨log, _, logged, apiLog_writes holds room (by omega) clamped, exactPage_drop clamped⟩

/-- Every page is exact but the one past LLONG_MAX; and a client that polls often enough
misses nothing and sees nothing twice. -/
theorem log_tail_exact (calls : List LogCall) :
    (∀ rawPath : Bytes, TailsExactly calls rawPath ↔ TailSafe calls rawPath) ∧
    ∀ rounds : List (List LogCall),
      (∀ round ∈ rounds, round.length < logRing) →
      calls.length + rounds.flatten.length < llongMax →
      ∃ log, serverLogs .start calls = some log ∧
        Polls log calls.length rounds (entriesFrom calls.length rounds.flatten) := by
  constructor
  · intro rawPath
    exact ⟨tailSafe_of_tailsExactly, tailsExactly_of_tailSafe⟩
  · intro rounds few room
    obtain ⟨log, logged, holds⟩ :=
      holds_start.serverLogs calls (by rw [List.length_nil]; omega)
    exact ⟨log, logged, holds.polls few room⟩

/-- The cursor LLONG_MAX makes the first number of the loop overflow. -/
theorem saturated_cursor_overflows :
    ¬ TailsExactly [] (ascii "/api/v1/log?after=9223372036854775807") := by
  have overflow : apiLog .start (ascii "/api/v1/log?after=9223372036854775807") = none := by
    decide +kernel
  rintro ⟨log, page, logged, answered, _⟩
  obtain rfl := Option.some.inj logged
  exact absurd (overflow.symm.trans answered) (by simp)

end CixCache
