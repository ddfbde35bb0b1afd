import Mathlib.Data.List.DropRight
import CixCache.Server.ContentLength
import CixCache.Server.Decode
import CixCache.Server.Upload

/-!
Contract: loading the configuration file.

Owns: `confExtract`, `confParsePort` and `confLoad` with the buffers between the
text and the fields; what a text states for a key; and when a load that succeeds
is an exact overlay of what is stated.

Does not own: what the settings mean, or the flags that override them.
-/

namespace CixCache

/-! ## Functions of the source -/

/-- A C string in an array of this size. -/
structure CBuffer (size : Nat) where
  text : Bytes
  fits : text.length < size
deriving DecidableEq

/-- `snprintf` into the array. -/
def CBuffer.print {size : Nat} (positive : 0 < size) (text : Bytes) : CBuffer size :=
  ⟨snprintf size text, snprintf_length_lt positive text⟩

/-- `struct conf` -/
structure Settings where
  root : CBuffer confPathMax
  bind : CBuffer 64
  port : Int
  webRoot : CBuffer confPathMax
  pushToken : CBuffer confTokenMax
  pullToken : CBuffer confTokenMax
  requireSignature : CBuffer confTokenMax
deriving DecidableEq

def confDefaults : Settings where
  root := .print (by decide) (ascii "cache")
  bind := .print (by decide) (ascii "0.0.0.0")
  port := 8080
  webRoot := .print (by decide) (ascii "web")
  pushToken := .print (by decide) []
  pullToken := .print (by decide) []
  requireSignature := .print (by decide) (ascii ".iso")

/-- What `strtol` stops at. -/
def strtolEnd (text : Bytes) : Bytes :=
  let text := text.dropWhile isSpace
  let unsigned := if text.head? == some dash || text.head? == some 43 then text.drop 1 else text
  unsigned.dropWhile isDigit

/-- A value that set errno is clamped out of range. -/
def confParsePort (text : Bytes) : Option Int :=
  match strtol text with
  | none => none
  | some v => if strtolEnd text ≠ [] ∨ v < 1 ∨ 65535 < v then none else some v

/-- The text behind the first `key` at the start of a line. -/
def findKeyLine (key : Bytes) : Bool → Bytes → Option Bytes
  | _, [] => none
  | atLineStart, c :: rest =>
      if atLineStart = true ∧ (c :: rest).take key.length = key then
        some ((c :: rest).drop key.length)
      else findKeyLine key (c == lineFeed) rest

/-- A blank at the end of a value. -/
def isTrailing (c : Byte) : Bool := c == space || c == tab || c == carriageReturn

/-- The opening quote of a value, and what is behind it. -/
def openQuote (val : Bytes) : Option Byte × Bytes :=
  match val with
  | [] => (none, [])
  | c :: rest => if c = 34 ∨ c = 39 then (some c, rest) else (none, c :: rest)

def confExtract (buf key : Bytes) (outSize : Nat) : Option Bytes :=
  match findKeyLine key true buf with
  | none => none
  | some val =>
      let (quote, val) := openQuote val
      let value := (val.takeWhile fun c => c != lineFeed && quote != some c).rdropWhile isTrailing
      if outSize ≤ value.length then none else some value

def overlay {size : Nat} (positive : 0 < size) (buf key : Bytes) (out : CBuffer size) :
    CBuffer size :=
  if confPathMax < size then out
  else
    match confExtract buf key confPathMax with
    | none => out
    | some tmp => .print positive tmp

/-- The file behind the path: absent, there but refused by `fopen`, opened but not
readable, or read. -/
inductive ConfFile where
  | absent
  | denied (content : Bytes)
  | broken (content : Bytes)
  | readable (content : Bytes)

/-- What `conf_load` makes of the text; `none` is -1. -/
def overlayAll (c : Settings) (buf : Bytes) : Option Settings :=
  let c :=
    { c with
      root := overlay (by decide) buf (ascii "root=") c.root
      bind := overlay (by decide) buf (ascii "bind=") c.bind
      webRoot := overlay (by decide) buf (ascii "web_root=") c.webRoot
      pushToken := overlay (by decide) buf (ascii "push_token=") c.pushToken
      pullToken := overlay (by decide) buf (ascii "pull_token=") c.pullToken
      requireSignature :=
        overlay (by decide) buf (ascii "require_signature=") c.requireSignature }
  match confExtract buf (ascii "port=") 32 with
  | none => some c
  | some portbuf => (confParsePort portbuf).map fun port => { c with port := port }

def confLoad (c : Settings) : ConfFile → Option Settings
  | .absent => some c
  -- An existing file that `fopen` refuses counts as absent.
  | .denied _ => some c
  | .broken _ => none
  | .readable content => overlayAll c (cString content)

/-! ## What a text states -/

/-- What follows the key on the first line that starts with it. -/
def statedLine (text key : Bytes) : Option Bytes :=
  ((text.splitOn lineFeed).find? fun line => line.take key.length == key).map
    (List.drop key.length)

/-- A line without its quotes. -/
def unquoted : Bytes → Bytes
  | [] => []
  | c :: rest => if c = 34 ∨ c = 39 then rest.takeWhile fun d => d ≠ c else c :: rest

/-- The whole value that a text states for a key. -/
def statedValue (text key : Bytes) : Option Bytes :=
  (statedLine text key).map fun line => (unquoted line).rdropWhile isTrailing

section Lines

variable {key text : Bytes}

/-- The first line is what stands before the first line feed. -/
theorem splitOn_head (text : Bytes) :
    (text.splitOn lineFeed).head? = some (text.takeWhile fun c => c ≠ lineFeed) := by
  induction text with
  | nil => simp [List.splitOn]
  | cons c rest inductionHypothesis =>
      rw [List.splitOn_cons_eq_if_modifyHead]
      by_cases ends : c = lineFeed
      · simp [ends]
      · rw [if_neg (by simpa using ends), List.head?_modifyHead, inductionHypothesis]
        simp [ends]

theorem splitOn_shape (text : Bytes) :
    text.splitOn lineFeed =
      (text.takeWhile fun c => c ≠ lineFeed) :: (text.splitOn lineFeed).tail := by
  obtain ⟨tail, shape⟩ := List.head?_eq_some_iff.mp (splitOn_head text)
  rw [shape]
  rfl

/-- A key without a line feed is looked for on the first line only. -/
theorem take_takeWhile (flat : lineFeed ∉ key) :
    ((text.takeWhile fun c => c ≠ lineFeed).take key.length = key ↔ text.take key.length = key) ∧
      (text.take key.length = key → (text.drop key.length).takeWhile (fun c => c ≠ lineFeed) =
        (text.takeWhile fun c => c ≠ lineFeed).drop key.length) := by
  have inside : ∀ c ∈ key, decide (c ≠ lineFeed) = true := by
    intro c member
    exact decide_eq_true fun same => flat (same ▸ member)
  have split : text.take key.length = key →
      (text.takeWhile fun c => c ≠ lineFeed) =
        key ++ (text.drop key.length).takeWhile fun c => c ≠ lineFeed := by
    intro starts
    conv_lhs => rw [← List.take_append_drop key.length text, starts]
    exact List.takeWhile_append_of_pos inside
  refine ⟨⟨?_, ?_⟩, ?_⟩
  · intro starts
    have whole := List.takeWhile_prefix (fun c => decide (c ≠ lineFeed)) (l := text)
    have begins : key <+: text := by
      rw [← starts]
      exact (List.take_prefix _ _).trans whole
    exact (List.prefix_iff_eq_take.mp begins).symm
  · intro starts
    rw [split starts, List.take_left]
  · intro starts
    rw [split starts, List.drop_left]

/-- The scan finds the line that the key starts. -/
theorem findKeyLine_eq (flat : lineFeed ∉ key) (nonempty : key ≠ []) (text : Bytes) :
    (findKeyLine key true text).map (List.takeWhile fun c => decide (c ≠ lineFeed)) =
        statedLine text key ∧
      (findKeyLine key false text).map (List.takeWhile fun c => decide (c ≠ lineFeed)) =
        ((text.splitOn lineFeed).tail.find? fun line => line.take key.length == key).map
          (List.drop key.length) := by
  induction text with
  | nil =>
      simp [findKeyLine, statedLine, List.splitOn, nonempty]
  | cons c rest inductionHypothesis =>
      have later : (findKeyLine key (c == lineFeed) rest).map
          (List.takeWhile fun c => decide (c ≠ lineFeed)) =
            (((c :: rest).splitOn lineFeed).tail.find? fun line => line.take key.length == key).map
              (List.drop key.length) := by
        rw [List.splitOn_cons_eq_if_modifyHead]
        by_cases ends : c = lineFeed
        · simp only [ends, beq_self_eq_true, ↓reduceIte, List.tail_cons]
          exact inductionHypothesis.1
        · rw [beq_false_of_ne ends, if_neg (by simp), List.tail_modifyHead]
          exact inductionHypothesis.2
      refine ⟨?_, ?_⟩
      · rw [findKeyLine, statedLine, splitOn_shape, List.find?_cons]
        by_cases starts : (c :: rest).take key.length = key
        · have onLine := (take_takeWhile flat).1.mpr starts
          rw [if_pos ⟨rfl, starts⟩, onLine, beq_self_eq_true]
          exact congrArg some ((take_takeWhile flat).2 starts)
        · have offLine := fun onLine => starts ((take_takeWhile flat).1.mp onLine)
          rw [if_neg (fun both => starts both.2), beq_false_of_ne offLine]
          exact later
      · rw [findKeyLine, if_neg (by simp)]
        exact later

/-- The bytes that `conf_extract` runs over are the line without its quotes. -/
theorem extracted_run (val : Bytes) :
    (openQuote val).2.takeWhile (fun c => c != lineFeed && (openQuote val).1 != some c) =
      unquoted (val.takeWhile fun c => c ≠ lineFeed) := by
  cases val with
  | nil => rfl
  | cons c rest =>
      unfold openQuote
      dsimp only
      by_cases quote : c = 34 ∨ c = 39
      · have kept : c ≠ lineFeed := by
          rcases quote with rfl | rfl
          · decide
          · decide
        rw [List.takeWhile_cons, if_pos (decide_eq_true kept), unquoted, if_pos quote,
          List.takeWhile_takeWhile]
        simp only [if_pos quote]
        congr 1
        funext d
        by_cases closes : d = c
        · simp [closes]
        · have other : (some c != some d) = true := bne_iff_ne.mpr fun same =>
            closes (Option.some.inj same).symm
          rw [other]
          by_cases ends : d = lineFeed
          · simp [ends]
          · simp [ends, closes]
      · simp only [if_neg quote]
        rw [List.takeWhile_cons, List.takeWhile_cons]
        by_cases ends : c = lineFeed
        · simp [ends, unquoted]
        · have same : (fun d : Byte => d != lineFeed && (none : Option Byte) != some d) =
              fun d => decide (d ≠ lineFeed) := by
            funext d
            by_cases atEnd : d = lineFeed
            · simp [atEnd]
            · simp [atEnd]
          rw [same]
          simp [ends, unquoted, quote]

/-- Extraction finds the whole value, or nothing when it does not fit. -/
theorem confExtract_eq (flat : lineFeed ∉ key) (nonempty : key ≠ []) (buf : Bytes)
    (outSize : Nat) :
    confExtract buf key outSize =
      (statedValue buf key).filter fun value => decide (value.length < outSize) := by
  have found := (findKeyLine_eq flat nonempty buf).1
  unfold confExtract statedValue
  rw [← found]
  cases findKeyLine key true buf with
  | none => rfl
  | some val =>
      dsimp only [Option.map_some]
      rw [extracted_run val]
      generalize (unquoted (val.takeWhile fun c => decide (c ≠ lineFeed))).rdropWhile isTrailing =
        value
      rw [Option.filter_some]
      by_cases long : outSize ≤ value.length
      · rw [if_pos long, if_neg (by simp [long])]
      · rw [if_neg long, if_pos (by simp [Nat.not_le.mp long])]

end Lines

/-! ## What the part in front of a NUL states -/

section Cut

variable {key text : Bytes}

/-- A key that starts a text starts it in front of its first NUL. -/
theorem take_cString (noNul : 0 ∉ key) :
    ((cString text).take key.length = key ↔ text.take key.length = key) ∧
      (text.take key.length = key →
        (cString text).drop key.length = cString (text.drop key.length)) := by
  have inside : ∀ c ∈ key, decide (c ≠ 0) = true := by
    intro c member
    exact decide_eq_true fun same => noNul (same ▸ member)
  have split : text.take key.length = key →
      cString text = key ++ cString (text.drop key.length) := by
    intro starts
    conv_lhs => rw [← List.take_append_drop key.length text, starts]
    exact List.takeWhile_append_of_pos inside
  refine ⟨⟨?_, ?_⟩, ?_⟩
  · intro starts
    have begins : key <+: text := by
      rw [← starts]
      exact (List.take_prefix _ _).trans (List.takeWhile_prefix _)
    exact (List.prefix_iff_eq_take.mp begins).symm
  · intro starts
    rw [split starts, List.take_left]
  · intro starts
    rw [split starts, List.drop_left]

/-- In front of the first NUL the key is found on no line, or where the whole text has it. -/
theorem findKeyLine_cString (noNul : 0 ∉ key) (atLineStart : Bool) (text : Bytes) :
    findKeyLine key atLineStart (cString text) = none ∨
      ∃ val, findKeyLine key atLineStart text = some val ∧
        findKeyLine key atLineStart (cString text) = some (cString val) := by
  induction text generalizing atLineStart with
  | nil => exact Or.inl rfl
  | cons c rest inductionHypothesis =>
      by_cases nul : c = 0
      · rw [nul]
        exact Or.inl rfl
      · have kept : cString (c :: rest) = c :: cString rest :=
          List.takeWhile_cons_of_pos (decide_eq_true nul)
        obtain ⟨starts, behind⟩ := @take_cString key (c :: rest) noNul
        rw [kept] at starts behind ⊢
        rw [findKeyLine, findKeyLine]
        by_cases here : atLineStart = true ∧ (c :: rest).take key.length = key
        · rw [if_pos here, if_pos ⟨here.1, starts.mpr here.2⟩, behind here.2]
          exact Or.inr ⟨_, rfl, rfl⟩
        · rw [if_neg here, if_neg fun both => here ⟨both.1, starts.mp both.2⟩]
          exact inductionHypothesis _

theorem takeWhile_cString (kept : Byte → Bool) (text : Bytes) :
    (cString text).takeWhile kept = cString (text.takeWhile kept) := by
  unfold cString
  rw [List.takeWhile_takeWhile, List.takeWhile_takeWhile]
  congr 1
  funext c
  exact decide_eq_decide.mpr and_comm

theorem unquoted_cString (line : Bytes) : unquoted (cString line) = cString (unquoted line) := by
  cases line with
  | nil => rfl
  | cons c rest =>
      by_cases nul : c = 0
      · have plain : unquoted (0 :: rest) = 0 :: rest := by
          rw [unquoted, if_neg (by decide)]
        rw [nul, plain]
        rfl
      · have kept : ∀ tail, cString (c :: tail) = c :: cString tail := fun tail =>
          List.takeWhile_cons_of_pos (decide_eq_true nul)
        rw [kept, unquoted, unquoted]
        by_cases quote : c = 34 ∨ c = 39
        · rw [if_pos quote, if_pos quote]
          exact takeWhile_cString _ rest
        · rw [if_neg quote, if_neg quote, kept]

theorem rdropWhile_behind {c : Byte} (solid : isTrailing c = false) (front back : Bytes) :
    (front ++ c :: back).rdropWhile isTrailing = front ++ c :: back.rdropWhile isTrailing := by
  induction back using List.reverseRecOn with
  | nil =>
      rw [List.rdropWhile_concat_neg _ _ _ (by simp [solid]), List.rdropWhile_nil]
  | append_singleton back last inductionHypothesis =>
      rw [← List.cons_append, ← List.append_assoc, List.rdropWhile_concat,
        List.rdropWhile_concat]
      split
      next => exact inductionHypothesis
      next => rw [List.append_assoc, List.cons_append]

/-- Trailing blanks behind a NUL do not reach the text in front of it. -/
theorem rdropWhile_cString (text : Bytes) :
    (cString text).rdropWhile isTrailing = text.rdropWhile isTrailing ∨
      0 ∈ text.rdropWhile isTrailing ∧
        ((cString text).rdropWhile isTrailing).length < (text.rdropWhile isTrailing).length := by
  by_cases nul : 0 ∈ text
  · obtain ⟨front, back, rfl, clean⟩ := List.eq_append_cons_of_mem nul
    rw [rdropWhile_behind (by decide), cString_terminated, cString_eq_self.mpr clean]
    have shorter := (List.rdropWhile_prefix isTrailing front).length_le
    refine Or.inr ⟨List.mem_append_right _ List.mem_cons_self, ?_⟩
    rw [List.length_append, List.length_cons]
    omega
  · rw [cString_eq_self.mpr nul]
    exact Or.inl rfl

/-- What a value in front of the first NUL has to do with the value of the whole text. -/
inductive Cut (whole : Option Bytes) : Option Bytes → Prop
  | missing : Cut whole none
  | same {value : Bytes} (stated : whole = some value) : Cut whole (some value)
  | shortened {value longer : Bytes} (stated : whole = some longer) (nul : 0 ∈ longer)
      (shorter : value.length < longer.length) : Cut whole (some value)

theorem statedValue_cString (flat : lineFeed ∉ key) (nonempty : key ≠ []) (noNul : 0 ∉ key)
    (text : Bytes) : Cut (statedValue text key) (statedValue (cString text) key) := by
  unfold statedValue
  rw [← (findKeyLine_eq flat nonempty text).1, ← (findKeyLine_eq flat nonempty (cString text)).1]
  rcases findKeyLine_cString noNul true text with missing | ⟨val, found, cut⟩
  · rw [missing]
    exact .missing
  · rw [found, cut]
    dsimp only [Option.map_some]
    have line : (cString val).takeWhile (fun c => decide (c ≠ lineFeed)) =
        cString (val.takeWhile fun c => decide (c ≠ lineFeed)) := takeWhile_cString _ val
    rw [line, unquoted_cString]
    generalize unquoted (val.takeWhile fun c => decide (c ≠ lineFeed)) = value
    rcases rdropWhile_cString value with same | ⟨nul, shorter⟩
    · rw [same]
      exact .same rfl
    · exact .shortened rfl nul shorter

end Cut

/-! ## The text of a port -/

/-- A number in 1-65535: digits, with blanks or a plus in front of them or not. -/
def PortText (text : Bytes) (port : Int) : Prop :=
  ∃ blanks sign digits, text = blanks ++ (sign ++ digits) ∧
    (∀ c ∈ blanks, isSpace c = true) ∧ (sign = [] ∨ sign = [43]) ∧ DigitRun digits ∧
    port = (decimal digits : Nat) ∧ 1 ≤ port ∧ port ≤ 65535

theorem PortText.noNul {text : Bytes} {port : Int} (is : PortText text port) : 0 ∉ text := by
  obtain ⟨blanks, sign, digits, rfl, spaces, signed, run, _⟩ := is
  simp only [List.mem_append, not_or]
  refine ⟨fun member => absurd (spaces 0 member) (by decide), ?_, fun member => ?_⟩
  · rcases signed with rfl | rfl <;> decide
  · exact absurd (List.all_eq_true.mp run.2 0 member) (by decide)

/-- What `strtol` converts it stops behind. -/
theorem strtolEnd_number {blanks sign digits rest : Bytes}
    (spaces : ∀ c ∈ blanks, isSpace c = true)
    (signed : sign = [] ∨ sign = [43] ∨ sign = [dash]) (run : DigitRun digits)
    (ended : ∀ c, rest.head? = some c → isDigit c = false) :
    strtolEnd (blanks ++ (sign ++ (digits ++ rest))) = rest := by
  have behind : (digits ++ rest).dropWhile isDigit = rest := by
    rw [List.dropWhile_append_of_pos (List.all_eq_true.mp run.2)]
    cases rest with
    | nil => rfl
    | cons c tail => rw [List.dropWhile_cons_of_neg (by simp [ended c rfl])]
  have isSign : (dash == dash || dash == 43) = true ∧ ((43 : Byte) == dash || (43 : Byte) == 43) =
      true := by decide
  unfold strtolEnd
  dsimp only
  rcases signed with rfl | rfl | rfl
  · obtain ⟨first, others, rfl⟩ := List.exists_cons_of_ne_nil run.1
    obtain ⟨noBlank, noDash, noPlus⟩ :=
      digit_opens (List.all_eq_true.mp run.2 first List.mem_cons_self)
    rw [List.nil_append, List.cons_append, dropWhile_blanks spaces noBlank, List.head?_cons,
      Option.some_beq_some, Option.some_beq_some, noDash, noPlus, Bool.or_self,
      if_neg Bool.false_ne_true]
    exact behind
  · rw [List.singleton_append, dropWhile_blanks spaces (by decide), List.head?_cons,
      Option.some_beq_some, Option.some_beq_some, isSign.2, if_pos rfl]
    exact behind
  · rw [List.singleton_append, dropWhile_blanks spaces (by decide), List.head?_cons,
      Option.some_beq_some, Option.some_beq_some, isSign.1, if_pos rfl]
    exact behind

/-- The parser of ports takes the numbers in 1-65535, and nothing else. -/
theorem confParsePort_iff {text : Bytes} {port : Int} :
    confParsePort text = some port ↔ PortText text port := by
  unfold confParsePort
  constructor
  · intro parsed
    split at parsed
    next => contradiction
    next value converted =>
      split at parsed
      next => contradiction
      next usable =>
        simp only [ne_eq, not_or, not_not, not_lt] at usable
        obtain rfl := Option.some.inj parsed
        obtain ⟨blanks, sign, digits, rest, rfl, spaces, signed, run, ended, zeros⟩ :=
          readsAsNumber_of_strtol converted (by omega)
        rw [strtolEnd_number spaces signed run ended] at usable
        rcases signed with empty | plus | negative
        · rw [strtol_unsigned spaces (Or.inl empty) run ended] at converted
          have same := Option.some.inj converted
          unfold longMax at same
          refine ⟨blanks, sign, digits, ?_, spaces, Or.inl empty, run, ?_, usable.2⟩
          · rw [usable.1, List.append_nil]
          · omega
        · rw [strtol_unsigned spaces (Or.inr plus) run ended] at converted
          have same := Option.some.inj converted
          unfold longMax at same
          refine ⟨blanks, sign, digits, ?_, spaces, Or.inr plus, run, ?_, usable.2⟩
          · rw [usable.1, List.append_nil]
          · omega
        · rw [negative, strtol_negative spaces run ended] at converted
          have same := Option.some.inj converted
          omega
  · rintro ⟨blanks, sign, digits, rfl, spaces, signed, run, rfl, low, high⟩
    have ended : ∀ c, ([] : Bytes).head? = some c → isDigit c = false := fun c none => by
      contradiction
    have converted := strtol_unsigned spaces signed run ended
    have stops := strtolEnd_number spaces (signed.imp_right Or.inl) run ended
    rw [List.append_nil] at converted stops
    rw [converted, stops]
    dsimp only
    have whole : min (decimal digits) longMax = decimal digits := by
      unfold longMax
      omega
    rw [whole, if_neg (by simp only [ne_eq, not_true_eq_false, false_or, not_or]; omega)]

/-! ## An exact overlay -/

inductive ConfKey where
  | root
  | bind
  | webRoot
  | pushToken
  | pullToken
  | requireSignature

def ConfKey.text : ConfKey → Bytes
  | .root => ascii "root="
  | .bind => ascii "bind="
  | .webRoot => ascii "web_root="
  | .pushToken => ascii "push_token="
  | .pullToken => ascii "pull_token="
  | .requireSignature => ascii "require_signature="

def ConfKey.size : ConfKey → Nat
  | .root => confPathMax
  | .bind => 64
  | .webRoot => confPathMax
  | .pushToken => confTokenMax
  | .pullToken => confTokenMax
  | .requireSignature => confTokenMax

def portKey : Bytes := ascii "port="

def Settings.get (c : Settings) : ConfKey → Bytes
  | .root => c.root.text
  | .bind => c.bind.text
  | .webRoot => c.webRoot.text
  | .pushToken => c.pushToken.text
  | .pullToken => c.pullToken.text
  | .requireSignature => c.requireSignature.text

/-- Every key that the text states has its whole value, every other is unchanged, and
a stated port is a number in 1-65535, which is set. -/
structure ExactOverlay (text : Bytes) (prior loaded : Settings) : Prop where
  value : ∀ key : ConfKey, loaded.get key = (statedValue text key.text).getD (prior.get key)
  unstatedPort : statedValue text portKey = none → loaded.port = prior.port
  statedPort : ∀ port, statedValue text portKey = some port → PortText port loaded.port

/-- The text of the file. -/
def ConfFile.text : ConfFile → Bytes
  | .absent => []
  | .denied content => content
  | .broken content => content
  | .readable content => content

/-- Loading the file fails, or is an exact overlay. -/
def ExactLoad (prior : Settings) (file : ConfFile) : Prop :=
  ∀ loaded, confLoad prior file = some loaded → ExactOverlay file.text prior loaded

/-- The text states a short port that is none. -/
def RefusedPort (text : Bytes) : Prop :=
  ∃ port, statedValue text portKey = some port ∧ port.length < 32 ∧
    ∀ number, ¬ PortText port number

/-- Every value is stated in front of the first NUL and shorter than its field, or behind it
and what is set already; a port that is stated in front of it may fill its buffer when it is
what is set. -/
structure ValuesFit (content : Bytes) (prior : Settings) : Prop where
  values : ∀ (key : ConfKey) value, statedValue content key.text = some value →
    statedValue (cString content) key.text = some value ∧ value.length < key.size ∨
      statedValue (cString content) key.text = none ∧ prior.get key = value
  port : ∀ port, statedValue content portKey = some port →
    statedValue (cString content) portKey = some port ∧
        (port.length < 32 ∨ PortText port prior.port) ∨
      statedValue (cString content) portKey = none ∧ PortText port prior.port

/-- Every stated value is what is set already. -/
structure AlreadySet (text : Bytes) (prior : Settings) : Prop where
  values : ∀ (key : ConfKey) value, statedValue text key.text = some value → prior.get key = value
  port : ∀ port, statedValue text portKey = some port → PortText port prior.port

/-- What the file has to state to be loaded exactly. -/
def Usable (prior : Settings) : ConfFile → Prop
  | .absent => True
  | .denied content => AlreadySet content prior
  | .broken _ => True
  | .readable content => RefusedPort (cString content) ∨ ValuesFit content prior

section Loading

variable {prior loaded : Settings} {buf : Bytes}

theorem ConfKey.flat (key : ConfKey) : lineFeed ∉ key.text ∧ key.text ≠ [] ∧ 0 ∉ key.text := by
  cases key <;> decide

theorem ConfKey.size_le (key : ConfKey) : 0 < key.size ∧ key.size ≤ confPathMax := by
  cases key <;> decide

theorem Settings.get_length (c : Settings) (key : ConfKey) : (c.get key).length < key.size := by
  cases key with
  | root => exact c.root.fits
  | bind => exact c.bind.fits
  | webRoot => exact c.webRoot.fits
  | pushToken => exact c.pushToken.fits
  | pullToken => exact c.pullToken.fits
  | requireSignature => exact c.requireSignature.fits

theorem overlay_text {size : Nat} (positive : 0 < size) (small : size ≤ confPathMax)
    (buf key : Bytes) (out : CBuffer size) :
    (overlay positive buf key out).text =
      ((confExtract buf key confPathMax).map (snprintf size)).getD out.text := by
  unfold overlay
  rw [if_neg (Nat.not_lt.mpr small)]
  cases confExtract buf key confPathMax <;> rfl

/-- What a load that succeeds leaves in the fields and in the port. -/
theorem overlayAll_some (result : overlayAll prior buf = some loaded) :
    (∀ key : ConfKey, loaded.get key =
        ((confExtract buf key.text confPathMax).map (snprintf key.size)).getD (prior.get key)) ∧
      match confExtract buf portKey 32 with
      | none => loaded.port = prior.port
      | some text => confParsePort text = some loaded.port := by
  unfold overlayAll portKey at *
  dsimp only at result
  have fields : ∀ port, ∀ key : ConfKey, Settings.get
      { root := overlay (by decide) buf (ascii "root=") prior.root
        bind := overlay (by decide) buf (ascii "bind=") prior.bind
        port := port
        webRoot := overlay (by decide) buf (ascii "web_root=") prior.webRoot
        pushToken := overlay (by decide) buf (ascii "push_token=") prior.pushToken
        pullToken := overlay (by decide) buf (ascii "pull_token=") prior.pullToken
        requireSignature :=
          overlay (by decide) buf (ascii "require_signature=") prior.requireSignature } key =
        ((confExtract buf key.text confPathMax).map (snprintf key.size)).getD (prior.get key) := by
    intro port key
    cases key <;> exact overlay_text _ (by decide) _ _ _
  split at result
  next unstated =>
    cases result
    exact ⟨fields prior.port, rfl⟩
  next text stated =>
    obtain ⟨port, parsed, rfl⟩ := Option.map_eq_some_iff.mp result
    exact ⟨fields port, parsed⟩

/-- A field holds the whole value that the file states exactly when the load sees it and it
is shorter than the field, or does not see it and it is set already. -/
theorem field_exact_iff (key : ConfKey) (prior : Settings) (content : Bytes) :
    ((confExtract (cString content) key.text confPathMax).map (snprintf key.size)).getD
        (prior.get key) = (statedValue content key.text).getD (prior.get key) ↔
      ∀ value, statedValue content key.text = some value →
        statedValue (cString content) key.text = some value ∧ value.length < key.size ∨
          statedValue (cString content) key.text = none ∧ prior.get key = value := by
  have keep := prior.get_length key
  have size := key.size_le
  have cut := statedValue_cString key.flat.1 key.flat.2.1 key.flat.2.2 content
  rw [confExtract_eq key.flat.1 key.flat.2.1]
  revert cut
  generalize statedValue content key.text = whole
  generalize statedValue (cString content) key.text = seen
  intro cut
  -- What the field is set to when it is seen is shorter than the field.
  have short : ∀ value : Bytes, (((some value).filter fun value =>
      decide (value.length < confPathMax)).map (snprintf key.size)).getD (prior.get key) =
        if value.length < confPathMax then snprintf key.size value else prior.get key := by
    intro value
    rw [Option.filter_some]
    by_cases inBuffer : value.length < confPathMax <;> simp [inBuffer]
  have bounded : ∀ value : Bytes, (if value.length < confPathMax then snprintf key.size value
      else prior.get key).length < key.size := by
    intro value
    split
    next => exact snprintf_length_lt size.1 value
    next => exact keep
  cases cut with
  | missing =>
      cases whole with
      | none => simp
      | some value =>
          simp only [Option.filter_none, Option.map_none, Option.getD_none, Option.getD_some,
            reduceCtorEq, false_and, false_or, true_and]
          exact ⟨fun same other is => Option.some.inj is ▸ same, fun every => every value rfl⟩
  | @same value stated =>
      rw [stated, Option.getD_some, short]
      constructor
      · rintro held other is
        obtain rfl := Option.some.inj is
        exact Or.inl ⟨rfl, held ▸ bounded value⟩
      · intro fits
        rcases fits value rfl with ⟨_, fitsField⟩ | ⟨missing, _⟩
        · rw [if_pos (Nat.lt_of_lt_of_le fitsField size.2), snprintf_of_lt fitsField]
        · contradiction
  | @shortened value longer stated nul shorter =>
      rw [stated, Option.getD_some, short]
      constructor
      · intro held
        have fits := bounded value
        rw [held] at fits
        rw [if_pos (by omega), snprintf_of_lt (by omega)] at held
        rw [held] at shorter
        omega
      · intro fits
        rcases fits longer rfl with ⟨same, _⟩ | ⟨missing, _⟩
        · rw [Option.some.inj same] at shorter
          omega
        · contradiction

theorem portKey_flat : lineFeed ∉ portKey ∧ portKey ≠ [] ∧ 0 ∉ portKey := by decide

/-- The text is loaded, unless a short port is none. -/
theorem overlayAll_none : overlayAll prior buf = none ↔ RefusedPort buf := by
  unfold overlayAll RefusedPort
  dsimp only
  rw [show ascii "port=" = portKey from rfl, confExtract_eq portKey_flat.1 portKey_flat.2.1]
  cases statedValue buf portKey with
  | none => simp
  | some port =>
      have refused : confParsePort port = none ↔ ∀ number, ¬ PortText port number := by
        simp only [← confParsePort_iff]
        exact Option.eq_none_iff_forall_ne_some
      rw [Option.filter_some]
      by_cases short : port.length < 32
      · simp [short, refused]
      · simp [short]

theorem alreadySet_iff {text : Bytes} : ExactOverlay text prior prior ↔ AlreadySet text prior := by
  constructor
  · intro overlaid
    refine ⟨?_, overlaid.statedPort⟩
    intro key value stated
    rw [overlaid.value key, stated, Option.getD_some]
  · intro already
    refine ⟨?_, fun _ => rfl, already.port⟩
    intro key
    cases stated : statedValue text key.text with
    | none => rfl
    | some value => exact already.values key value stated

/-- The port that a load leaves, by what it sees of the file. -/
theorem loaded_port {content : Bytes} (result : overlayAll prior (cString content) = some loaded) :
    (statedValue (cString content) portKey = none → loaded.port = prior.port) ∧
      ∀ port, statedValue (cString content) portKey = some port →
        if port.length < 32 then PortText port loaded.port else loaded.port = prior.port := by
  have port := (overlayAll_some result).2
  rw [confExtract_eq portKey_flat.1 portKey_flat.2.1] at port
  constructor
  · intro unstated
    rw [unstated] at port
    exact port
  · intro text stated
    rw [stated, Option.filter_some] at port
    by_cases short : text.length < 32
    · rw [if_pos short]
      rw [if_pos (decide_eq_true short)] at port
      exact confParsePort_iff.mp port
    · rw [if_neg short]
      rw [if_neg (by simpa using short)] at port
      exact port

theorem port_exact_iff {content : Bytes}
    (result : overlayAll prior (cString content) = some loaded) :
    (∀ port, statedValue content portKey = some port → PortText port loaded.port) ↔
      ∀ port, statedValue content portKey = some port →
        statedValue (cString content) portKey = some port ∧
            (port.length < 32 ∨ PortText port prior.port) ∨
          statedValue (cString content) portKey = none ∧ PortText port prior.port := by
  obtain ⟨unstated, stated⟩ := loaded_port result
  refine forall_congr' fun port => forall_congr' fun whole => ?_
  have cut := statedValue_cString portKey_flat.1 portKey_flat.2.1 portKey_flat.2.2 content
  rw [whole] at cut
  revert cut
  generalize statedValue (cString content) portKey = seen at unstated stated
  intro cut
  cases cut with
  | missing =>
      rw [unstated rfl]
      simp
  | @same value same =>
      obtain rfl := Option.some.inj same
      have left := stated port rfl
      by_cases short : port.length < 32
      · rw [if_pos short] at left
        simp [short, left]
      · rw [if_neg short] at left
        simp [short, left]
  | @shortened value longer same nul shorter =>
      obtain rfl := Option.some.inj same
      have notSame : value ≠ port := fun is => by
        rw [is] at shorter
        omega
      constructor
      · intro held
        exact absurd nul held.noNul
      · rintro (⟨same, _⟩ | ⟨missing, _⟩)
        · exact absurd (Option.some.inj same) notSame
        · contradiction

theorem exactOverlay_iff {content : Bytes}
    (result : overlayAll prior (cString content) = some loaded) :
    ExactOverlay content prior loaded ↔ ValuesFit content prior := by
  have fields := (overlayAll_some result).1
  constructor
  · intro overlaid
    constructor
    · intro key
      exact (field_exact_iff key prior content).mp ((fields key).symm.trans (overlaid.value key))
    · exact (port_exact_iff result).mp overlaid.statedPort
  · intro fit
    constructor
    · intro key
      exact (fields key).trans ((field_exact_iff key prior content).mpr (fit.values key))
    · intro unstated
      apply (loaded_port result).1
      have cut := statedValue_cString portKey_flat.1 portKey_flat.2.1 portKey_flat.2.2 content
      rw [unstated] at cut
      cases seen : statedValue (cString content) portKey with
      | none => rfl
      | some value =>
          rw [seen] at cut
          cases cut <;> contradiction
    · exact (port_exact_iff result).mpr fit.port

/-- A load is refused or exact when every stated value fits the buffers between the
text and its field, and only then. -/
theorem exactLoad_iff (prior : Settings) (file : ConfFile) :
    ExactLoad prior file ↔ Usable prior file := by
  unfold ExactLoad
  cases file with
  | absent =>
      refine ⟨fun _ => trivial, fun _ loaded result => ?_⟩
      cases result
      have nothing : ∀ key : Bytes, key ≠ [] → statedValue [] key = none := by
        intro key nonempty
        simp [statedValue, statedLine, List.splitOn, nonempty]
      refine alreadySet_iff.mpr ⟨?_, ?_⟩
      · intro key value stated
        rw [ConfFile.text, nothing _ key.flat.2.1] at stated
        contradiction
      · intro port stated
        rw [ConfFile.text, nothing _ portKey_flat.2.1] at stated
        contradiction
  | denied content =>
      constructor
      · intro loads
        exact alreadySet_iff.mp (loads prior rfl)
      · intro already loaded result
        cases result
        exact alreadySet_iff.mpr already
  | broken content => exact ⟨fun _ => trivial, fun _ loaded result => by contradiction⟩
  | readable content =>
      unfold Usable confLoad ConfFile.text
      dsimp only
      cases result : overlayAll prior (cString content) with
      | none => exact ⟨fun _ => Or.inl (overlayAll_none.mp result), fun _ _ same => by contradiction⟩
      | some loaded =>
          have notRefused : ¬ RefusedPort (cString content) := by
            intro refused
            rw [overlayAll_none.mpr refused] at result
            contradiction
          rw [or_iff_right notRefused, ← exactOverlay_iff result]
          constructor
          · intro loads
            exact loads loaded rfl
          · intro overlaid other same
            cases same
            exact overlaid

/-- What routing reads of the settings. -/
def Settings.conf (c : Settings) (policy : SignaturePolicy) (webFiles : Bytes → Option Bytes) :
    Conf :=
  ⟨c.pushToken.text, c.pullToken.text, policy, c.webRoot.text, webFiles⟩

/-- A stated push token guards the daemon that loaded it exactly. -/
theorem ExactOverlay.guarded {text token : Bytes} {req : HttpRequest} {policy : SignaturePolicy}
    {webFiles : Bytes → Option Bytes} (overlaid : ExactOverlay text prior loaded)
    (stated : statedValue text (ascii "push_token=") = some token) (nonempty : token ≠ [])
    (bare : httpFindHeader req.headers (ascii "Authorization") (confTokenMax + 32) = none) :
    bearerOk req (loaded.conf policy webFiles).pushToken = false := by
  have value : loaded.pushToken.text = token := by
    have whole := overlaid.value .pushToken
    unfold ConfKey.text at whole
    rwa [stated, Option.getD_some] at whole
  unfold bearerOk Settings.conf
  rw [value, if_neg nonempty, bare]

end Loading

/-- `push_token=` and 512 bytes. -/
def longTokenFile : ConfFile := .readable (ascii "push_token=" ++ List.replicate 512 97)

/-- A file whose push token has 512 bytes is loaded without one. -/
theorem long_token_ignored :
    (confLoad confDefaults longTokenFile).map (fun loaded => loaded.pushToken.text) = some [] ∧
      statedValue longTokenFile.text (ascii "push_token=") = some (List.replicate 512 97) ∧
      ¬ ExactLoad confDefaults longTokenFile := by
  have ignored : (confLoad confDefaults longTokenFile).map (fun loaded => loaded.pushToken.text) =
      some [] := by
    decide +kernel
  have stated : statedValue longTokenFile.text (ascii "push_token=") =
      some (List.replicate 512 97) := by
    decide +kernel
  refine ⟨ignored, stated, ?_⟩
  intro exactLoad
  obtain ⟨loaded, result, empty⟩ := Option.map_eq_some_iff.mp ignored
  have value := (exactLoad loaded result).value .pushToken
  unfold ConfKey.text at value
  rw [stated, Option.getD_some] at value
  have lengths := congrArg List.length (empty.symm.trans value)
  rw [List.length_nil, List.length_replicate] at lengths
  omega

end CixCache
