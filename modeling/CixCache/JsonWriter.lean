import CixCache.Json

/-!
Contract: the incremental JSON writer, and the trees its texts are of.

Owns: the `jw_` functions; `JsonValue.text`, how a tree is rendered, and `JsonValue.depth`,
how many containers it nests; and the rules by which a sequence of writer calls is known to
write a tree, so that a document is read as a tree and not as a text.

Does not own: any document.
-/

namespace CixCache

/-! ## Functions of the source -/

inductive JwContainer where
  | obj
  | arr
deriving DecidableEq, Repr

/-- `JW_MAX_DEPTH`, the size of the arrays `stack` and `has_item`. -/
def jwMaxDepth : Nat := 16

/-- `struct json_writer`; of `stack` and `has_item` the innermost open container
comes first. `overrun` says that a container was opened behind the end of the arrays:
the source checks no depth, and what C does from there on is not defined. -/
structure JsonWriter where
  buf : Bytes
  stack : List (JwContainer × Bool)
  overrun : Bool
deriving DecidableEq, Repr

def jwInit : JsonWriter := ⟨[], [], false⟩

def jwRaw (w : JsonWriter) (s : Bytes) : JsonWriter := { w with buf := w.buf ++ s }

abbrev quote : Byte := 34
abbrev comma : Byte := 44
abbrev keySep : Byte := 58
abbrev openArr : Byte := 91
abbrev backslash : Byte := 92
abbrev closeArr : Byte := 93
abbrev openObj : Byte := 123
abbrev closeObj : Byte := 125

/-- A digit of `%04x`. -/
def hexDigit (n : Nat) : Byte := UInt8.ofNat (if n < 10 then 48 + n else 87 + n)

/-- What `jw_escape_content` writes for one byte. -/
def escapedByte (c : Byte) : Bytes :=
  if c = quote ∨ c = backslash then [backslash, c]
  else if c = 10 then [backslash, 110]
  else if c = 9 then [backslash, 116]
  else if c = 13 then [backslash, 114]
  else if c = 8 then [backslash, 98]
  else if c = 12 then [backslash, 102]
  else if c < 32 then
    [backslash, 117, zero, zero, hexDigit (c.toNat / 16), hexDigit (c.toNat % 16)]
  else [c]

def jwEscapeContent (w : JsonWriter) (s : Bytes) : JsonWriter :=
  s.foldl (fun w c => jwRaw w (escapedByte c)) w

def jwEscapedString (w : JsonWriter) (s : Bytes) : JsonWriter :=
  jwRaw (jwEscapeContent (jwRaw w [quote]) s) [quote]

def jwValuePrefix (w : JsonWriter) : JsonWriter :=
  match w.stack with
  | (.arr, hasItem) :: outer =>
      { w with
        buf := if hasItem then w.buf ++ [comma] else w.buf
        stack := (.arr, true) :: outer }
  -- jw_key has handled the comma and the mark already.
  | _ => w

/-- The assignments to `stack[depth]` and `has_item[depth]`. -/
def jwPush (w : JsonWriter) (kind : JwContainer) : JsonWriter :=
  { w with
    stack := (kind, false) :: w.stack
    overrun := w.overrun || decide (jwMaxDepth ≤ w.stack.length) }

def jwObjOpen (w : JsonWriter) : JsonWriter := jwPush (jwRaw (jwValuePrefix w) [openObj]) .obj

def jwObjClose (w : JsonWriter) : JsonWriter :=
  jwRaw { w with stack := w.stack.tail } [closeObj]

def jwArrOpen (w : JsonWriter) : JsonWriter := jwPush (jwRaw (jwValuePrefix w) [openArr]) .arr

def jwArrClose (w : JsonWriter) : JsonWriter :=
  jwRaw { w with stack := w.stack.tail } [closeArr]

/-- Called only while an object is open. -/
def jwKey (w : JsonWriter) (key : Bytes) : JsonWriter :=
  match w.stack with
  | (kind, hasItem) :: outer =>
      let w : JsonWriter :=
        { w with
          buf := if hasItem then w.buf ++ [comma] else w.buf
          stack := (kind, true) :: outer }
      jwRaw (jwEscapedString w key) [keySep]
  | [] => w

def jwStr (w : JsonWriter) (s : Bytes) : JsonWriter := jwEscapedString (jwValuePrefix w) s

/-- `%lld` -/
def printedInt : Int → Bytes
  | .ofNat n => printed n
  | .negSucc n => dash :: printed (n + 1)

def jwInt (w : JsonWriter) (v : Int) : JsonWriter := jwRaw (jwValuePrefix w) (printedInt v)

def jwBool (w : JsonWriter) (b : Bool) : JsonWriter :=
  jwRaw (jwValuePrefix w) (if b then ascii "true" else ascii "false")

def jwNull (w : JsonWriter) : JsonWriter := jwRaw (jwValuePrefix w) (ascii "null")

/-! ## The text of a tree -/

/-- A string literal. -/
def quoted (s : Bytes) : Bytes := quote :: s.flatMap escapedByte ++ [quote]

/-- A byte is escaped by six at most. -/
theorem quoted_length (s : Bytes) : (quoted s).length ≤ 6 * s.length + 2 := by
  have one : ∀ c, (escapedByte c).length ≤ 6 := by
    intro c
    unfold escapedByte
    split_ifs <;> simp
  have escaped : (s.flatMap escapedByte).length ≤ 6 * s.length := by
    induction s with
    | nil => simp
    | cons c rest inductionHypothesis =>
        have head := one c
        rw [List.flatMap_cons, List.length_append, List.length_cons]
        omega
  rw [quoted, List.length_append, List.length_cons, List.length_singleton]
  omega

mutual

def JsonValue.text : JsonValue → Bytes
  | .null => ascii "null"
  | .boolean value => if value then ascii "true" else ascii "false"
  | .number text => text
  | .string text => quoted text
  | .array items => openArr :: itemsText false items ++ [closeArr]
  | .object members => openObj :: membersText false members ++ [closeObj]

/-- Items behind a first one, or with none in front of them. -/
def itemsText : Bool → List JsonValue → Bytes
  | _, [] => []
  | hasItem, item :: rest =>
      (if hasItem then [comma] else []) ++ item.text ++ itemsText true rest

def membersText : Bool → List (Bytes × JsonValue) → Bytes
  | _, [] => []
  | hasItem, (key, value) :: rest =>
      (if hasItem then [comma] else []) ++ quoted key ++ [keySep] ++ value.text ++
        membersText true rest

end

section Texts

attribute [local simp] JsonValue.text itemsText membersText

theorem itemsText_append (hasItem : Bool) (front back : List JsonValue) :
    itemsText hasItem (front ++ back) =
      itemsText hasItem front ++ itemsText (hasItem || !front.isEmpty) back := by
  induction front generalizing hasItem with
  | nil => simp
  | cons item rest inductionHypothesis =>
      rw [List.cons_append, itemsText, itemsText, inductionHypothesis]
      simp

theorem membersText_append (hasItem : Bool) (front back : List (Bytes × JsonValue)) :
    membersText hasItem (front ++ back) =
      membersText hasItem front ++ membersText (hasItem || !front.isEmpty) back := by
  induction front generalizing hasItem with
  | nil => simp
  | cons member rest inductionHypothesis =>
      rw [List.cons_append, membersText, membersText, inductionHypothesis]
      simp

end Texts

/-! ## The depth of a tree -/

mutual

/-- How many containers are open at once while the tree is written. -/
def JsonValue.depth : JsonValue → Nat
  | .null => 0
  | .boolean _ => 0
  | .number _ => 0
  | .string _ => 0
  | .array items => itemsDepth items + 1
  | .object members => membersDepth members + 1

def itemsDepth : List JsonValue → Nat
  | [] => 0
  | item :: rest => max item.depth (itemsDepth rest)

def membersDepth : List (Bytes × JsonValue) → Nat
  | [] => 0
  | (_, value) :: rest => max value.depth (membersDepth rest)

end

section Depths

attribute [local simp] JsonValue.depth itemsDepth membersDepth

theorem itemsDepth_append (front back : List JsonValue) :
    itemsDepth (front ++ back) = max (itemsDepth front) (itemsDepth back) := by
  induction front with
  | nil => simp
  | cons item rest inductionHypothesis =>
      rw [List.cons_append, itemsDepth, itemsDepth, inductionHypothesis, max_assoc]

theorem membersDepth_append (front back : List (Bytes × JsonValue)) :
    membersDepth (front ++ back) = max (membersDepth front) (membersDepth back) := by
  induction front with
  | nil => simp
  | cons member rest inductionHypothesis =>
      rw [List.cons_append, membersDepth, membersDepth, inductionHypothesis, max_assoc]

theorem itemsDepth_le_iff {items : List JsonValue} {bound : Nat} :
    itemsDepth items ≤ bound ↔ ∀ item ∈ items, item.depth ≤ bound := by
  induction items with
  | nil => simp
  | cons item rest inductionHypothesis => simp [Nat.max_le, inductionHypothesis]

theorem membersDepth_le_iff {members : List (Bytes × JsonValue)} {bound : Nat} :
    membersDepth members ≤ bound ↔ ∀ member ∈ members, member.2.depth ≤ bound := by
  induction members with
  | nil => simp
  | cons member rest inductionHypothesis => simp [Nat.max_le, inductionHypothesis]

end Depths

theorem array_depth_le {items : List JsonValue} {bound : Nat}
    (each : ∀ item ∈ items, item.depth ≤ bound) : (JsonValue.array items).depth ≤ bound + 1 :=
  Nat.succ_le_succ (itemsDepth_le_iff.mpr each)

theorem object_depth_le {members : List (Bytes × JsonValue)} {bound : Nat}
    (each : ∀ member ∈ members, member.2.depth ≤ bound) :
    (JsonValue.object members).depth ≤ bound + 1 :=
  Nat.succ_le_succ (membersDepth_le_iff.mpr each)

/-- Containers nested in so many open ones are more than the arrays hold. -/
def overruns (opened depth : Nat) : Bool := decide (0 < depth ∧ jwMaxDepth < opened + depth)

@[simp] theorem overruns_zero (opened : Nat) : overruns opened 0 = false := by simp [overruns]

theorem overruns_max (opened left right : Nat) :
    overruns opened (max left right) = (overruns opened left || overruns opened right) := by
  rw [Bool.eq_iff_iff]
  simp only [overruns, Bool.or_eq_true, decide_eq_true_eq]
  omega

/-- A container is opened, and then what is nested in it. -/
theorem overruns_succ (opened depth : Nat) :
    overruns opened (depth + 1) =
      (decide (jwMaxDepth ≤ opened) || overruns (opened + 1) depth) := by
  rw [Bool.eq_iff_iff]
  simp only [overruns, Bool.or_eq_true, decide_eq_true_eq]
  omega

/-! ## Calls that write a tree -/

def JsonWriter.nested (w : JsonWriter) (depth : Nat) : JsonWriter :=
  { w with overrun := w.overrun || overruns w.stack.length depth }

@[simp] theorem JsonWriter.nested_zero (w : JsonWriter) : w.nested 0 = w := by
  simp [JsonWriter.nested]

/-- The calls write one value where a value may stand. -/
def WritesValue (write : JsonWriter → JsonWriter) (value : JsonValue) : Prop :=
  ∀ w, write w = (jwRaw (jwValuePrefix w) value.text).nested value.depth

/-- The calls write items into the array that is open. -/
def WritesItems (write : JsonWriter → JsonWriter) (items : List JsonValue) : Prop :=
  ∀ buf hasItem outer overrun, write ⟨buf, (.arr, hasItem) :: outer, overrun⟩ =
    ⟨buf ++ itemsText hasItem items, (.arr, hasItem || !items.isEmpty) :: outer,
      overrun || overruns (outer.length + 1) (itemsDepth items)⟩

/-- The calls write members into the object that is open. -/
def WritesMembers (write : JsonWriter → JsonWriter) (members : List (Bytes × JsonValue)) : Prop :=
  ∀ buf hasItem outer overrun, write ⟨buf, (.obj, hasItem) :: outer, overrun⟩ =
    ⟨buf ++ membersText hasItem members, (.obj, hasItem || !members.isEmpty) :: outer,
      overrun || overruns (outer.length + 1) (membersDepth members)⟩

theorem jwEscapeContent_eq (w : JsonWriter) (s : Bytes) :
    jwEscapeContent w s = jwRaw w (s.flatMap escapedByte) := by
  unfold jwEscapeContent
  induction s generalizing w with
  | nil => simp [jwRaw]
  | cons c rest inductionHypothesis =>
      rw [List.foldl_cons, inductionHypothesis]
      simp [jwRaw]

theorem jwEscapedString_eq (w : JsonWriter) (s : Bytes) :
    jwEscapedString w s = jwRaw w (quoted s) := by
  rw [jwEscapedString, jwEscapeContent_eq]
  simp [jwRaw, quoted]

section Values

theorem writes_str (s : Bytes) : WritesValue (jwStr · s) (.string s) := by
  intro w
  show jwEscapedString (jwValuePrefix w) s = _
  rw [jwEscapedString_eq, JsonValue.text, JsonValue.depth, JsonWriter.nested_zero]

theorem writes_int (v : Int) : WritesValue (jwInt · v) (.number (printedInt v)) := by
  intro w
  rw [JsonValue.text, JsonValue.depth, JsonWriter.nested_zero]
  rfl

theorem writes_bool (b : Bool) : WritesValue (jwBool · b) (.boolean b) := by
  intro w
  rw [JsonValue.text, JsonValue.depth, JsonWriter.nested_zero]
  rfl

theorem writes_null : WritesValue jwNull .null := by
  intro w
  rw [JsonValue.text, JsonValue.depth, JsonWriter.nested_zero]
  rfl

theorem WritesMembers.object {body : JsonWriter → JsonWriter}
    {members : List (Bytes × JsonValue)} (writes : WritesMembers body members) :
    WritesValue (fun w => jwObjClose (body (jwObjOpen w))) (.object members) := by
  intro w
  show jwObjClose (body ⟨(jwValuePrefix w).buf ++ [openObj], (.obj, false) :: _, _⟩) = _
  rw [writes, JsonValue.text, JsonValue.depth, JsonWriter.nested, overruns_succ, ← Bool.or_assoc]
  simp only [jwObjClose, jwRaw, List.tail_cons, List.append_assoc]
  rfl

theorem WritesItems.array {body : JsonWriter → JsonWriter} {items : List JsonValue}
    (writes : WritesItems body items) :
    WritesValue (fun w => jwArrClose (body (jwArrOpen w))) (.array items) := by
  intro w
  show jwArrClose (body ⟨(jwValuePrefix w).buf ++ [openArr], (.arr, false) :: _, _⟩) = _
  rw [writes, JsonValue.text, JsonValue.depth, JsonWriter.nested, overruns_succ, ← Bool.or_assoc]
  simp only [jwArrClose, jwRaw, List.tail_cons, List.append_assoc]
  rfl

/-- A document is the text of its value. -/
theorem WritesValue.document {write : JsonWriter → JsonWriter} {value : JsonValue}
    (writes : WritesValue write value) : (write jwInit).buf = value.text := by
  rw [writes]
  rfl

/-- The writer of a document overruns its arrays where the value nests too deep. -/
theorem WritesValue.overrun_iff {write : JsonWriter → JsonWriter} {value : JsonValue}
    (writes : WritesValue write value) :
    (write jwInit).overrun = true ↔ jwMaxDepth < value.depth := by
  rw [writes]
  show (false || overruns 0 value.depth) = true ↔ _
  simp only [overruns, Bool.false_or, decide_eq_true_eq]
  omega

end Values

section Items

theorem WritesItems.nil : WritesItems (fun w => w) [] := by
  intro buf hasItem outer overrun
  simp [itemsText, itemsDepth]

theorem WritesValue.item {write : JsonWriter → JsonWriter} {value : JsonValue}
    (writes : WritesValue write value) : WritesItems write [value] := by
  intro buf hasItem outer overrun
  rw [writes, itemsText, itemsText, itemsDepth, itemsDepth, Nat.max_zero]
  cases hasItem <;> simp [jwValuePrefix, jwRaw, JsonWriter.nested]

theorem WritesItems.append {first second : JsonWriter → JsonWriter}
    {front back : List JsonValue} (writesFirst : WritesItems first front)
    (writesSecond : WritesItems second back) :
    WritesItems (fun w => second (first w)) (front ++ back) := by
  intro buf hasItem outer overrun
  dsimp only
  rw [writesFirst, writesSecond, itemsText_append, itemsDepth_append, overruns_max]
  cases front <;> simp [Bool.or_assoc]

theorem WritesItems.foldl {α : Type} {write : JsonWriter → α → JsonWriter}
    {tree : α → JsonValue} (writes : ∀ element, WritesValue (write · element) (tree element))
    (elements : List α) : WritesItems (fun w => elements.foldl write w) (elements.map tree) := by
  induction elements with
  | nil => exact WritesItems.nil
  | cons element rest inductionHypothesis =>
      exact WritesItems.append (writes element).item inductionHypothesis

end Items

section Members

theorem WritesMembers.nil : WritesMembers (fun w => w) [] := by
  intro buf hasItem outer overrun
  simp [membersText, membersDepth]

theorem WritesValue.member {write : JsonWriter → JsonWriter} {value : JsonValue}
    (writes : WritesValue write value) (key : Bytes) :
    WritesMembers (fun w => write (jwKey w key)) [(key, value)] := by
  intro buf hasItem outer overrun
  show write (jwRaw (jwEscapedString ⟨if hasItem then buf ++ [comma] else buf, _, _⟩ key)
    [keySep]) = _
  rw [writes, jwEscapedString_eq, membersText, membersText, membersDepth, membersDepth,
    Nat.max_zero]
  cases hasItem <;> simp [jwValuePrefix, jwRaw, JsonWriter.nested]

theorem WritesMembers.append {first second : JsonWriter → JsonWriter}
    {front back : List (Bytes × JsonValue)} (writesFirst : WritesMembers first front)
    (writesSecond : WritesMembers second back) :
    WritesMembers (fun w => second (first w)) (front ++ back) := by
  intro buf hasItem outer overrun
  dsimp only
  rw [writesFirst, writesSecond, membersText_append, membersDepth_append, overruns_max]
  cases front <;> simp [Bool.or_assoc]

theorem WritesMembers.foldl {α : Type} {write : JsonWriter → α → JsonWriter}
    {tree : α → Bytes × JsonValue}
    (writes : ∀ element, WritesMembers (write · element) [tree element])
    (elements : List α) : WritesMembers (fun w => elements.foldl write w) (elements.map tree) := by
  induction elements with
  | nil => exact WritesMembers.nil
  | cons element rest inductionHypothesis =>
      exact WritesMembers.append (writes element) inductionHypothesis

end Members

end CixCache
