import CixCache.JsonParse

/-!
Contract: what the writer writes, the parser reads back.

Owns: `JsonValue.Plain`, the trees a text can carry; that the text of a plain tree denotes
it; and so that parsing is the inverse of writing on plain trees.

Does not own: which trees the documents of the server are.
-/

namespace CixCache

open CixCache.Lib

/-! ## Trees a text can carry -/

mutual

/-- No string has a NUL, and every number is a lexeme that fits the parser's buffer. -/
def JsonValue.Plain : JsonValue → Prop
  | .null => True
  | .boolean _ => True
  | .number text => Lexeme text ∧ text.length < numberSize
  | .string text => 0 ∉ text
  | .array items => PlainItems items
  | .object members => PlainMembers members

def PlainItems : List JsonValue → Prop
  | [] => True
  | item :: rest => item.Plain ∧ PlainItems rest

def PlainMembers : List (Bytes × JsonValue) → Prop
  | [] => True
  | (key, value) :: rest => 0 ∉ key ∧ value.Plain ∧ PlainMembers rest

end

theorem plainItems_iff {items : List JsonValue} :
    PlainItems items ↔ ∀ item ∈ items, item.Plain := by
  induction items with
  | nil => simp [PlainItems]
  | cons item rest inductionHypothesis => simp [PlainItems, inductionHypothesis]

theorem plainMembers_iff {members : List (Bytes × JsonValue)} :
    PlainMembers members ↔ ∀ member ∈ members, 0 ∉ member.1 ∧ member.2.Plain := by
  induction members with
  | nil => simp [PlainMembers]
  | cons member rest inductionHypothesis =>
      simp [PlainMembers, inductionHypothesis, and_assoc]

/-! ## Escaped strings -/

theorem hexDigit_digit {n : Nat} (small : n < 16) : HexDigit n (hexDigit n) := by
  have value : (hexDigit n).toNat = if n < 10 then 48 + n else 87 + n := by
    rw [hexDigit, UInt8.toNat_ofNat']
    split <;> omega
  unfold HexDigit
  rw [value]
  split <;> omega

/-- An escaped byte stands for itself. -/
theorem stringBody_escaped (c : Byte) {body out : Bytes} (rest : StringBody body out) :
    StringBody (escapedByte c ++ body) (c :: out) := by
  unfold escapedByte
  split
  next own =>
    rcases own with rfl | rfl
    · exact .letter (by decide) rest
    · exact .letter (by decide) rest
  next ordinary =>
  split
  next same => rw [same]; exact .letter (by decide) rest
  next =>
  split
  next same => rw [same]; exact .letter (by decide) rest
  next =>
  split
  next same => rw [same]; exact .letter (by decide) rest
  next =>
  split
  next same => rw [same]; exact .letter (by decide) rest
  next =>
  split
  next same => rw [same]; exact .letter (by decide) rest
  next =>
  split
  next control =>
    have bound : c.toNat < 32 := UInt8.lt_iff_toNat_lt.mp control
    exact .code (hexDigit_digit (by omega)) (hexDigit_digit (by omega)) (by omega) rest
  next =>
    rw [not_or] at ordinary
    exact .plain ordinary.1 ordinary.2 rest

theorem stringBody_escapes (s : Bytes) : StringBody (s.flatMap escapedByte) s := by
  induction s with
  | nil => exact .nil
  | cons c rest inductionHypothesis =>
      rw [List.flatMap_cons]
      exact stringBody_escaped c inductionHypothesis

theorem literal_quoted {s : Bytes} (noNul : 0 ∉ s) : Literal (quoted s) s := by
  have literal := Literal.mk (stringBody_escapes s)
  rw [cString_eq_self.mpr noNul] at literal
  exact literal

/-! ## Printed numbers -/

theorem lexeme_printed (n : Nat) : Lexeme (printed n) := by
  have nonempty : printed n ≠ [] := by simp [printed]
  have digits : Lexeme (printed n ++ [] ++ []) :=
    .positive nonempty (printed_digits n) .absent .absent
  simpa using digits

theorem lexeme_printedInt (v : Int) : Lexeme (printedInt v) := by
  cases v with
  | ofNat n => exact lexeme_printed n
  | negSucc n =>
      have negative : Lexeme (dash :: printed (n + 1) ++ [] ++ []) :=
        .negative (printed_digits (n + 1)) .absent .absent
      rw [printedInt]
      simpa using negative

/-- A `long long`. -/
def FitsLong (v : Int) : Prop := -2 ^ 63 ≤ v ∧ v < 2 ^ 63

instance (v : Int) : Decidable (FitsLong v) :=
  inferInstanceAs (Decidable (_ ∧ _))

theorem printedInt_length {v : Int} (fits : FitsLong v) : (printedInt v).length < numberSize := by
  unfold FitsLong at fits
  cases v with
  | ofNat n =>
      have small : n < 10 ^ 19 := by
        have bound := fits.2
        rw [Int.ofNat_eq_natCast] at bound
        omega
      have length := printed_length (k := 19) (by omega) small
      show (printed n).length < 64
      omega
  | negSucc n =>
      have small : n + 1 < 10 ^ 19 := by
        have bound := fits.1
        rw [Int.negSucc_eq] at bound
        omega
      have length := printed_length (k := 19) (by omega) small
      show (printed (n + 1)).length + 1 < 64
      omega

theorem plain_int {v : Int} (fits : FitsLong v) : (JsonValue.number (printedInt v)).Plain :=
  ⟨lexeme_printedInt v, printedInt_length fits⟩

/-! ## Texts of trees -/

theorem itemsText_next (item : JsonValue) (rest : List JsonValue) :
    itemsText true (item :: rest) = comma :: itemsText false (item :: rest) := by
  rw [itemsText, itemsText]
  rfl

theorem membersText_next (member : Bytes × JsonValue) (rest : List (Bytes × JsonValue)) :
    membersText true (member :: rest) = comma :: membersText false (member :: rest) := by
  obtain ⟨key, value⟩ := member
  rw [membersText, membersText]
  simp

theorem isWs_nil : IsWs [] := by
  intro c none
  contradiction

mutual

/-- The text of a plain tree is one of that tree. -/
theorem denotes_text : ∀ value : JsonValue, value.Plain → Denotes value.text value
  | .null, _ => .null
  | .boolean true, _ => .yes
  | .boolean false, _ => .no
  | .number _, plain => .number plain.1 plain.2
  | .string _, plain => .string (literal_quoted plain)
  | .array [], _ => .array (.empty isWs_nil)
  | .array (item :: rest), plain => .array (.items (denotes_items (item :: rest) nofun plain))
  | .object [], _ => .object (.empty isWs_nil)
  | .object (member :: rest), plain =>
      .object (.members (denotes_members (member :: rest) nofun plain))

theorem denotes_items : ∀ items : List JsonValue, items ≠ [] → PlainItems items →
    DenotesItems (itemsText false items) items
  | [], nonempty, _ => absurd rfl nonempty
  | [item], _, plain => by
      have last := DenotesItems.last isWs_nil (denotes_text item plain.1) isWs_nil
      simpa [itemsText] using last
  | item :: next :: rest, _, plain => by
      have others := DenotesItems.cons isWs_nil (denotes_text item plain.1) isWs_nil
        (denotes_items (next :: rest) nofun plain.2)
      rw [itemsText, itemsText_next]
      simpa using others

theorem denotes_members : ∀ members : List (Bytes × JsonValue), members ≠ [] →
    PlainMembers members → DenotesMembers (membersText false members) members
  | [], nonempty, _ => absurd rfl nonempty
  | [(key, value)], _, plain => by
      have last := DenotesMembers.last isWs_nil (literal_quoted plain.1) isWs_nil isWs_nil
        (denotes_text value plain.2.1) isWs_nil
      simpa [membersText] using last
  | (key, value) :: next :: rest, _, plain => by
      have others := DenotesMembers.cons isWs_nil (literal_quoted plain.1) isWs_nil isWs_nil
        (denotes_text value plain.2.1) isWs_nil (denotes_members (next :: rest) nofun plain.2.2)
      rw [membersText, membersText_next]
      simpa using others

end

/-- What is written of a plain tree is read back, blanks around it or not. -/
theorem jsonParse_written {value : JsonValue} (plain : value.Plain) {front back : Bytes}
    (before : IsWs front) (after : IsWs back) :
    jsonParse (front ++ (value.text ++ back)) = some value :=
  (jsonParse_iff _ _).mpr ⟨front, value.text, back, rfl, before, after, denotes_text value plain⟩

theorem jsonParse_text {value : JsonValue} (plain : value.Plain) :
    jsonParse value.text = some value := by
  have parsed := jsonParse_written plain isWs_nil isWs_nil
  rwa [List.nil_append, List.append_nil] at parsed

/-- Calls that write a plain tree write a text of it. -/
theorem WritesValue.parsed {write : JsonWriter → JsonWriter} {value : JsonValue}
    (writes : WritesValue write value) (plain : value.Plain) :
    jsonParse (write jwInit).buf = some value := by
  rw [writes.document]
  exact jsonParse_text plain

/-- The calls write a document inside the arrays of the writer, and it is read as the tree. -/
structure ReadBack (write : JsonWriter → JsonWriter) (value : JsonValue) : Prop where
  inside : (write jwInit).overrun = false
  parsed : jsonParse (write jwInit).buf = some value

theorem WritesValue.readBack {write : JsonWriter → JsonWriter} {value : JsonValue}
    (writes : WritesValue write value) (plain : value.Plain) (shallow : value.depth ≤ jwMaxDepth) :
    ReadBack write value where
  inside := by
    rw [← Bool.not_eq_true, writes.overrun_iff, Nat.not_lt]
    exact shallow
  parsed := writes.parsed plain

end CixCache
