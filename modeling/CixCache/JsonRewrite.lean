import CixCache.JsonRoundTrip
import CixCache.Lib.Rounding
import CixCache.Name.Decimal

/-!
Contract: a parsed document written back out.

Owns: `Double` and `strtod`, the number a lexeme is read as; `JsonTree`, the trees with their
numbers; `jwValue` and `jwNum`, which write one; and which trees are read back from what was
written of them.

Does not own: documents that are written field by field.
-/

namespace CixCache

open CixCache.Lib

/-! ## Numbers -/

/-- The digits of a `double`, and where the least one may stand. -/
def binary64 : Precision := ⟨53, -1074⟩

/-- A `double` that is a number. Its two zeros are one: the writer does not tell them
apart. -/
structure FiniteDouble where
  value : ℚ
  rounded : binary64.nearest value = value
  bounded : |value| < 2 ^ 1024
deriving DecidableEq

inductive Double where
  | finite (number : FiniteDouble)
  | infinite (negative : Bool)
deriving DecidableEq

/-- The `double` next to a rational. -/
def Double.round (q : ℚ) : Double :=
  if bounded : |binary64.nearest q| < 2 ^ 1024 then
    .finite ⟨binary64.nearest q, Precision.nearest_nearest (by decide) q, bounded⟩
  else .infinite (decide (q < 0))

/-- What stands behind a decimal point. -/
def fractionDigits (text : Bytes) : Bytes :=
  match text with
  | c :: rest => if c = dot then rest.takeWhile isDigit else []
  | [] => []

/-- The number behind an `e`, which counts only with a digit. -/
def exponentValue (text : Bytes) : Int :=
  match text with
  | c :: rest =>
      if c = 101 ∨ c = 69 then
        let size : Int := runValue ((skipPlusMinus rest).takeWhile isDigit)
        if rest.head? = some dash then -size else size
      else 0
  | [] => 0

def unsignedValue (text : Bytes) : ℚ :=
  let fraction := fractionDigits (skipDigits text)
  let exponent := exponentValue (skipFraction (skipDigits text))
  runValue (text.takeWhile isDigit ++ fraction) * 10 ^ (exponent - fraction.length)

/-- `strtod` of a lexeme. -/
def strtod (lexeme : Bytes) : Double :=
  let value := unsignedValue (skipSign lexeme)
  Double.round (if lexeme.head? = some dash then -value else value)

/-! ## Trees with numbers -/

/-- `struct json_value`. -/
inductive JsonTree where
  | null
  | boolean (value : Bool)
  | number (value : Double)
  | string (text : Bytes)
  | array (items : List JsonTree)
  | object (members : List (Bytes × JsonTree))

mutual

/-- The tree the parser makes of its lexemes. -/
def JsonValue.tree : JsonValue → JsonTree
  | .null => .null
  | .boolean value => .boolean value
  | .number lexeme => .number (strtod lexeme)
  | .string text => .string text
  | .array items => .array (itemTrees items)
  | .object members => .object (memberTrees members)

def itemTrees : List JsonValue → List JsonTree
  | [] => []
  | item :: rest => item.tree :: itemTrees rest

def memberTrees : List (Bytes × JsonValue) → List (Bytes × JsonTree)
  | [] => []
  | (key, value) :: rest => (key, value.tree) :: memberTrees rest

end

/-- What `json_parse` hands out. -/
def parsedTree (text : Bytes) : Option JsonTree := (jsonParse text).map JsonValue.tree

/-! ## Writing a tree -/

/-- A `double` that `(long long)` leaves as it is. Out of the range of a `long long` the cast
is not defined; an x86 gives `-2 ^ 63`, which is no such number. -/
def Double.integral : Double → Option Int
  | .finite number =>
      if number.value.den = 1 ∧ FitsLong number.value.num then some number.value.num else none
  | .infinite _ => none

/-- A hundred times the number, without its sign. -/
def hundredths (q : ℚ) : Nat := (roundHalfEven (|q| * 100)).toNat

def lastTwoDigits (n : Nat) : Bytes := [hexDigit (n / 10 % 10), hexDigit (n % 10)]

/-- `%.2f` -/
def Double.fixed : Double → Bytes
  | .finite number =>
      (if number.value < 0 then [dash] else []) ++
        (printed (hundredths number.value / 100) ++ dot :: lastTwoDigits (hundredths number.value))
  | .infinite negative => (if negative then [dash] else []) ++ ascii "inf"

def jwNum (w : JsonWriter) (v : Double) : JsonWriter :=
  jwRaw (jwValuePrefix w) (snprintf 32 v.fixed)

mutual

/-- `jw_value`; a null pointer is written as `null`. -/
def jwValue (w : JsonWriter) : JsonTree → JsonWriter
  | .null => jwNull w
  | .boolean value => jwBool w value
  | .number value =>
      match value.integral with
      | some v => jwInt w v
      | none => jwNum w value
  | .string text => jwStr w text
  | .array items => jwArrClose (jwItems (jwArrOpen w) items)
  | .object members => jwObjClose (jwMembers (jwObjOpen w) members)

def jwItems (w : JsonWriter) : List JsonTree → JsonWriter
  | [] => w
  | item :: rest => jwItems (jwValue w item) rest

def jwMembers (w : JsonWriter) : List (Bytes × JsonTree) → JsonWriter
  | [] => w
  | (key, value) :: rest => jwMembers (jwValue (jwKey w key) value) rest

end

/-! ## The lexemes that are written -/

/-- The lexeme of a number. -/
def Double.lexeme (value : Double) : Bytes :=
  match value.integral with
  | some v => printedInt v
  | none => snprintf 32 value.fixed

mutual

/-- The tree of lexemes that is written. -/
def JsonTree.rendered : JsonTree → JsonValue
  | .null => .null
  | .boolean value => .boolean value
  | .number value => .number value.lexeme
  | .string text => .string text
  | .array items => .array (renderedItems items)
  | .object members => .object (renderedMembers members)

def renderedItems : List JsonTree → List JsonValue
  | [] => []
  | item :: rest => item.rendered :: renderedItems rest

def renderedMembers : List (Bytes × JsonTree) → List (Bytes × JsonValue)
  | [] => []
  | (key, value) :: rest => (key, value.rendered) :: renderedMembers rest

end

theorem writes_number (value : Double) :
    WritesValue (jwValue · (.number value)) (.number value.lexeme) := by
  intro w
  rw [JsonValue.text, JsonValue.depth, JsonWriter.nested_zero]
  show jwValue w (.number value) = _
  rw [jwValue, Double.lexeme]
  cases value.integral with
  | some v => rfl
  | none => rfl

mutual

/-- What `jw_value` writes. -/
theorem writes_tree : ∀ tree : JsonTree, WritesValue (jwValue · tree) tree.rendered
  | .null => by
      simp only [jwValue, JsonTree.rendered]
      exact writes_null
  | .boolean value => by
      simp only [jwValue, JsonTree.rendered]
      exact writes_bool value
  | .number value => by
      rw [JsonTree.rendered]
      exact writes_number value
  | .string text => by
      simp only [jwValue, JsonTree.rendered]
      exact writes_str text
  | .array items => by
      simp only [jwValue, JsonTree.rendered]
      exact (writes_items items).array
  | .object members => by
      simp only [jwValue, JsonTree.rendered]
      exact (writes_members members).object

theorem writes_items : ∀ items : List JsonTree, WritesItems (jwItems · items) (renderedItems items)
  | [] => by
      simp only [jwItems, renderedItems]
      exact WritesItems.nil
  | item :: rest => by
      simp only [jwItems, renderedItems]
      exact WritesItems.append (writes_tree item).item (writes_items rest)

theorem writes_members : ∀ members : List (Bytes × JsonTree),
    WritesMembers (jwMembers · members) (renderedMembers members)
  | [] => by
      simp only [jwMembers, renderedMembers]
      exact WritesMembers.nil
  | (key, value) :: rest => by
      simp only [jwMembers, renderedMembers]
      exact WritesMembers.append ((writes_tree value).member key) (writes_members rest)

end

/-! ## Lexemes as numbers -/

section Lexemes

variable {digits fraction : Bytes}

theorem takeWhile_isDigits (all : IsDigits digits) : digits.takeWhile isDigit = digits := by
  rw [List.takeWhile_eq_self_iff]
  exact all

theorem skipDigits_digits (all : IsDigits digits) : skipDigits digits = [] := by
  rw [skipDigits, List.dropWhile_eq_nil_iff]
  exact all

theorem unsignedValue_digits (all : IsDigits digits) :
    unsignedValue digits = runValue digits := by
  unfold unsignedValue
  dsimp only
  rw [skipDigits_digits all, takeWhile_isDigits all]
  simp [fractionDigits, skipFraction, exponentValue]

theorem unsignedValue_point (all : IsDigits digits) (behind : IsDigits fraction) :
    unsignedValue (digits ++ dot :: fraction) =
      runValue (digits ++ fraction) / 10 ^ fraction.length := by
  have skipped : skipDigits (digits ++ dot :: fraction) = dot :: fraction := by
    rw [skipDigits, List.dropWhile_append_of_pos all]
    rfl
  have scanned : (digits ++ dot :: fraction).takeWhile isDigit = digits := by
    rw [List.takeWhile_append_of_pos all]
    simp [show isDigit dot = false by decide]
  have part : fractionDigits (dot :: fraction) = fraction := by
    rw [fractionDigits, if_pos rfl, takeWhile_isDigits behind]
  have ended : skipFraction (dot :: fraction) = [] := by
    rw [skipFraction, if_pos rfl, skipDigits_digits behind]
  unfold unsignedValue
  dsimp only
  rw [skipped, scanned, part, ended, exponentValue, zero_sub, zpow_neg, zpow_natCast,
    div_eq_mul_inv]

/-- A sign in front of a number that begins with a digit. -/
theorem strtod_signed (negative : Bool) {c : Byte} (rest : Bytes) (digit : isDigit c = true) :
    strtod ((if negative then [dash] else []) ++ c :: rest) =
      Double.round (if negative then -unsignedValue (c :: rest) else unsignedValue (c :: rest)) := by
  have other := isDigit_ne_dash digit
  cases negative with
  | true => rfl
  | false => simp [strtod, skipSign, other]

end Lexemes

/-! ## Whole numbers -/

theorem printed_cons (n : Nat) :
    ∃ c rest, printed n = c :: rest ∧ isDigit c = true ∧ IsDigits (c :: rest) := by
  have digits := printed_digits n
  cases text : printed n with
  | nil => simp [printed] at text
  | cons c rest =>
      rw [text] at digits
      exact ⟨c, rest, rfl, digits c List.mem_cons_self, digits⟩

/-- A whole number is read as the `double` next to it. -/
theorem strtod_printedInt (v : Int) : strtod (printedInt v) = Double.round v := by
  cases v with
  | ofNat n =>
      obtain ⟨c, rest, text, digit, digits⟩ := printed_cons n
      have read := strtod_signed false rest digit
      rw [unsignedValue_digits digits, ← text, runValue_printed] at read
      exact read
  | negSucc n =>
      obtain ⟨c, rest, text, digit, digits⟩ := printed_cons (n + 1)
      have read := strtod_signed true rest digit
      rw [unsignedValue_digits digits, ← text, runValue_printed] at read
      rw [Int.cast_negSucc]
      exact read

theorem Double.round_value (number : FiniteDouble) :
    Double.round number.value = .finite number := by
  obtain ⟨value, rounded, bounded⟩ := number
  unfold Double.round
  dsimp only
  simp only [rounded, bounded, dif_pos]

/-- A whole number of 53 digits at most. -/
def FiniteDouble.ofInt (v : Int) (small : |v| ≤ 2 ^ 53) : FiniteDouble where
  value := v
  rounded := Precision.nearest_of_represents (by decide)
    (Precision.represents_intCast small (by decide))
  bounded := by
    have cast : |(v : ℚ)| ≤ 2 ^ 53 := by exact_mod_cast small
    exact cast.trans_lt (pow_lt_pow_right₀ (by norm_num) (by norm_num))

theorem Double.integral_eq_some {value : Double} {v : Int} (integral : value.integral = some v) :
    FitsLong v ∧ Double.round v = value := by
  cases value with
  | infinite negative => contradiction
  | finite number =>
      rw [Double.integral] at integral
      split_ifs at integral with whole
      obtain rfl := Option.some.inj integral
      refine ⟨whole.2, ?_⟩
      rw [(Rat.den_eq_one_iff number.value).mp whole.1]
      exact Double.round_value number

/-! ## Two decimals -/

theorem hexDigit_decimal {n : Nat} (small : n < 10) :
    isDigit (hexDigit n) = true ∧ (hexDigit n).toNat - 48 = n := by
  have value : (hexDigit n).toNat = 48 + n := by
    rw [hexDigit, if_pos small, UInt8.toNat_ofNat']
    omega
  rw [isDigit_iff, value]
  omega

theorem runValue_snoc (run : Bytes) (c : Byte) :
    runValue (run ++ [c]) = runValue run * 10 + (c.toNat - 48) := by
  simp [runValue, numeral, digitValues]

theorem isDigits_lastTwoDigits (n : Nat) : IsDigits (lastTwoDigits n) := by
  have tenth := (hexDigit_decimal (Nat.mod_lt (n / 10) (by decide : 0 < 10))).1
  have last := (hexDigit_decimal (Nat.mod_lt n (by decide : 0 < 10))).1
  simp [IsDigits, lastTwoDigits, tenth, last]

theorem runValue_lastTwoDigits (n : Nat) :
    runValue (printed (n / 100) ++ lastTwoDigits n) = n := by
  have tenth := (hexDigit_decimal (Nat.mod_lt (n / 10) (by decide : 0 < 10))).2
  have last := (hexDigit_decimal (Nat.mod_lt n (by decide : 0 < 10))).2
  rw [lastTwoDigits, List.append_cons, runValue_snoc, runValue_snoc, runValue_printed, tenth, last]
  omega

/-- The value rounded to two decimals. -/
def FiniteDouble.toHundredths (number : FiniteDouble) : ℚ :=
  if number.value < 0 then -(hundredths number.value / 100) else hundredths number.value / 100

/-- Two decimals are read as the `double` next to the rounded value. -/
theorem strtod_fixed (number : FiniteDouble) :
    strtod (Double.finite number).fixed = Double.round number.toHundredths := by
  obtain ⟨c, rest, text, digit, digits⟩ := printed_cons (hundredths number.value / 100)
  have read := strtod_signed (decide (number.value < 0))
    (rest ++ dot :: lastTwoDigits (hundredths number.value)) digit
  rw [← List.cons_append,
    unsignedValue_point digits (isDigits_lastTwoDigits (hundredths number.value)), ← text,
    runValue_lastTwoDigits] at read
  have hundred : (10 : ℚ) ^ (lastTwoDigits (hundredths number.value)).length = 100 := by
    norm_num [lastTwoDigits]
  simp only [decide_eq_true_eq, hundred] at read
  exact read

/-! ## Texts of trees -/

/-- A number that the cast to `long long` is defined on. -/
def Double.Castable : Double → Prop
  | .finite number => -2 ^ 63 ≤ number.value ∧ number.value < 2 ^ 63
  | .infinite _ => False

theorem hundredths_lt {number : FiniteDouble} (castable : (Double.finite number).Castable) :
    hundredths number.value < 10 ^ 21 := by
  have size : |number.value| ≤ 2 ^ 63 := abs_le.mpr ⟨castable.1, castable.2.le⟩
  have inside : |(|number.value| * 100)| < ((10 ^ 21 - 1 : ℤ) : ℚ) := by
    rw [abs_of_nonneg (by positivity)]
    push_cast
    linarith
  have rounded := abs_roundHalfEven_le inside
  unfold hundredths
  rw [abs_le] at rounded
  omega

theorem fixed_length {number : FiniteDouble} (castable : (Double.finite number).Castable) :
    (Double.finite number).fixed.length < 32 := by
  have small : hundredths number.value / 100 < 10 ^ 19 := by
    have bound := hundredths_lt castable
    omega
  have length := printed_length (k := 19) (by omega) small
  have decimals : (lastTwoDigits (hundredths number.value)).length = 2 := rfl
  rw [Double.fixed, List.length_append, List.length_append, List.length_cons, decimals]
  split
  next =>
    rw [List.length_singleton]
    omega
  next =>
    rw [List.length_nil]
    omega

theorem Double.lexeme_fixed {number : FiniteDouble} (castable : (Double.finite number).Castable)
    (fractional : (Double.finite number).integral = none) :
    (Double.finite number).lexeme = (Double.finite number).fixed := by
  rw [Double.lexeme, fractional]
  exact snprintf_of_lt (fixed_length castable)

theorem isLexeme_fixed (number : FiniteDouble) : Lexeme (Double.finite number).fixed := by
  have digits := printed_digits (hundredths number.value / 100)
  have behind := Fraction.present (isDigits_lastTwoDigits (hundredths number.value))
  obtain ⟨c, rest, text, _, _⟩ := printed_cons (hundredths number.value / 100)
  rw [Double.fixed]
  split
  next =>
    have negative := Lexeme.negative digits behind .absent
    simpa using negative
  next =>
    have nonempty : printed (hundredths number.value / 100) ≠ [] := by
      rw [text]
      exact List.cons_ne_nil c rest
    have positive := Lexeme.positive nonempty digits behind .absent
    simpa using positive

theorem Double.plain_lexeme {value : Double} (castable : value.Castable) :
    (JsonValue.number value.lexeme).Plain := by
  cases value with
  | infinite negative => exact castable.elim
  | finite number =>
      cases integral : (Double.finite number).integral with
      | some v =>
          rw [Double.lexeme, integral]
          exact plain_int (Double.integral_eq_some integral).1
      | none =>
          have short := fixed_length castable
          rw [Double.lexeme_fixed castable integral]
          exact ⟨isLexeme_fixed number, Nat.lt_trans short (by decide)⟩

/-- A number that survives being written: it is whole, or the `double` next to its value with
two decimals. -/
def Double.Kept : Double → Prop
  | .finite number =>
      (Double.finite number).integral.isSome = true ∨
        Double.round number.toHundredths = .finite number
  | .infinite _ => False

theorem Double.strtod_lexeme_iff {value : Double} (castable : value.Castable) :
    strtod value.lexeme = value ↔ value.Kept := by
  cases value with
  | infinite negative => exact castable.elim
  | finite number =>
      cases integral : (Double.finite number).integral with
      | some v =>
          have read : strtod (Double.finite number).lexeme = .finite number := by
            rw [Double.lexeme, integral]
            exact (strtod_printedInt v).trans (Double.integral_eq_some integral).2
          exact iff_of_true read (Or.inl (by rw [integral]; rfl))
      | none =>
          rw [Double.lexeme_fixed castable integral, strtod_fixed, Double.Kept, integral]
          simp

/-! ## Trees -/

mutual

/-- Every number is of one kind, and every string and every key of another. -/
def JsonTree.Each (number : Double → Prop) (string : Bytes → Prop) : JsonTree → Prop
  | .null => True
  | .boolean _ => True
  | .number value => number value
  | .string text => string text
  | .array items => EachItem number string items
  | .object members => EachMember number string members

def EachItem (number : Double → Prop) (string : Bytes → Prop) : List JsonTree → Prop
  | [] => True
  | item :: rest => item.Each number string ∧ EachItem number string rest

def EachMember (number : Double → Prop) (string : Bytes → Prop) :
    List (Bytes × JsonTree) → Prop
  | [] => True
  | (key, value) :: rest =>
      string key ∧ value.Each number string ∧ EachMember number string rest

end

mutual

/-- How many containers a tree nests. -/
def JsonTree.depth : JsonTree → Nat
  | .null => 0
  | .boolean _ => 0
  | .number _ => 0
  | .string _ => 0
  | .array items => itemTreesDepth items + 1
  | .object members => memberTreesDepth members + 1

def itemTreesDepth : List JsonTree → Nat
  | [] => 0
  | item :: rest => max item.depth (itemTreesDepth rest)

def memberTreesDepth : List (Bytes × JsonTree) → Nat
  | [] => 0
  | (_, value) :: rest => max value.depth (memberTreesDepth rest)

end

mutual

theorem rendered_depth : ∀ tree : JsonTree, tree.rendered.depth = tree.depth
  | .null => rfl
  | .boolean _ => rfl
  | .number _ => rfl
  | .string _ => rfl
  | .array items => congrArg (· + 1) (renderedItems_depth items)
  | .object members => congrArg (· + 1) (renderedMembers_depth members)

theorem renderedItems_depth : ∀ items : List JsonTree,
    itemsDepth (renderedItems items) = itemTreesDepth items
  | [] => rfl
  | item :: rest => by
      rw [renderedItems, itemsDepth, itemTreesDepth, rendered_depth item, renderedItems_depth rest]

theorem renderedMembers_depth : ∀ members : List (Bytes × JsonTree),
    membersDepth (renderedMembers members) = memberTreesDepth members
  | [] => rfl
  | (key, value) :: rest => by
      rw [renderedMembers, membersDepth, memberTreesDepth, rendered_depth value,
        renderedMembers_depth rest]

end

mutual

theorem rendered_plain : ∀ tree : JsonTree, tree.Each Double.Castable (0 ∉ ·) →
    tree.rendered.Plain
  | .null, _ => trivial
  | .boolean _, _ => trivial
  | .number _, castable => Double.plain_lexeme castable
  | .string _, noNul => noNul
  | .array items, each => renderedItems_plain items each
  | .object members, each => renderedMembers_plain members each

theorem renderedItems_plain : ∀ items : List JsonTree, EachItem Double.Castable (0 ∉ ·) items →
    PlainItems (renderedItems items)
  | [], _ => trivial
  | item :: rest, each => ⟨rendered_plain item each.1, renderedItems_plain rest each.2⟩

theorem renderedMembers_plain : ∀ members : List (Bytes × JsonTree),
    EachMember Double.Castable (0 ∉ ·) members → PlainMembers (renderedMembers members)
  | [], _ => trivial
  | (_, value) :: rest, each =>
      ⟨each.1, rendered_plain value each.2.1, renderedMembers_plain rest each.2.2⟩

end

mutual

/-- A tree comes back where its numbers do. -/
theorem tree_rendered_iff : ∀ tree : JsonTree, tree.Each Double.Castable (0 ∉ ·) →
    (tree.rendered.tree = tree ↔ tree.Each Double.Kept fun _ => True)
  | .null, _ => iff_of_true rfl trivial
  | .boolean _, _ => iff_of_true rfl trivial
  | .number value, castable => by
      have kept := Double.strtod_lexeme_iff castable
      simpa only [JsonTree.rendered, JsonValue.tree, JsonTree.Each, JsonTree.number.injEq] using kept
  | .string _, _ => iff_of_true rfl trivial
  | .array items, each => by
      have kept := itemTrees_rendered_iff items each
      simpa only [JsonTree.rendered, JsonValue.tree, JsonTree.Each, JsonTree.array.injEq] using kept
  | .object members, each => by
      have kept := memberTrees_rendered_iff members each
      simpa only [JsonTree.rendered, JsonValue.tree, JsonTree.Each, JsonTree.object.injEq] using kept

theorem itemTrees_rendered_iff : ∀ items : List JsonTree, EachItem Double.Castable (0 ∉ ·) items →
    (itemTrees (renderedItems items) = items ↔ EachItem Double.Kept (fun _ => True) items)
  | [], _ => iff_of_true rfl trivial
  | item :: rest, each => by
      rw [renderedItems, itemTrees, EachItem, List.cons.injEq, tree_rendered_iff item each.1,
        itemTrees_rendered_iff rest each.2]

theorem memberTrees_rendered_iff : ∀ members : List (Bytes × JsonTree),
    EachMember Double.Castable (0 ∉ ·) members →
      (memberTrees (renderedMembers members) = members ↔
        EachMember Double.Kept (fun _ => True) members)
  | [], _ => iff_of_true rfl trivial
  | (key, value) :: rest, each => by
      rw [renderedMembers, memberTrees, EachMember, List.cons.injEq, Prod.mk.injEq,
        tree_rendered_iff value each.2.1, memberTrees_rendered_iff rest each.2.2, true_and,
        eq_self, true_and]

end

/-- The writer stays inside its arrays exactly when the tree nests no more containers than they
hold, and then a tree is read back from what is written of it exactly when every number of it
is kept. -/
theorem jwValue_parsed_iff {tree : JsonTree} (each : tree.Each Double.Castable (0 ∉ ·)) :
    ((jwValue jwInit tree).overrun = false ↔ tree.depth ≤ jwMaxDepth) ∧
      (tree.depth ≤ jwMaxDepth →
        (parsedTree (jwValue jwInit tree).buf = some tree ↔
          tree.Each Double.Kept fun _ => True)) := by
  constructor
  · rw [← Bool.not_eq_true, (writes_tree tree).overrun_iff, rendered_depth, Nat.not_lt]
  · intro _
    rw [parsedTree, (writes_tree tree).parsed (rendered_plain tree each), Option.map_some,
      Option.some.injEq]
    exact tree_rendered_iff tree each

theorem FiniteDouble.ofInt_kept (v : Int) (small : |v| ≤ 2 ^ 53) :
    (Double.finite (.ofInt v small)).Kept ∧ (Double.finite (.ofInt v small)).Castable := by
  obtain ⟨low, high⟩ := abs_le.mp small
  have fits : FitsLong v := by
    unfold FitsLong
    omega
  refine ⟨Or.inl ?_, ?_, ?_⟩
  · rw [Double.integral, if_pos ⟨rfl, fits⟩]
    rfl
  · show -2 ^ 63 ≤ (v : ℚ)
    exact_mod_cast fits.1
  · show (v : ℚ) < 2 ^ 63
    exact_mod_cast fits.2

/-- The answer of a collection, as `--json` prints it. -/
def sampleReport : JsonTree :=
  .object [(ascii "removed", .number (.finite (.ofInt 2 (by decide)))),
    (ascii "freed", .number (.finite (.ofInt 9007199254740992 (by decide))))]

theorem sampleReport_parsed :
    parsedTree (jwValue jwInit sampleReport).buf = some sampleReport := by
  have each : sampleReport.Each Double.Castable (0 ∉ ·) :=
    ⟨by decide, (FiniteDouble.ofInt_kept _ _).2, by decide, (FiniteDouble.ofInt_kept _ _).2,
      trivial⟩
  exact ((jwValue_parsed_iff each).2 (by decide)).mpr
    ⟨trivial, (FiniteDouble.ofInt_kept _ _).1, trivial, (FiniteDouble.ofInt_kept _ _).1, trivial⟩

end CixCache
