import CixCache.JsonWriter
import CixCache.Lib.Scan
import CixCache.Server.Decode

/-!
Contract: the vendored JSON parser, and the grammar its texts are of.

Owns: `json_parse` with its readers; `Denotes`, a grammar independent of how a text is
scanned; and what is read of a string literal and of a number.

Does not own: that the readers take exactly the grammar, and the texts of the writer.
-/

namespace CixCache

open CixCache.Lib

/-! ## Functions of the source -/

abbrev plus : Byte := 43

def isWs (c : Byte) : Bool := c == space || c == tab || c == lineFeed || c == carriageReturn

def skipWs (text : Bytes) : Bytes := text.dropWhile isWs

/-- The byte behind a backslash, `u` apart. -/
def escapeByte (e : Byte) : Option Byte :=
  if e = quote then some quote
  else if e = backslash then some backslash
  else if e = slash then some slash
  else if e = 110 then some lineFeed
  else if e = 116 then some tab
  else if e = 114 then some carriageReturn
  else if e = 98 then some 8
  else if e = 102 then some 12
  else none

/-- `cp`, from the four digits behind `\u`; one byte at most. -/
def codeByte (h₁ h₂ h₃ h₄ : Byte) : Option Byte :=
  match hexval h₁, hexval h₂, hexval h₃, hexval h₄ with
  | some a, some b, some c, some d =>
      let cp := ((a.toNat * 16 + b.toNat) * 16 + c.toNat) * 16 + d.toNat
      if 255 < cp then none else some (UInt8.ofNat cp)
  | _, _, _, _ => none

/-- The loop of `parse_string_raw`: what `buf` collects up to the closing quote, and the text
behind it. -/
def parseStringLoop : Bytes → Option (Bytes × Bytes)
  | [] => none
  | c :: rest =>
      if c = quote then some ([], rest)
      else if c = backslash then
        match rest with
        | [] => none
        | e :: behind =>
            if e = 117 then
              match behind with
              | h₁ :: h₂ :: h₃ :: h₄ :: tail =>
                  match codeByte h₁ h₂ h₃ h₄ with
                  | none => none
                  | some out => (parseStringLoop tail).map fun (buf, left) => (out :: buf, left)
              | _ => none
            else
              match escapeByte e with
              | none => none
              | some out => (parseStringLoop behind).map fun (buf, left) => (out :: buf, left)
      else (parseStringLoop rest).map fun (buf, left) => (c :: buf, left)

/-- The callers read the buffer as a C string. -/
def parseStringRaw (text : Bytes) : Option (Bytes × Bytes) :=
  match text with
  | [] => none
  | c :: rest =>
      if c = quote then (parseStringLoop rest).map fun (buf, left) => (cString buf, left)
      else none

def skipDigits (text : Bytes) : Bytes := text.dropWhile isDigit

def skipSign (text : Bytes) : Bytes :=
  match text with
  | c :: rest => if c = dash then rest else text
  | [] => []

def skipFraction (text : Bytes) : Bytes :=
  match text with
  | c :: rest => if c = dot then skipDigits rest else text
  | [] => []

/-- The sign an exponent may have. -/
def skipPlusMinus (text : Bytes) : Bytes :=
  match text with
  | c :: rest => if c = plus ∨ c = dash then rest else text
  | [] => []

def skipExponent (text : Bytes) : Bytes :=
  match text with
  | c :: rest => if c = 101 ∨ c = 69 then skipDigits (skipPlusMinus rest) else text
  | [] => []

/-- `sizeof tmp` -/
def numberSize : Nat := 64

/-- The lexeme is kept as it stands; `strtod` reads it. -/
def parseNumber (text : Bytes) : Option (JsonValue × Bytes) :=
  let rest := skipExponent (skipFraction (skipDigits (skipSign text)))
  let n := text.length - rest.length
  if n = 0 then none
  else if numberSize ≤ n then none
  else some (.number (text.take n), rest)

mutual

/-- Each call of one of the four readers is given one unit less than its caller has. -/
def parseValue : Nat → Bytes → Option (JsonValue × Bytes)
  | 0, _ => none
  | fuel + 1, text =>
      match skipWs text with
      | [] => none
      | c :: rest =>
          if c = openObj then parseObject fuel rest
          else if c = openArr then parseArray fuel rest
          else if c = quote then
            (parseStringRaw (c :: rest)).map fun (s, left) => (.string s, left)
          else if (ascii "true").isPrefixOf (c :: rest) then some (.boolean true, rest.drop 3)
          else if (ascii "false").isPrefixOf (c :: rest) then some (.boolean false, rest.drop 4)
          else if (ascii "null").isPrefixOf (c :: rest) then some (.null, rest.drop 3)
          else if c = dash ∨ isDigit c then parseNumber (c :: rest)
          else none

/-- Behind the opening bracket. -/
def parseArray : Nat → Bytes → Option (JsonValue × Bytes)
  | 0, _ => none
  | fuel + 1, text =>
      match skipWs text with
      | [] => none
      | c :: rest =>
          if c = closeArr then some (.array [], rest)
          else (parseItems fuel (c :: rest)).map fun (items, left) => (.array items, left)

/-- The loop of `parse_array`. -/
def parseItems : Nat → Bytes → Option (List JsonValue × Bytes)
  | 0, _ => none
  | fuel + 1, text =>
      match parseValue fuel text with
      | none => none
      | some (item, behind) =>
          match skipWs behind with
          | [] => none
          | c :: rest =>
              if c = comma then
                (parseItems fuel (skipWs rest)).map fun (items, left) => (item :: items, left)
              else if c = closeArr then some ([item], rest)
              else none

/-- Behind the opening brace. -/
def parseObject : Nat → Bytes → Option (JsonValue × Bytes)
  | 0, _ => none
  | fuel + 1, text =>
      match skipWs text with
      | [] => none
      | c :: rest =>
          if c = closeObj then some (.object [], rest)
          else (parseMembers fuel (c :: rest)).map fun (members, left) => (.object members, left)

/-- The loop of `parse_object`. -/
def parseMembers : Nat → Bytes → Option (List (Bytes × JsonValue) × Bytes)
  | 0, _ => none
  | fuel + 1, text =>
      match parseStringRaw (skipWs text) with
      | none => none
      | some (key, behind) =>
          match skipWs behind with
          | [] => none
          | c :: rest =>
              if c = keySep then
                match parseValue fuel rest with
                | none => none
                | some (value, behind) =>
                    match skipWs behind with
                    | [] => none
                    | c :: rest =>
                        if c = comma then
                          (parseMembers fuel rest).map fun (members, left) =>
                            ((key, value) :: members, left)
                        else if c = closeObj then some ([(key, value)], rest)
                        else none
              else none

end

/-- The readers call each other three deep for a byte of the text at most. -/
def readerFuel (text : Bytes) : Nat := 3 * text.length + 1

def jsonParseWith (fuel : Nat) (text : Bytes) : Option JsonValue :=
  match parseValue fuel text with
  | none => none
  | some (value, rest) => if skipWs rest = [] then some value else none

def jsonParse (text : Bytes) : Option JsonValue := jsonParseWith (readerFuel text) text

/-! ## The grammar -/

def IsWs (text : Bytes) : Prop := ∀ c ∈ text, isWs c = true

def IsDigits (text : Bytes) : Prop := ∀ c ∈ text, isDigit c = true

/-- The escapes of one letter, and the bytes they stand for. -/
def escapes : List (Byte × Byte) :=
  [(quote, quote), (backslash, backslash), (slash, slash), (110, lineFeed), (116, tab),
    (114, carriageReturn), (98, 8), (102, 12)]

/-- What stands between two quotes, and the bytes it stands for; a control byte may stand
for itself. -/
inductive StringBody : Bytes → Bytes → Prop where
  | nil : StringBody [] []
  | plain {c : Byte} {body out : Bytes} (notQuote : c ≠ quote) (notBackslash : c ≠ backslash)
      (rest : StringBody body out) : StringBody (c :: body) (c :: out)
  | letter {e c : Byte} {body out : Bytes} (escape : (e, c) ∈ escapes)
      (rest : StringBody body out) : StringBody (backslash :: e :: body) (c :: out)
  | code {hi lo : Nat} {high low c : Byte} {body out : Bytes} (highDigit : HexDigit hi high)
      (lowDigit : HexDigit lo low) (value : c.toNat = 16 * hi + lo) (rest : StringBody body out) :
      StringBody (backslash :: 117 :: zero :: zero :: high :: low :: body) (c :: out)

/-- A string literal, and the C string it is read as: nothing behind an escaped NUL. -/
inductive Literal : Bytes → Bytes → Prop where
  | mk {body out : Bytes} (inner : StringBody body out) :
      Literal (quote :: body ++ [quote]) (cString out)

inductive Fraction : Bytes → Prop where
  | absent : Fraction []
  | present {digits : Bytes} (all : IsDigits digits) : Fraction (dot :: digits)

inductive Exponent : Bytes → Prop where
  | absent : Exponent []
  | bare {e : Byte} {digits : Bytes} (mark : e = 101 ∨ e = 69) (all : IsDigits digits) :
      Exponent (e :: digits)
  | signed {e sign : Byte} {digits : Bytes} (mark : e = 101 ∨ e = 69)
      (isSign : sign = plus ∨ sign = dash) (all : IsDigits digits) :
      Exponent (e :: sign :: digits)

/-- A number: every run of digits may be empty, so long as a sign or a digit comes first. -/
inductive Lexeme : Bytes → Prop where
  | negative {digits fraction exponent : Bytes} (all : IsDigits digits)
      (isFraction : Fraction fraction) (isExponent : Exponent exponent) :
      Lexeme (dash :: digits ++ fraction ++ exponent)
  | positive {digits fraction exponent : Bytes} (nonempty : digits ≠ []) (all : IsDigits digits)
      (isFraction : Fraction fraction) (isExponent : Exponent exponent) :
      Lexeme (digits ++ fraction ++ exponent)

mutual

/-- The text, without blanks around it, is one of this tree. -/
inductive Denotes : Bytes → JsonValue → Prop where
  | null : Denotes (ascii "null") .null
  | yes : Denotes (ascii "true") (.boolean true)
  | no : Denotes (ascii "false") (.boolean false)
  | number {text : Bytes} (lexeme : Lexeme text) (short : text.length < numberSize) :
      Denotes text (.number text)
  | string {text s : Bytes} (literal : Literal text s) : Denotes text (.string s)
  | array {body : Bytes} {value : JsonValue} (inner : ArrayBody body value) :
      Denotes (openArr :: body) value
  | object {body : Bytes} {value : JsonValue} (inner : ObjectBody body value) :
      Denotes (openObj :: body) value

/-- What follows the bracket of an array. -/
inductive ArrayBody : Bytes → JsonValue → Prop where
  | empty {ws : Bytes} (blank : IsWs ws) : ArrayBody (ws ++ [closeArr]) (.array [])
  | items {text : Bytes} {items : List JsonValue} (inner : DenotesItems text items) :
      ArrayBody (text ++ [closeArr]) (.array items)

inductive ObjectBody : Bytes → JsonValue → Prop where
  | empty {ws : Bytes} (blank : IsWs ws) : ObjectBody (ws ++ [closeObj]) (.object [])
  | members {text : Bytes} {members : List (Bytes × JsonValue)}
      (inner : DenotesMembers text members) : ObjectBody (text ++ [closeObj]) (.object members)

/-- One item at least, and the last without a comma behind it. -/
inductive DenotesItems : Bytes → List JsonValue → Prop where
  | last {front text back : Bytes} {item : JsonValue} (before : IsWs front)
      (value : Denotes text item) (after : IsWs back) :
      DenotesItems (front ++ (text ++ back)) [item]
  | cons {front text back rest : Bytes} {item : JsonValue} {items : List JsonValue}
      (before : IsWs front) (value : Denotes text item) (after : IsWs back)
      (others : DenotesItems rest items) :
      DenotesItems (front ++ (text ++ (back ++ comma :: rest))) (item :: items)

inductive DenotesMembers : Bytes → List (Bytes × JsonValue) → Prop where
  | last {front name between gap text back : Bytes} {key : Bytes} {value : JsonValue}
      (before : IsWs front) (literal : Literal name key) (beforeColon : IsWs between)
      (afterColon : IsWs gap) (denotes : Denotes text value) (after : IsWs back) :
      DenotesMembers (front ++ (name ++ (between ++ keySep :: (gap ++ (text ++ back)))))
        [(key, value)]
  | cons {front name between gap text back rest : Bytes} {key : Bytes} {value : JsonValue}
      {members : List (Bytes × JsonValue)}
      (before : IsWs front) (literal : Literal name key) (beforeColon : IsWs between)
      (afterColon : IsWs gap) (denotes : Denotes text value) (after : IsWs back)
      (others : DenotesMembers rest members) :
      DenotesMembers
        (front ++ (name ++ (between ++ keySep :: (gap ++ (text ++ (back ++ comma :: rest))))))
        ((key, value) :: members)

end

/-! ## String literals -/

theorem escapeByte_iff {e c : Byte} : escapeByte e = some c ↔ (e, c) ∈ escapes := by
  unfold escapeByte escapes
  constructor
  · intro escaped
    split_ifs at escaped <;> simp_all
  · intro listed
    simp only [List.mem_cons, List.not_mem_nil, or_false, Prod.mk.injEq] at listed
    rcases listed with ⟨rfl, rfl⟩ | ⟨rfl, rfl⟩ | ⟨rfl, rfl⟩ | ⟨rfl, rfl⟩ | ⟨rfl, rfl⟩ |
      ⟨rfl, rfl⟩ | ⟨rfl, rfl⟩ | ⟨rfl, rfl⟩ <;> decide

theorem escapes_letter {e c : Byte} (listed : (e, c) ∈ escapes) : e ≠ 117 := by
  rintro rfl
  have unlisted : escapeByte 117 = none := by decide
  rw [← escapeByte_iff, unlisted] at listed
  contradiction

/-- One byte has no digits but zeros in front of its last two. -/
theorem codeByte_iff {h₁ h₂ h₃ h₄ c : Byte} :
    codeByte h₁ h₂ h₃ h₄ = some c ↔ h₁ = zero ∧ h₂ = zero ∧
      ∃ hi lo, HexDigit hi h₃ ∧ HexDigit lo h₄ ∧ c.toNat = 16 * hi + lo := by
  unfold codeByte
  constructor
  · intro coded
    split at coded
    next a b c' d first second third fourth =>
      have thirdDigit := hexval_eq_some.mp third
      have fourthDigit := hexval_eq_some.mp fourth
      have thirdBound := thirdDigit.lt
      have fourthBound := fourthDigit.lt
      dsimp only at coded
      split at coded
      next => contradiction
      next small =>
        have value := Option.some.inj coded
        have firstZero : a.toNat = 0 := by omega
        have secondZero : b.toNat = 0 := by omega
        have firstDigit := hexval_eq_some.mp first
        have secondDigit := hexval_eq_some.mp second
        rw [firstZero, HexDigit.zero_iff] at firstDigit
        rw [secondZero, HexDigit.zero_iff] at secondDigit
        refine ⟨firstDigit, secondDigit, c'.toNat, d.toNat, thirdDigit, fourthDigit, ?_⟩
        rw [← value, UInt8.toNat_ofNat', firstZero, secondZero]
        omega
    next => contradiction
  · rintro ⟨rfl, rfl, hi, lo, highDigit, lowDigit, value⟩
    have highBound := highDigit.lt
    have lowBound := lowDigit.lt
    have zeros : hexval zero = some 0 := by decide
    rw [zeros, hexval_of_digit highDigit, hexval_of_digit lowDigit]
    simp only [UInt8.toNat_ofNat', UInt8.toNat_zero]
    rw [if_neg (by omega), Option.some.injEq, ← UInt8.toNat_inj, UInt8.toNat_ofNat', value]
    omega

theorem parseStringLoop_sound {text out rest : Bytes}
    (parsed : parseStringLoop text = some (out, rest)) :
    ∃ body, text = body ++ quote :: rest ∧ StringBody body out := by
  fun_induction parseStringLoop text generalizing out rest with
  | case1 => contradiction
  | case2 =>
      obtain ⟨rfl, rfl⟩ := Prod.mk.inj (Option.some.inj parsed)
      exact ⟨[], rfl, .nil⟩
  | case3 => contradiction
  | case4 => contradiction
  | case5 h₁ h₂ h₃ h₄ tail c coded _ inductionHypothesis =>
      obtain ⟨⟨buf, left⟩, inner, same⟩ := Option.map_eq_some_iff.mp parsed
      obtain ⟨rfl, rfl⟩ := Prod.mk.inj same
      obtain ⟨body, rfl, spelled⟩ := inductionHypothesis inner
      obtain ⟨rfl, rfl, hi, lo, high, low, value⟩ := codeByte_iff.mp coded
      exact ⟨_, rfl, .code high low value spelled⟩
  | case6 => contradiction
  | case7 => contradiction
  | case8 e behind _ c escaped _ inductionHypothesis =>
      obtain ⟨⟨buf, left⟩, inner, same⟩ := Option.map_eq_some_iff.mp parsed
      obtain ⟨rfl, rfl⟩ := Prod.mk.inj same
      obtain ⟨body, rfl, spelled⟩ := inductionHypothesis inner
      exact ⟨_, rfl, .letter (escapeByte_iff.mp escaped) spelled⟩
  | case9 c tail notQuote notBackslash inductionHypothesis =>
      obtain ⟨⟨buf, left⟩, inner, same⟩ := Option.map_eq_some_iff.mp parsed
      obtain ⟨rfl, rfl⟩ := Prod.mk.inj same
      obtain ⟨body, rfl, spelled⟩ := inductionHypothesis inner
      exact ⟨_, rfl, .plain notQuote notBackslash spelled⟩

theorem StringBody.parsed {body out : Bytes} (spelled : StringBody body out) (rest : Bytes) :
    parseStringLoop (body ++ quote :: rest) = some (out, rest) := by
  induction spelled with
  | nil =>
      rw [List.nil_append, parseStringLoop.eq_def]
      dsimp only
      rw [if_pos rfl]
  | @plain c body out notQuote notBackslash _ inductionHypothesis =>
      rw [List.cons_append, parseStringLoop.eq_def]
      dsimp only
      rw [if_neg notQuote, if_neg notBackslash, inductionHypothesis]
      rfl
  | @letter e c body out escape _ inductionHypothesis =>
      rw [List.cons_append, List.cons_append, parseStringLoop.eq_def]
      dsimp only
      rw [if_neg (by decide), if_pos rfl, if_neg (escapes_letter escape),
        escapeByte_iff.mpr escape]
      dsimp only
      rw [inductionHypothesis]
      rfl
  | @code hi lo high low c body out highDigit lowDigit value _ inductionHypothesis =>
      have coded : codeByte zero zero high low = some c :=
        codeByte_iff.mpr ⟨rfl, rfl, hi, lo, highDigit, lowDigit, value⟩
      simp only [List.cons_append]
      rw [parseStringLoop.eq_def]
      dsimp only
      rw [if_neg (by decide), if_pos rfl, if_pos rfl, coded]
      dsimp only
      rw [inductionHypothesis]
      rfl

theorem parseStringRaw_iff {text s rest : Bytes} :
    parseStringRaw text = some (s, rest) ↔ ∃ name, text = name ++ rest ∧ Literal name s := by
  constructor
  · intro parsed
    unfold parseStringRaw at parsed
    split at parsed
    next => contradiction
    next c tail =>
      split at parsed
      next isQuote =>
        obtain ⟨⟨buf, left⟩, inner, same⟩ := Option.map_eq_some_iff.mp parsed
        obtain ⟨rfl, rfl⟩ := Prod.mk.inj same
        obtain ⟨body, rfl, spelled⟩ := parseStringLoop_sound inner
        refine ⟨quote :: body ++ [quote], ?_, .mk spelled⟩
        simp [isQuote]
      next => contradiction
  · rintro ⟨_, rfl, ⟨spelled⟩⟩
    rw [List.append_assoc, List.cons_append, List.singleton_append, parseStringRaw, if_pos rfl,
      spelled.parsed]
    rfl

/-! ## Numbers -/

/-- A byte that a number may have behind its first. -/
def isNumeric (c : Byte) : Bool :=
  isDigit c || c == dot || c == 101 || c == 69 || c == plus || c == dash

theorem numeric_of_digit {c : Byte} (digit : isDigit c = true) : isNumeric c = true := by
  simp [isNumeric, digit]

theorem not_numeric {c : Byte} (other : isNumeric c = false) :
    isDigit c = false ∧ c ≠ dot ∧ ¬ (c = 101 ∨ c = 69) ∧ ¬ (c = plus ∨ c = dash) := by
  simpa [isNumeric, and_assoc] using other

section Scanning

theorem exists_fraction (text : Bytes) :
    ∃ fraction, Fraction fraction ∧ text = fraction ++ skipFraction text := by
  unfold skipFraction
  split
  next c rest =>
    split
    next isDot =>
      obtain ⟨digits, all, split⟩ := exists_run isDigit rest
      refine ⟨dot :: digits, .present all, ?_⟩
      rw [isDot, List.cons_append]
      exact congrArg _ split
    next => exact ⟨[], .absent, rfl⟩
  next => exact ⟨[], .absent, rfl⟩

theorem exists_exponent (text : Bytes) :
    ∃ exponent, Exponent exponent ∧ text = exponent ++ skipExponent text := by
  unfold skipExponent
  split
  next e rest =>
    split
    next mark =>
      unfold skipPlusMinus
      split
      next sign tail =>
        split
        next isSign =>
          obtain ⟨digits, all, split⟩ := exists_run isDigit tail
          exact ⟨e :: sign :: digits, .signed mark isSign all,
            congrArg (e :: sign :: ·) split⟩
        next =>
          obtain ⟨digits, all, split⟩ := exists_run isDigit (sign :: tail)
          exact ⟨e :: digits, .bare mark all, congrArg (e :: ·) split⟩
      next => exact ⟨[e], .bare mark (by intro c none; contradiction), rfl⟩
    next => exact ⟨[], .absent, rfl⟩
  next => exact ⟨[], .absent, rfl⟩

theorem Fraction.skipped {fraction rest : Bytes} (isFraction : Fraction fraction)
    (stops : Stops isDigit rest) (noDot : rest.head? ≠ some dot) :
    skipFraction (fraction ++ rest) = rest := by
  cases isFraction with
  | absent =>
      unfold skipFraction
      cases rest with
      | nil => rfl
      | cons c tail =>
          have other : c ≠ dot := by
            rintro rfl
            exact noDot rfl
          exact if_neg other
  | present all =>
      rw [List.cons_append, skipFraction, if_pos rfl]
      exact dropWhile_run all stops

theorem Exponent.skipped {exponent rest : Bytes} (isExponent : Exponent exponent)
    (stops : Stops isNumeric rest) : skipExponent (exponent ++ rest) = rest := by
  have noDigit : Stops isDigit rest := stops.mono fun _ => numeric_of_digit
  cases isExponent with
  | absent =>
      unfold skipExponent
      cases rest with
      | nil => rfl
      | cons c tail => exact if_neg (not_numeric (stops_cons.mp stops)).2.2.1
  | @bare e digits mark all =>
      have unsigned : skipPlusMinus (digits ++ rest) = digits ++ rest := by
        unfold skipPlusMinus
        cases digits with
        | nil =>
            cases rest with
            | nil => rfl
            | cons c tail => exact if_neg (not_numeric (stops_cons.mp stops)).2.2.2
        | cons d tail =>
            have digit := all d List.mem_cons_self
            apply if_neg
            rintro (rfl | rfl) <;> contradiction
      rw [List.cons_append, skipExponent, if_pos mark, unsigned]
      exact dropWhile_run all noDigit
  | @signed e sign digits mark isSign all =>
      rw [List.cons_append, List.cons_append, skipExponent, if_pos mark, skipPlusMinus,
        if_pos isSign]
      exact dropWhile_run all noDigit

/-- What follows the digits of a number is no digit. -/
theorem stops_fraction {fraction exponent rest : Bytes} (isFraction : Fraction fraction)
    (isExponent : Exponent exponent) (stops : Stops isNumeric rest) :
    Stops isDigit (fraction ++ (exponent ++ rest)) := by
  cases isFraction with
  | present all => exact stops_cons.mpr (by decide)
  | absent =>
      cases isExponent with
      | absent => exact stops.mono fun _ => numeric_of_digit
      | bare mark all => exact stops_cons.mpr (by rcases mark with rfl | rfl <;> decide)
      | signed mark isSign all => exact stops_cons.mpr (by rcases mark with rfl | rfl <;> decide)

theorem exponent_no_dot {exponent rest : Bytes} (isExponent : Exponent exponent)
    (stops : Stops isNumeric rest) : (exponent ++ rest).head? ≠ some dot := by
  intro head
  cases isExponent with
  | absent =>
      have numeric := stops dot head
      revert numeric
      decide
  | bare mark => rcases mark with rfl | rfl <;> exact absurd (Option.some.inj head) (by decide)
  | signed mark => rcases mark with rfl | rfl <;> exact absurd (Option.some.inj head) (by decide)

end Scanning

theorem parseNumber_sound {c : Byte} {text rest : Bytes} {value : JsonValue}
    (first : c = dash ∨ isDigit c = true) (parsed : parseNumber (c :: text) = some (value, rest)) :
    ∃ lexeme, c :: text = lexeme ++ rest ∧ Denotes lexeme value := by
  have shape : ∃ lexeme, Lexeme lexeme ∧ c :: text =
      lexeme ++ skipExponent (skipFraction (skipDigits (skipSign (c :: text)))) := by
    obtain ⟨digits, all, behindSign⟩ := exists_run isDigit (skipSign (c :: text))
    obtain ⟨fraction, isFraction, behindDigits⟩ :=
      exists_fraction (skipDigits (skipSign (c :: text)))
    obtain ⟨exponent, isExponent, behindFraction⟩ :=
      exists_exponent (skipFraction (skipDigits (skipSign (c :: text))))
    have whole : skipSign (c :: text) = digits ++ fraction ++ exponent ++
        skipExponent (skipFraction (skipDigits (skipSign (c :: text)))) := by
      rw [List.append_assoc, List.append_assoc, ← behindFraction, ← behindDigits]
      exact behindSign
    by_cases negative : c = dash
    · refine ⟨_, .negative all isFraction isExponent, ?_⟩
      have signed : skipSign (c :: text) = text := if_pos negative
      rw [signed] at whole ⊢
      simp only [List.cons_append]
      rw [← whole, negative]
    · have unsigned : skipSign (c :: text) = c :: text := if_neg negative
      have digit : isDigit c = true := first.resolve_left negative
      have nonempty : digits ≠ [] := by
        rintro rfl
        rw [unsigned] at behindSign
        have stops := stops_dropWhile isDigit (c :: text)
        rw [← List.nil_append (List.dropWhile isDigit (c :: text)), ← behindSign] at stops
        rw [stops_cons.mp stops] at digit
        contradiction
      refine ⟨_, .positive nonempty all isFraction isExponent, ?_⟩
      rw [unsigned] at whole ⊢
      exact whole
  obtain ⟨lexeme, isLexeme, split⟩ := shape
  unfold parseNumber at parsed
  dsimp only at parsed
  generalize skipExponent (skipFraction (skipDigits (skipSign (c :: text)))) = left at split parsed
  have length : (c :: text).length - left.length = lexeme.length := by
    rw [split, List.length_append]
    omega
  rw [length, split, List.take_left] at parsed
  split_ifs at parsed with empty long
  obtain ⟨rfl, rfl⟩ := Prod.mk.inj (Option.some.inj parsed)
  exact ⟨lexeme, split, .number isLexeme (by omega)⟩

theorem Lexeme.skipped {lexeme rest : Bytes} (isLexeme : Lexeme lexeme)
    (stops : Stops isNumeric rest) :
    skipExponent (skipFraction (skipDigits (skipSign (lexeme ++ rest)))) = rest := by
  cases isLexeme with
  | @negative digits fraction exponent all isFraction isExponent =>
      have signed : skipSign (dash :: digits ++ fraction ++ exponent ++ rest) =
          digits ++ (fraction ++ (exponent ++ rest)) := by
        simp [skipSign]
      have digitsSkipped : skipDigits (digits ++ (fraction ++ (exponent ++ rest))) = _ :=
        dropWhile_run all (stops_fraction isFraction isExponent stops)
      have behind : Stops isDigit (exponent ++ rest) := stops_fraction .absent isExponent stops
      rw [signed, digitsSkipped, isFraction.skipped behind (exponent_no_dot isExponent stops),
        isExponent.skipped stops]
  | @positive digits fraction exponent nonempty all isFraction isExponent =>
      have unsigned : skipSign (digits ++ fraction ++ exponent ++ rest) =
          digits ++ (fraction ++ (exponent ++ rest)) := by
        cases digits with
        | nil => contradiction
        | cons d tail =>
            have other := isDigit_ne_dash (all d List.mem_cons_self)
            simp [skipSign, other]
      have digitsSkipped : skipDigits (digits ++ (fraction ++ (exponent ++ rest))) = _ :=
        dropWhile_run all (stops_fraction isFraction isExponent stops)
      have behind : Stops isDigit (exponent ++ rest) := stops_fraction .absent isExponent stops
      rw [unsigned, digitsSkipped, isFraction.skipped behind (exponent_no_dot isExponent stops),
        isExponent.skipped stops]

/-- A number begins with a sign or a digit. -/
theorem Lexeme.first {lexeme : Bytes} (isLexeme : Lexeme lexeme) :
    ∃ c tail, lexeme = c :: tail ∧ (c = dash ∨ isDigit c = true) := by
  cases isLexeme with
  | negative => exact ⟨_, _, rfl, .inl rfl⟩
  | @positive digits fraction exponent nonempty all =>
      cases digits with
      | nil => contradiction
      | cons d tail => exact ⟨d, _, rfl, .inr (all d List.mem_cons_self)⟩

theorem Lexeme.parsed {lexeme rest : Bytes} (isLexeme : Lexeme lexeme)
    (short : lexeme.length < numberSize) (stops : Stops isNumeric rest) :
    parseNumber (lexeme ++ rest) = some (.number lexeme, rest) := by
  obtain ⟨c, tail, rfl, _⟩ := isLexeme.first
  unfold parseNumber
  dsimp only
  rw [isLexeme.skipped stops, List.length_append, Nat.add_sub_cancel, List.take_left,
    if_neg (by simp), if_neg (by omega)]

end CixCache
