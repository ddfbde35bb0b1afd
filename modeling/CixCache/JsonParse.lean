import CixCache.JsonReader

/-!
Contract: which texts `json_parse` takes, and for which tree.

Owns: that the readers take no text the grammar does not have, and every text it has, with
the tree the text denotes; and that they end by themselves.

Does not own: the functions and the grammar.
-/

namespace CixCache

open CixCache.Lib

/-! ## Blanks and words -/

theorem skipWs_run {ws rest : Bytes} (blank : IsWs ws) (stops : Stops isWs rest) :
    skipWs (ws ++ rest) = rest :=
  dropWhile_run blank stops

theorem skipWs_skipWs (text : Bytes) : skipWs (skipWs text) = skipWs text := by
  have again : skipWs ([] ++ skipWs text) = skipWs text :=
    skipWs_run (fun _ none => by contradiction) (stops_dropWhile isWs text)
  exact again

theorem isWs_of_skipped {text : Bytes} (skipped : skipWs text = []) : IsWs text :=
  List.dropWhile_eq_nil_iff.mp skipped

theorem IsWs.append {front back : Bytes} (before : IsWs front) (after : IsWs back) :
    IsWs (front ++ back) := by
  intro c member
  rcases List.mem_append.mp member with left | right
  · exact before c left
  · exact after c right

theorem ws_not_numeric {c : Byte} (blank : isWs c = true) : isNumeric c = false := by
  simp only [isWs, Bool.or_eq_true, beq_iff_eq] at blank
  rcases blank with ((rfl | rfl) | rfl) | rfl <;> decide

/-- What a number begins with begins nothing else. -/
theorem number_first {c : Byte} (first : c = dash ∨ isDigit c = true) :
    isWs c = false ∧ c ≠ closeArr ∧ c ≠ closeObj ∧ c ≠ openObj ∧ c ≠ openArr ∧ c ≠ quote ∧
      116 ≠ c ∧ 102 ≠ c ∧ 110 ≠ c := by
  have numeric : isNumeric c = true := by
    rcases first with rfl | digit
    · decide
    · exact numeric_of_digit digit
  have noWs : isWs c = false := by
    cases blank : isWs c with
    | false => rfl
    | true => rw [ws_not_numeric blank] at numeric; contradiction
  have other : ∀ d : Byte, isNumeric d = false → c ≠ d := by
    rintro d no rfl
    rw [no] at numeric
    contradiction
  exact ⟨noWs, other _ (by decide), other _ (by decide), other _ (by decide), other _ (by decide),
    other _ (by decide), (other _ (by decide)).symm, (other _ (by decide)).symm,
    (other _ (by decide)).symm⟩

theorem IsWs.stops {back : Bytes} (blank : IsWs back) : Stops isNumeric back := by
  intro c head
  exact ws_not_numeric (blank c (List.mem_of_mem_head? head))

theorem word_true : ascii "true" = [116, 114, 117, 101] := by decide

theorem word_false : ascii "false" = [102, 97, 108, 115, 101] := by decide

theorem word_null : ascii "null" = [110, 117, 108, 108] := by decide

theorem not_word {w c : Byte} {word rest : Bytes} (other : w ≠ c) :
    ¬ (w :: word).isPrefixOf (c :: rest) = true := by
  rw [List.isPrefixOf_iff_prefix, List.cons_prefix_cons]
  exact fun same => other same.1

/-- A value begins with what no separator begins with. -/
theorem Denotes.first {text : Bytes} {value : JsonValue} (denotes : Denotes text value) :
    ∃ c tail, text = c :: tail ∧ isWs c = false ∧ c ≠ closeArr ∧ c ≠ closeObj := by
  cases denotes with
  | null => exact ⟨_, _, rfl, by decide⟩
  | yes => exact ⟨_, _, rfl, by decide⟩
  | no => exact ⟨_, _, rfl, by decide⟩
  | number lexeme =>
      obtain ⟨c, tail, rfl, first⟩ := lexeme.first
      obtain ⟨noWs, noArr, noObj, _⟩ := number_first first
      exact ⟨c, tail, rfl, noWs, noArr, noObj⟩
  | string literal =>
      cases literal
      exact ⟨_, _, rfl, by decide⟩
  | array => exact ⟨_, _, rfl, by decide⟩
  | object => exact ⟨_, _, rfl, by decide⟩

theorem DenotesItems.blank {ws text : Bytes} {items : List JsonValue} (blank : IsWs ws)
    (denotes : DenotesItems text items) : DenotesItems (ws ++ text) items := by
  cases denotes with
  | last before value after =>
      rw [← List.append_assoc]
      exact .last (blank.append before) value after
  | cons before value after others =>
      rw [← List.append_assoc]
      exact .cons (blank.append before) value after others

theorem DenotesMembers.blank {ws text : Bytes} {members : List (Bytes × JsonValue)}
    (blank : IsWs ws) (denotes : DenotesMembers text members) :
    DenotesMembers (ws ++ text) members := by
  cases denotes with
  | last before literal beforeColon afterColon value after =>
      rw [← List.append_assoc]
      exact .last (blank.append before) literal beforeColon afterColon value after
  | cons before literal beforeColon afterColon value after others =>
      rw [← List.append_assoc]
      exact .cons (blank.append before) literal beforeColon afterColon value after others

/-- What is left behind blanks. -/
theorem exists_ws (text : Bytes) : ∃ ws, IsWs ws ∧ text = ws ++ skipWs text :=
  exists_run isWs text

/-! ## What the readers take is of the grammar -/

/-- The readers with this fuel take no text the grammar does not have. -/
structure ReadersSound (fuel : Nat) : Prop where
  value : ∀ {text rest : Bytes} {value : JsonValue}, parseValue fuel text = some (value, rest) →
    ∃ front inner, text = front ++ (inner ++ rest) ∧ IsWs front ∧ Denotes inner value
  array : ∀ {text rest : Bytes} {value : JsonValue}, parseArray fuel text = some (value, rest) →
    ∃ body, text = body ++ rest ∧ ArrayBody body value
  items : ∀ {text rest : Bytes} {items : List JsonValue},
    parseItems fuel text = some (items, rest) →
      ∃ inner, text = inner ++ closeArr :: rest ∧ DenotesItems inner items
  object : ∀ {text rest : Bytes} {value : JsonValue}, parseObject fuel text = some (value, rest) →
    ∃ body, text = body ++ rest ∧ ObjectBody body value
  members : ∀ {text rest : Bytes} {members : List (Bytes × JsonValue)},
    parseMembers fuel text = some (members, rest) →
      ∃ inner, text = inner ++ closeObj :: rest ∧ DenotesMembers inner members

theorem word_taken {word text : Bytes} (starts : word.isPrefixOf text = true) :
    text = word ++ text.drop word.length := by
  obtain ⟨rest, rfl⟩ := List.isPrefixOf_iff_prefix.mp starts
  rw [List.drop_left]

section Sound

variable {fuel : Nat} {text rest : Bytes}

theorem ReadersSound.value_step (sound : ReadersSound fuel) {value : JsonValue}
    (parsed : parseValue (fuel + 1) text = some (value, rest)) :
    ∃ front inner, text = front ++ (inner ++ rest) ∧ IsWs front ∧ Denotes inner value := by
  obtain ⟨ws, blank, split⟩ := exists_ws text
  refine ⟨ws, ?_⟩
  suffices taken : ∃ inner, skipWs text = inner ++ rest ∧ Denotes inner value by
    obtain ⟨inner, same, denotes⟩ := taken
    exact ⟨inner, by rw [← same]; exact split, blank, denotes⟩
  rw [parseValue] at parsed
  generalize skipWs text = left at parsed
  split at parsed
  next => contradiction
  next c tail =>
    split at parsed
    next isOpen =>
      obtain ⟨body, same, inner⟩ := sound.object parsed
      exact ⟨openObj :: body, by rw [isOpen, same]; rfl, .object inner⟩
    next =>
    split at parsed
    next isOpen =>
      obtain ⟨body, same, inner⟩ := sound.array parsed
      exact ⟨openArr :: body, by rw [isOpen, same]; rfl, .array inner⟩
    next =>
    split at parsed
    next =>
      obtain ⟨⟨s, left⟩, literal, same⟩ := Option.map_eq_some_iff.mp parsed
      obtain ⟨rfl, rfl⟩ := Prod.mk.inj same
      obtain ⟨name, split, spelled⟩ := parseStringRaw_iff.mp literal
      exact ⟨name, split, .string spelled⟩
    next =>
    split at parsed
    next starts =>
      obtain ⟨rfl, rfl⟩ := Prod.mk.inj (Option.some.inj parsed)
      exact ⟨_, word_taken starts, .yes⟩
    next =>
    split at parsed
    next starts =>
      obtain ⟨rfl, rfl⟩ := Prod.mk.inj (Option.some.inj parsed)
      exact ⟨_, word_taken starts, .no⟩
    next =>
    split at parsed
    next starts =>
      obtain ⟨rfl, rfl⟩ := Prod.mk.inj (Option.some.inj parsed)
      exact ⟨_, word_taken starts, .null⟩
    next =>
    split at parsed
    next first => exact parseNumber_sound first parsed
    next => contradiction

theorem ReadersSound.array_step (sound : ReadersSound fuel) {value : JsonValue}
    (parsed : parseArray (fuel + 1) text = some (value, rest)) :
    ∃ body, text = body ++ rest ∧ ArrayBody body value := by
  obtain ⟨ws, blank, split⟩ := exists_ws text
  rw [parseArray] at parsed
  generalize skipWs text = left at split parsed
  split at parsed
  next => contradiction
  next c tail =>
    split at parsed
    next isClose =>
      obtain ⟨rfl, rfl⟩ := Prod.mk.inj (Option.some.inj parsed)
      refine ⟨ws ++ [closeArr], ?_, .empty blank⟩
      rw [split, isClose]
      simp
    next =>
      obtain ⟨⟨items, left⟩, inner, same⟩ := Option.map_eq_some_iff.mp parsed
      obtain ⟨rfl, rfl⟩ := Prod.mk.inj same
      obtain ⟨body, behind, denotes⟩ := sound.items inner
      refine ⟨ws ++ body ++ [closeArr], ?_, .items (denotes.blank blank)⟩
      rw [split, behind]
      simp

theorem ReadersSound.items_step (sound : ReadersSound fuel) {items : List JsonValue}
    (parsed : parseItems (fuel + 1) text = some (items, rest)) :
    ∃ inner, text = inner ++ closeArr :: rest ∧ DenotesItems inner items := by
  rw [parseItems] at parsed
  split at parsed
  next => contradiction
  next item behind read =>
    obtain ⟨front, inner, whole, before, denotes⟩ := sound.value read
    obtain ⟨back, after, split⟩ := exists_ws behind
    generalize skipWs behind = left at split parsed
    split at parsed
    next => contradiction
    next c tail =>
      split at parsed
      next isComma =>
        obtain ⟨⟨others, left⟩, more, same⟩ := Option.map_eq_some_iff.mp parsed
        obtain ⟨rfl, rfl⟩ := Prod.mk.inj same
        obtain ⟨body, next, denotesOthers⟩ := sound.items more
        obtain ⟨ws, blank, gap⟩ := exists_ws tail
        refine ⟨front ++ (inner ++ (back ++ comma :: (ws ++ body))), ?_,
          .cons before denotes after (denotesOthers.blank blank)⟩
        rw [whole, split, gap, next, isComma]
        simp
      next =>
      split at parsed
      next isClose =>
        obtain ⟨rfl, rfl⟩ := Prod.mk.inj (Option.some.inj parsed)
        refine ⟨front ++ (inner ++ back), ?_, .last before denotes after⟩
        rw [whole, split, isClose]
        simp
      next => contradiction

theorem ReadersSound.object_step (sound : ReadersSound fuel) {value : JsonValue}
    (parsed : parseObject (fuel + 1) text = some (value, rest)) :
    ∃ body, text = body ++ rest ∧ ObjectBody body value := by
  obtain ⟨ws, blank, split⟩ := exists_ws text
  rw [parseObject] at parsed
  generalize skipWs text = left at split parsed
  split at parsed
  next => contradiction
  next c tail =>
    split at parsed
    next isClose =>
      obtain ⟨rfl, rfl⟩ := Prod.mk.inj (Option.some.inj parsed)
      refine ⟨ws ++ [closeObj], ?_, .empty blank⟩
      rw [split, isClose]
      simp
    next =>
      obtain ⟨⟨members, left⟩, inner, same⟩ := Option.map_eq_some_iff.mp parsed
      obtain ⟨rfl, rfl⟩ := Prod.mk.inj same
      obtain ⟨body, behind, denotes⟩ := sound.members inner
      refine ⟨ws ++ body ++ [closeObj], ?_, .members (denotes.blank blank)⟩
      rw [split, behind]
      simp

theorem ReadersSound.members_step (sound : ReadersSound fuel)
    {members : List (Bytes × JsonValue)}
    (parsed : parseMembers (fuel + 1) text = some (members, rest)) :
    ∃ inner, text = inner ++ closeObj :: rest ∧ DenotesMembers inner members := by
  obtain ⟨front, before, split⟩ := exists_ws text
  rw [parseMembers] at parsed
  split at parsed
  next => contradiction
  next key behind read =>
    obtain ⟨name, named, literal⟩ := parseStringRaw_iff.mp read
    obtain ⟨between, beforeColon, gapped⟩ := exists_ws behind
    generalize skipWs behind = left at gapped parsed
    split at parsed
    next => contradiction
    next c tail =>
      split at parsed
      next isColon =>
        split at parsed
        next => contradiction
        next value behindValue readValue =>
          obtain ⟨gap, inner, whole, afterColon, denotes⟩ := sound.value readValue
          obtain ⟨back, after, ended⟩ := exists_ws behindValue
          generalize skipWs behindValue = left at ended parsed
          split at parsed
          next => contradiction
          next last others =>
            split at parsed
            next isComma =>
              obtain ⟨⟨more, left⟩, readMore, same⟩ := Option.map_eq_some_iff.mp parsed
              obtain ⟨rfl, rfl⟩ := Prod.mk.inj same
              obtain ⟨body, next, denotesOthers⟩ := sound.members readMore
              refine ⟨_, ?_, .cons before literal beforeColon afterColon denotes after
                denotesOthers⟩
              rw [split, named, gapped, isColon, whole, ended, isComma, next]
              simp
            next =>
            split at parsed
            next isClose =>
              obtain ⟨rfl, rfl⟩ := Prod.mk.inj (Option.some.inj parsed)
              refine ⟨_, ?_, .last before literal beforeColon afterColon denotes after⟩
              rw [split, named, gapped, isColon, whole, ended, isClose]
              simp
            next => contradiction
      next => contradiction

end Sound

theorem readers_sound (fuel : Nat) : ReadersSound fuel := by
  induction fuel with
  | zero =>
      constructor <;> intro text rest value parsed <;> contradiction
  | succ fuel inductionHypothesis =>
      exact ⟨inductionHypothesis.value_step, inductionHypothesis.array_step,
        inductionHypothesis.items_step, inductionHypothesis.object_step,
        inductionHypothesis.members_step⟩

/-! ## What the grammar has is taken -/

section Blanks

variable {fuel : Nat} {text : Bytes}

theorem parseValue_skipWs : parseValue fuel (skipWs text) = parseValue fuel text := by
  cases fuel with
  | zero => rfl
  | succ fuel => rw [parseValue, parseValue, skipWs_skipWs]

theorem parseItems_skipWs : parseItems fuel (skipWs text) = parseItems fuel text := by
  cases fuel with
  | zero => rfl
  | succ fuel => rw [parseItems, parseItems, parseValue_skipWs]

theorem parseMembers_skipWs : parseMembers fuel (skipWs text) = parseMembers fuel text := by
  cases fuel with
  | zero => rfl
  | succ fuel => rw [parseMembers, parseMembers, skipWs_skipWs]

end Blanks

/-- The readers with this fuel take every text of the grammar that is no longer than a third
of it. -/
structure ReadersComplete (fuel : Nat) : Prop where
  value : ∀ {front text rest : Bytes} {value : JsonValue}, IsWs front → Denotes text value →
    Stops isNumeric rest → 3 * text.length ≤ fuel →
      parseValue fuel (front ++ (text ++ rest)) = some (value, rest)
  array : ∀ {text rest : Bytes} {value : JsonValue}, ArrayBody text value →
    3 * text.length + 2 ≤ fuel → parseArray fuel (text ++ rest) = some (value, rest)
  items : ∀ {text rest : Bytes} {items : List JsonValue}, DenotesItems text items →
    3 * text.length + 1 ≤ fuel →
      parseItems fuel (text ++ closeArr :: rest) = some (items, rest)
  object : ∀ {text rest : Bytes} {value : JsonValue}, ObjectBody text value →
    3 * text.length + 2 ≤ fuel → parseObject fuel (text ++ rest) = some (value, rest)
  members : ∀ {text rest : Bytes} {members : List (Bytes × JsonValue)},
    DenotesMembers text members → 3 * text.length + 1 ≤ fuel →
      parseMembers fuel (text ++ closeObj :: rest) = some (members, rest)

section Complete

variable {fuel : Nat} {text rest : Bytes}

theorem ReadersComplete.value_step (complete : ReadersComplete fuel) {front : Bytes}
    {value : JsonValue} (blank : IsWs front) (denotes : Denotes text value)
    (stops : Stops isNumeric rest) (enough : 3 * text.length ≤ fuel + 1) :
    parseValue (fuel + 1) (front ++ (text ++ rest)) = some (value, rest) := by
  obtain ⟨c, tail, begins, noWs, _⟩ := denotes.first
  have skipped : skipWs (front ++ (text ++ rest)) = text ++ rest := by
    apply skipWs_run blank
    rw [begins]
    exact stops_cons.mpr noWs
  rw [parseValue, skipped]
  cases denotes with
  | null =>
      rw [word_null]
      rfl
  | yes =>
      rw [word_true]
      rfl
  | no =>
      rw [word_false]
      rfl
  | number lexeme short =>
      subst begins
      obtain ⟨d, others, same, first⟩ := lexeme.first
      obtain ⟨rfl, rfl⟩ := List.cons.inj same
      obtain ⟨_, _, _, noObj, noArr, noQuote, noT, noF, noN⟩ := number_first first
      have parsed := lexeme.parsed short stops
      rw [List.cons_append] at parsed ⊢
      dsimp only
      rw [if_neg noObj, if_neg noArr, if_neg noQuote, word_true, if_neg (not_word noT),
        word_false, if_neg (not_word noF), word_null, if_neg (not_word noN), if_pos first]
      exact parsed
  | @string _ s literal =>
      have parsed : parseStringRaw (text ++ rest) = some (s, rest) :=
        parseStringRaw_iff.mpr ⟨text, rfl, literal⟩
      cases literal with
      | mk inner =>
          rw [List.cons_append, List.cons_append] at parsed ⊢
          dsimp only
          rw [if_neg (by decide), if_neg (by decide), if_pos rfl, parsed]
          rfl
  | @array body _ inner =>
      rw [List.length_cons] at enough
      rw [List.cons_append]
      dsimp only
      rw [if_neg (by decide), if_pos rfl]
      exact complete.array inner (by omega)
  | @object body _ inner =>
      rw [List.length_cons] at enough
      rw [List.cons_append]
      dsimp only
      rw [if_pos rfl]
      exact complete.object inner (by omega)

/-- A separator is what is left behind blanks. -/
theorem skipWs_mark {ws : Bytes} {c : Byte} (blank : IsWs ws) (mark : isWs c = false)
    (rest : Bytes) : skipWs (ws ++ c :: rest) = c :: rest :=
  skipWs_run blank (stops_cons.mpr mark)

theorem separator_stops (c : Byte) {back : Bytes} (blank : IsWs back)
    (separator : isNumeric c = false) (rest : Bytes) : Stops isNumeric (back ++ c :: rest) :=
  stops_append blank.stops (stops_cons.mpr separator)

/-- What has items begins with the first of them. -/
theorem DenotesItems.skipped {inner : Bytes} {items : List JsonValue}
    (denotes : DenotesItems inner items) (rest : Bytes) :
    ∃ c tail, skipWs (inner ++ rest) = c :: tail ∧ c ≠ closeArr := by
  cases denotes with
  | last before value after =>
      obtain ⟨c, tail, rfl, noWs, noClose, _⟩ := value.first
      simp only [List.append_assoc, List.cons_append]
      exact ⟨c, _, skipWs_mark before noWs _, noClose⟩
  | cons before value after others =>
      obtain ⟨c, tail, rfl, noWs, noClose, _⟩ := value.first
      simp only [List.append_assoc, List.cons_append]
      exact ⟨c, _, skipWs_mark before noWs _, noClose⟩

theorem ReadersComplete.array_step (complete : ReadersComplete fuel) {value : JsonValue}
    (inner : ArrayBody text value) (enough : 3 * text.length + 2 ≤ fuel + 1) :
    parseArray (fuel + 1) (text ++ rest) = some (value, rest) := by
  rw [parseArray]
  cases inner with
  | empty blank =>
      rw [List.append_assoc, List.singleton_append, skipWs_mark blank (by decide)]
      rfl
  | @items body items denotes =>
      rw [List.length_append, List.length_singleton] at enough
      rw [List.append_assoc, List.singleton_append]
      obtain ⟨c, tail, skipped, noClose⟩ := denotes.skipped (closeArr :: rest)
      have taken : parseItems fuel (body ++ closeArr :: rest) = some (items, rest) :=
        complete.items denotes (by omega)
      rw [← parseItems_skipWs, skipped] at taken
      rw [skipped]
      dsimp only
      rw [if_neg noClose, taken]
      rfl

theorem ReadersComplete.items_step (complete : ReadersComplete fuel) {items : List JsonValue}
    (denotes : DenotesItems text items) (enough : 3 * text.length + 1 ≤ fuel + 1) :
    parseItems (fuel + 1) (text ++ closeArr :: rest) = some (items, rest) := by
  rw [parseItems]
  cases denotes with
  | @last front inner back item before value after =>
      simp only [List.length_append] at enough
      have taken := complete.value before value
        (separator_stops closeArr after (by decide) rest) (by omega)
      simp only [List.append_assoc]
      rw [taken]
      dsimp only
      rw [skipWs_mark after (by decide)]
      rfl
  | @cons front inner back body item others before value after denotesOthers =>
      simp only [List.length_append, List.length_cons] at enough
      have taken := complete.value before value
        (separator_stops comma after (by decide) (body ++ closeArr :: rest)) (by omega)
      have more : parseItems fuel (body ++ closeArr :: rest) = some (others, rest) :=
        complete.items denotesOthers (by omega)
      simp only [List.append_assoc, List.cons_append]
      rw [taken]
      dsimp only
      rw [skipWs_mark after (by decide)]
      dsimp only
      rw [if_pos rfl, parseItems_skipWs, more]
      rfl

/-- A literal is read behind blanks. -/
theorem Literal.parsed {front name key : Bytes} (blank : IsWs front)
    (literal : Literal name key) (rest : Bytes) :
    parseStringRaw (skipWs (front ++ (name ++ rest))) = some (key, rest) := by
  have skipped : skipWs (front ++ (name ++ rest)) = name ++ rest := by
    apply skipWs_run blank
    cases literal
    exact stops_cons.mpr (by decide)
  rw [skipped]
  exact parseStringRaw_iff.mpr ⟨name, rfl, literal⟩

/-- What has members begins with the quote of the first. -/
theorem DenotesMembers.skipped {inner : Bytes} {members : List (Bytes × JsonValue)}
    (denotes : DenotesMembers inner members) (rest : Bytes) :
    ∃ tail, skipWs (inner ++ rest) = quote :: tail := by
  cases denotes with
  | last before literal =>
      cases literal
      simp only [List.append_assoc, List.cons_append]
      exact ⟨_, skipWs_mark before (by decide) _⟩
  | cons before literal =>
      cases literal
      simp only [List.append_assoc, List.cons_append]
      exact ⟨_, skipWs_mark before (by decide) _⟩

theorem ReadersComplete.object_step (complete : ReadersComplete fuel) {value : JsonValue}
    (inner : ObjectBody text value) (enough : 3 * text.length + 2 ≤ fuel + 1) :
    parseObject (fuel + 1) (text ++ rest) = some (value, rest) := by
  rw [parseObject]
  cases inner with
  | empty blank =>
      rw [List.append_assoc, List.singleton_append, skipWs_mark blank (by decide)]
      rfl
  | @members body members denotes =>
      rw [List.length_append, List.length_singleton] at enough
      rw [List.append_assoc, List.singleton_append]
      obtain ⟨tail, skipped⟩ := denotes.skipped (closeObj :: rest)
      have taken : parseMembers fuel (body ++ closeObj :: rest) = some (members, rest) :=
        complete.members denotes (by omega)
      rw [← parseMembers_skipWs, skipped] at taken
      rw [skipped]
      dsimp only
      rw [if_neg (by decide), taken]
      rfl

theorem ReadersComplete.members_step (complete : ReadersComplete fuel)
    {members : List (Bytes × JsonValue)} (denotes : DenotesMembers text members)
    (enough : 3 * text.length + 1 ≤ fuel + 1) :
    parseMembers (fuel + 1) (text ++ closeObj :: rest) = some (members, rest) := by
  rw [parseMembers]
  cases denotes with
  | @last front name between gap inner back key value before literal beforeColon afterColon
      denotesValue after =>
      simp only [List.length_append, List.length_cons] at enough
      have taken := complete.value afterColon denotesValue
        (separator_stops closeObj after (by decide) rest) (by omega)
      simp only [List.append_assoc, List.cons_append]
      rw [literal.parsed before]
      dsimp only
      rw [skipWs_mark beforeColon (by decide)]
      dsimp only
      rw [if_pos rfl, taken]
      dsimp only
      rw [skipWs_mark after (by decide)]
      rfl
  | @cons front name between gap inner back body key value others before literal beforeColon
      afterColon denotesValue after denotesOthers =>
      simp only [List.length_append, List.length_cons] at enough
      have taken := complete.value afterColon denotesValue
        (separator_stops comma after (by decide) (body ++ closeObj :: rest)) (by omega)
      have more : parseMembers fuel (body ++ closeObj :: rest) = some (others, rest) :=
        complete.members denotesOthers (by omega)
      simp only [List.append_assoc, List.cons_append]
      rw [literal.parsed before]
      dsimp only
      rw [skipWs_mark beforeColon (by decide)]
      dsimp only
      rw [if_pos rfl, taken]
      dsimp only
      rw [skipWs_mark after (by decide)]
      dsimp only
      rw [if_pos rfl, more]
      rfl

end Complete

theorem readers_complete (fuel : Nat) : ReadersComplete fuel := by
  induction fuel with
  | zero =>
      constructor
      · intro front text rest value blank denotes stops enough
        obtain ⟨c, tail, rfl, _⟩ := denotes.first
        simp at enough
      all_goals
        intros
        omega
  | succ fuel inductionHypothesis =>
      exact ⟨inductionHypothesis.value_step, inductionHypothesis.array_step,
        inductionHypothesis.items_step, inductionHypothesis.object_step,
        inductionHypothesis.members_step⟩

/-! ## The parser -/

/-- Blanks may stand around a value. -/
def DenotesDocument (text : Bytes) (value : JsonValue) : Prop :=
  ∃ front inner back, text = front ++ (inner ++ back) ∧ IsWs front ∧ IsWs back ∧
    Denotes inner value

theorem jsonParseWith_iff {fuel : Nat} {text : Bytes} (enough : readerFuel text ≤ fuel)
    (value : JsonValue) : jsonParseWith fuel text = some value ↔ DenotesDocument text value := by
  constructor
  · intro parsed
    unfold jsonParseWith at parsed
    split at parsed
    next => contradiction
    next rest read =>
      split at parsed
      next ended =>
        obtain rfl := Option.some.inj parsed
        obtain ⟨front, inner, split, blank, denotes⟩ := (readers_sound fuel).value read
        exact ⟨front, inner, rest, split, blank, isWs_of_skipped ended, denotes⟩
      next => contradiction
  · rintro ⟨front, inner, back, rfl, blank, after, denotes⟩
    have long : 3 * inner.length ≤ fuel := by
      simp only [readerFuel, List.length_append] at enough
      omega
    have ended : skipWs back = [] := List.dropWhile_eq_nil_iff.mpr after
    rw [jsonParseWith, (readers_complete fuel).value blank denotes after.stops long]
    dsimp only
    rw [if_pos ended]

/-- The parser accepts exactly the texts of the grammar, each with the tree it denotes. -/
theorem jsonParse_iff (text : Bytes) (value : JsonValue) :
    jsonParse text = some value ↔ DenotesDocument text value :=
  jsonParseWith_iff (Nat.le_refl _) value

/-- The readers end by themselves: more fuel changes nothing. -/
theorem jsonParseWith_eq {fuel : Nat} {text : Bytes} (enough : readerFuel text ≤ fuel) :
    jsonParseWith fuel text = jsonParse text := by
  apply Option.ext
  intro value
  rw [jsonParseWith_iff enough, jsonParse_iff]

/-- A text denotes one tree at most. -/
theorem DenotesDocument.unique {text : Bytes} {value other : JsonValue}
    (denotes : DenotesDocument text value) (again : DenotesDocument text other) :
    value = other := by
  rw [← jsonParse_iff] at denotes again
  exact Option.some.inj (denotes.symm.trans again)

/-- The parser accepts exactly the texts of the grammar, each with the one tree it denotes,
and its readers end by themselves. -/
theorem jsonParse_grammar (text : Bytes) :
    (∀ value, jsonParse text = some value ↔ DenotesDocument text value) ∧
      (∀ value other, DenotesDocument text value → DenotesDocument text other →
        value = other) ∧
      ∀ fuel, readerFuel text ≤ fuel → jsonParseWith fuel text = jsonParse text :=
  ⟨jsonParse_iff text, fun _ _ denotes again => denotes.unique again,
    fun _ enough => jsonParseWith_eq enough⟩

/-- An array or an object is read up to its own bracket, whatever follows it. -/
theorem Denotes.bracketed {text : Bytes} {value : JsonValue} (denotes : Denotes text value)
    (opens : text.head? = some openObj ∨ text.head? = some openArr) {fuel : Nat}
    (enough : 3 * text.length ≤ fuel) (rest : Bytes) :
    parseValue fuel (text ++ rest) = some (value, rest) := by
  obtain ⟨c, tail, begins, noWs, _⟩ := denotes.first
  have bracket : c = openObj ∨ c = openArr := by
    rw [begins] at opens
    simpa using opens
  obtain ⟨fuel, rfl⟩ : ∃ less, fuel = less + 1 := by
    rw [begins, List.length_cons] at enough
    exact ⟨fuel - 1, by omega⟩
  have skipped : skipWs (text ++ rest) = text ++ rest := by
    rw [begins]
    exact List.dropWhile_cons_of_neg (by simp [noWs])
  rw [parseValue, skipped]
  cases denotes with
  | null => exact absurd opens (by decide)
  | yes => exact absurd opens (by decide)
  | no => exact absurd opens (by decide)
  | number lexeme short =>
      obtain ⟨d, others, rfl, first⟩ := lexeme.first
      obtain ⟨_, _, _, noObj, noArr, _⟩ := number_first first
      simp [noObj, noArr] at opens
  | string literal =>
      cases literal
      exact absurd opens (by simp [quote, openObj, openArr])
  | @array body _ inner =>
      rw [List.length_cons] at enough
      rw [List.cons_append]
      dsimp only
      rw [if_neg (by decide), if_pos rfl]
      exact (readers_complete fuel).array inner (by omega)
  | @object body _ inner =>
      rw [List.length_cons] at enough
      rw [List.cons_append]
      dsimp only
      rw [if_pos rfl]
      exact (readers_complete fuel).object inner (by omega)

/-- No beginning of an array or of an object is itself a document. -/
theorem unfinished_rejected {text front : Bytes} {value : JsonValue} (denotes : Denotes text value)
    (opens : text.head? = some openObj ∨ text.head? = some openArr) (cut : front <+: text)
    (short : front ≠ text) : jsonParse front = none := by
  by_contra parsed
  obtain ⟨other, parsed⟩ := Option.ne_none_iff_exists'.mp parsed
  obtain ⟨blank, inner, back, rfl, blanks, _, denotesInner⟩ := (jsonParse_iff front other).mp parsed
  obtain ⟨rest, rfl⟩ := cut
  obtain ⟨c, tail, begins, noWs, _⟩ := denotes.first
  -- The text opens with its bracket, so no blank stands before the inner value.
  have none : blank = [] := by
    cases blank with
    | nil => rfl
    | cons b others =>
        have isWs_b := blanks b List.mem_cons_self
        have same : b = c := by simpa using congrArg List.head? begins
        rw [same, noWs] at isWs_b
        contradiction
  subst none
  have innerOpens : inner.head? = some openObj ∨ inner.head? = some openArr := by
    obtain ⟨d, others, rfl, _⟩ := denotesInner.first
    simpa using opens
  have whole := denotes.bracketed opens (Nat.le_refl _) []
  rw [List.append_nil] at whole
  have enough : 3 * inner.length ≤ 3 * (([] ++ (inner ++ back)) ++ rest).length := by
    simp only [List.length_append]
    omega
  have part := denotesInner.bracketed innerOpens enough (back ++ rest)
  have regroup : ([] ++ (inner ++ back)) ++ rest = inner ++ (back ++ rest) := by simp
  rw [regroup] at whole part
  rw [whole] at part
  have left := (Prod.mk.inj (Option.some.inj part)).2
  obtain ⟨rfl, rfl⟩ := List.append_eq_nil_iff.mp left.symm
  exact short (by simp)

theorem unfinished_array_rejected : jsonParse (ascii "[[]") = none := by
  have blank : IsWs [] := fun _ member => absurd member List.not_mem_nil
  have inner : Denotes [openArr, closeArr] (.array []) := .array (.empty blank)
  have whole : Denotes [openArr, openArr, closeArr, closeArr] (.array [.array []]) :=
    .array (.items (.last blank inner blank))
  exact unfinished_rejected whole (Or.inr rfl) ⟨[closeArr], rfl⟩ (by decide)

example :
    (jsonParse (ascii "[1,]")).isNone = true ∧
      (jsonParse (ascii "\x7b\"a\": -1.e\x7d")).isSome = true := by
  decide +kernel

end CixCache
