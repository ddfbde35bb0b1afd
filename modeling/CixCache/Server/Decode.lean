import Mathlib.Data.List.TakeWhile
import CixCache.Server.Http

/-!
Contract: percent decoding of a request's path, in place.

Owns: `decodeFrom`, the loop of `http_path_decode` with its two cursors on a terminated
buffer; `Encodes`, what a percent-encoded text stands for; that the loop stays in the
buffer and computes `httpPathDecode`; and exactly when the C string it leaves is all of
what the path stands for.

Does not own: what a decoded path is routed to.
-/

namespace CixCache

/-! ## The loop on a buffer -/

/-- What `http_path_decode` comes to: a read or write outside the buffer, -1, or 0 with
the buffer it leaves. -/
inductive InPlace where
  | outside
  | refused
  | decoded (buf : Bytes)
deriving DecidableEq, Repr

/-- `*w = c` -/
def storeAt (buf : Bytes) (w : Nat) (c : Byte) : Option Bytes :=
  if w < buf.length then some (buf.set w c) else none

/-- The loop, from the cursors `r` and `w`; a turn reads a byte at least, so the length of
the buffer bounds the turns. -/
def decodeFrom : Nat → Bytes → Nat → Nat → InPlace
  | 0, _, _, _ => .outside
  | fuel + 1, buf, r, w =>
      match buf[r]? with
      | none => .outside
      | some c =>
          if c = 0 then
            match storeAt buf w 0 with
            | none => .outside
            | some done => .decoded done
          else if c = percent then
            match buf[r + 1]? with
            | none => .outside
            | some high =>
                match hexval high with
                | none => .refused
                | some hi =>
                    match buf[r + 2]? with
                    | none => .outside
                    | some low =>
                        match hexval low with
                        | none => .refused
                        | some lo =>
                            match storeAt buf w (hi <<< 4 ||| lo) with
                            | none => .outside
                            | some next => decodeFrom fuel next (r + 3) (w + 1)
          else
            match storeAt buf w c with
            | none => .outside
            | some next => decodeFrom fuel next (r + 1) (w + 1)

def decodeInPlace (buf : Bytes) : InPlace := decodeFrom buf.length buf 0 0

/-! ## What a path stands for -/

/-- A hexadecimal digit, in either case, and its value. -/
def HexDigit (value : Nat) (c : Byte) : Prop :=
  value < 10 ∧ c.toNat = 48 + value ∨
    10 ≤ value ∧ value < 16 ∧ (c.toNat = 87 + value ∨ c.toNat = 55 + value)

/-- The text stands for these bytes: a byte other than `%` for itself, `%` and two
hexadecimal digits for the byte they spell. -/
inductive Encodes : Bytes → Bytes → Prop where
  | nil : Encodes [] []
  | plain {c : Byte} {path text : Bytes} (notPercent : c ≠ percent) (rest : Encodes path text) :
      Encodes (c :: path) (c :: text)
  | escaped {hi lo : Nat} {high low c : Byte} {path text : Bytes} (highDigit : HexDigit hi high)
      (lowDigit : HexDigit lo low) (value : c.toNat = 16 * hi + lo) (rest : Encodes path text) :
      Encodes (percent :: high :: low :: path) (c :: text)

/-- Every `%` is followed by two hexadecimal digits. -/
def WellEscaped (path : Bytes) : Prop :=
  ∀ front rest, path = front ++ percent :: rest →
    ∃ hi lo high low tail, rest = high :: low :: tail ∧ HexDigit hi high ∧ HexDigit lo low

/-- The escape of NUL. -/
def nulEscape : Bytes := ascii "%00"

/-- `http_path_decode` fails on bad escapes alone, and otherwise leaves all that the path
stands for, whatever lies behind the path in its buffer. -/
def DecodesExactly (path : Bytes) : Prop :=
  ∀ behind,
    (decodeInPlace (path ++ 0 :: behind) = .refused ↔ ¬ WellEscaped path) ∧
      (WellEscaped path → ∃ text buf, Encodes path text ∧
        decodeInPlace (path ++ 0 :: behind) = .decoded buf ∧ cString buf = text)

/-- The target of a request without its query. -/
def targetOf (req : HttpRequest) : Bytes := req.path.takeWhile fun c => c ≠ questionMark

/-! ## Hexadecimal digits -/

theorem hexval_eq_some {c v : Byte} : hexval c = some v ↔ HexDigit v.toNat c := by
  have cBound := c.toNat_lt
  have sub : ∀ d : Byte, d ≤ c → (c - d).toNat = c.toNat - d.toNat :=
    fun d below => UInt8.toNat_sub_of_le c d below
  unfold hexval isDigit
  simp only [Bool.and_eq_true, decide_eq_true_eq]
  split
  next digit =>
    have low := UInt8.le_iff_toNat_le.mp digit.1
    have high := UInt8.le_iff_toNat_le.mp digit.2
    rw [Option.some.injEq, ← UInt8.toNat_inj, sub 48 digit.1]
    unfold HexDigit
    have asDigit : (48 : Byte).toNat = 48 := rfl
    have nine : (57 : Byte).toNat = 57 := rfl
    omega
  next notDigit =>
    split
    next lower =>
      have low := UInt8.le_iff_toNat_le.mp lower.1
      have high := UInt8.le_iff_toNat_le.mp lower.2
      have letter : (97 : Byte).toNat = 97 := rfl
      have last : (102 : Byte).toNat = 102 := rfl
      have ten : (10 : Byte).toNat = 10 := rfl
      rw [Option.some.injEq, ← UInt8.toNat_inj, UInt8.toNat_add, sub 97 lower.1]
      unfold HexDigit
      omega
    next notLower =>
      rw [UInt8.le_iff_toNat_le, UInt8.le_iff_toNat_le] at notDigit notLower
      have zeroDigit : (48 : Byte).toNat = 48 := rfl
      have nine : (57 : Byte).toNat = 57 := rfl
      have letter : (97 : Byte).toNat = 97 := rfl
      have last : (102 : Byte).toNat = 102 := rfl
      split
      next upper =>
        have low := UInt8.le_iff_toNat_le.mp upper.1
        have high := UInt8.le_iff_toNat_le.mp upper.2
        have capital : (65 : Byte).toNat = 65 := rfl
        have lastCapital : (70 : Byte).toNat = 70 := rfl
        have ten : (10 : Byte).toNat = 10 := rfl
        rw [Option.some.injEq, ← UInt8.toNat_inj, UInt8.toNat_add, sub 65 upper.1]
        unfold HexDigit
        omega
      next notUpper =>
        rw [UInt8.le_iff_toNat_le, UInt8.le_iff_toNat_le] at notUpper
        have capital : (65 : Byte).toNat = 65 := rfl
        have lastCapital : (70 : Byte).toNat = 70 := rfl
        simp only [false_iff, HexDigit, reduceCtorEq]
        omega

theorem HexDigit.lt {value : Nat} {c : Byte} (digit : HexDigit value c) : value < 16 := by
  unfold HexDigit at digit
  omega

theorem HexDigit.ne_percent {value : Nat} {c : Byte} (digit : HexDigit value c) : c ≠ percent := by
  rintro rfl
  have code : percent.toNat = 37 := rfl
  unfold HexDigit at digit
  omega

theorem HexDigit.unique {value other : Nat} {c : Byte} (digit : HexDigit value c)
    (again : HexDigit other c) : value = other := by
  unfold HexDigit at digit again
  omega

/-- Zero has one digit. -/
theorem HexDigit.zero_iff {c : Byte} : HexDigit 0 c ↔ c = zero := by
  rw [← UInt8.toNat_inj]
  have code : zero.toNat = 48 := rfl
  unfold HexDigit
  omega

theorem hexval_of_digit {value : Nat} {c : Byte} (digit : HexDigit value c) :
    hexval c = some (UInt8.ofNat value) := by
  have small := digit.lt
  have same : (UInt8.ofNat value).toNat = value := by
    rw [UInt8.toNat_ofNat']
    omega
  rw [hexval_eq_some, same]
  exact digit

/-- The byte assembled from the two values. -/
theorem assembled_toNat {hi lo : Byte} (hiSmall : hi.toNat < 16) (loSmall : lo.toNat < 16) :
    (hi <<< 4 ||| lo).toNat = 16 * hi.toNat + lo.toNat := by
  have shift : (4 : Byte).toNat = 4 := rfl
  have wide : hi.toNat <<< 4 < 2 ^ 8 := by
    rw [Nat.shiftLeft_eq]
    omega
  rw [UInt8.toNat_or, UInt8.toNat_shiftLeft, shift, Nat.mod_eq_of_lt (by decide : 4 < 8),
    Nat.mod_eq_of_lt wide, ← Nat.shiftLeft_add_eq_or_of_lt (by omega : lo.toNat < 2 ^ 4),
    Nat.shiftLeft_eq]
  omega

/-! ## Decoding as a function of the text -/

theorem httpPathDecode_plain {c : Byte} {rest : Bytes} (notPercent : c ≠ percent) :
    httpPathDecode (c :: rest) = (httpPathDecode rest).map fun decoded => c :: decoded := by
  conv_lhs => unfold httpPathDecode
  rw [if_neg notPercent]

theorem httpPathDecode_short {rest : Bytes}
    (short : ∀ high low tail, rest = high :: low :: tail → False) :
    httpPathDecode (percent :: rest) = none := by
  unfold httpPathDecode
  rw [if_pos rfl]
  split
  next high low tail => exact absurd rfl (short high low tail)
  next => rfl

theorem httpPathDecode_encodes {path text : Bytes} (decoded : httpPathDecode path = some text) :
    Encodes path text := by
  induction path using httpPathDecode.induct generalizing text with
  | case1 =>
      obtain rfl := Option.some.inj decoded
      exact .nil
  | case2 high low tail hi lo lowValue highValue inductionHypothesis =>
      rw [httpPathDecode, if_pos rfl] at decoded
      simp only [highValue, lowValue, Option.map_eq_some_iff] at decoded
      obtain ⟨rest, restDecoded, rfl⟩ := decoded
      have highDigit := hexval_eq_some.mp highValue
      have lowDigit := hexval_eq_some.mp lowValue
      exact .escaped highDigit lowDigit (assembled_toNat highDigit.lt lowDigit.lt)
        (inductionHypothesis restDecoded)
  | case3 high low tail bad =>
      rw [httpPathDecode, if_pos rfl] at decoded
      split at decoded
      next hi lo highValue lowValue => exact absurd lowValue (bad hi lo highValue)
      next => contradiction
  | case4 rest short =>
      rw [httpPathDecode_short short] at decoded
      contradiction
  | case5 c rest notPercent inductionHypothesis =>
      rw [httpPathDecode_plain notPercent, Option.map_eq_some_iff] at decoded
      obtain ⟨restText, restDecoded, rfl⟩ := decoded
      exact .plain notPercent (inductionHypothesis restDecoded)

theorem Encodes.decode {path text : Bytes} (encodes : Encodes path text) :
    httpPathDecode path = some text := by
  induction encodes with
  | nil => rfl
  | plain notPercent _ inductionHypothesis =>
      rw [httpPathDecode_plain notPercent, inductionHypothesis, Option.map_some]
  | @escaped hi lo high low c path text highDigit lowDigit value _ inductionHypothesis =>
      have highValue := hexval_of_digit highDigit
      have lowValue := hexval_of_digit lowDigit
      have assembled : UInt8.ofNat hi <<< 4 ||| UInt8.ofNat lo = c := by
        have hiSmall := (hexval_eq_some.mp highValue).lt
        have loSmall := (hexval_eq_some.mp lowValue).lt
        rw [← UInt8.toNat_inj, assembled_toNat hiSmall loSmall,
          (hexval_eq_some.mp highValue).unique highDigit,
          (hexval_eq_some.mp lowValue).unique lowDigit, value]
      rw [httpPathDecode, if_pos rfl]
      simp only [highValue, lowValue, inductionHypothesis, Option.map_some, assembled]

theorem httpPathDecode_iff {path text : Bytes} :
    httpPathDecode path = some text ↔ Encodes path text :=
  ⟨httpPathDecode_encodes, Encodes.decode⟩

theorem Encodes.unique {path text other : Bytes} (encodes : Encodes path text)
    (again : Encodes path other) : text = other :=
  Option.some.inj (encodes.decode.symm.trans again.decode)

theorem wellEscaped_cons {c : Byte} {path : Bytes} (notPercent : c ≠ percent) :
    WellEscaped (c :: path) ↔ WellEscaped path := by
  constructor
  · intro well front rest split
    exact well (c :: front) rest (by rw [split, List.cons_append])
  · intro well front rest split
    cases front with
    | nil => exact absurd (List.cons.inj split).1 notPercent
    | cons first front => exact well front rest (List.cons.inj split).2

theorem wellEscaped_escape {hi lo : Nat} {high low : Byte} {path : Bytes}
    (highDigit : HexDigit hi high) (lowDigit : HexDigit lo low) :
    WellEscaped (percent :: high :: low :: path) ↔ WellEscaped path := by
  have behind : WellEscaped (high :: low :: path) ↔ WellEscaped path :=
    (wellEscaped_cons highDigit.ne_percent).trans (wellEscaped_cons lowDigit.ne_percent)
  rw [← behind]
  constructor
  · intro well front rest split
    exact well (percent :: front) rest (by rw [split, List.cons_append])
  · intro well front rest split
    cases front with
    | nil =>
        obtain rfl := (List.cons.inj split).2
        exact ⟨hi, lo, high, low, path, rfl, highDigit, lowDigit⟩
    | cons first front => exact well front rest (List.cons.inj split).2

/-- The texts that stand for something are the well-escaped ones. -/
theorem wellEscaped_iff {path : Bytes} : WellEscaped path ↔ ∃ text, Encodes path text := by
  constructor
  · intro well
    induction path using httpPathDecode.induct with
    | case1 => exact ⟨[], .nil⟩
    | case2 high low tail hi lo lowValue highValue inductionHypothesis =>
        have highDigit := hexval_eq_some.mp highValue
        have lowDigit := hexval_eq_some.mp lowValue
        obtain ⟨text, encodes⟩ :=
          inductionHypothesis ((wellEscaped_escape highDigit lowDigit).mp well)
        exact ⟨_, .escaped highDigit lowDigit (assembled_toNat highDigit.lt lowDigit.lt) encodes⟩
    | case3 high low tail bad =>
        obtain ⟨hi, lo, _, _, _, split, highDigit, lowDigit⟩ := well [] _ rfl
        obtain ⟨rfl, rest⟩ := List.cons.inj split
        obtain ⟨rfl, -⟩ := List.cons.inj rest
        exact absurd (hexval_of_digit lowDigit) (bad _ _ (hexval_of_digit highDigit))
    | case4 rest short =>
        obtain ⟨_, _, high, low, tail, split, _, _⟩ := well [] _ rfl
        exact absurd split (short high low tail)
    | case5 c rest notPercent inductionHypothesis =>
        obtain ⟨text, encodes⟩ := inductionHypothesis ((wellEscaped_cons notPercent).mp well)
        exact ⟨_, .plain notPercent encodes⟩
  · rintro ⟨text, encodes⟩
    induction encodes with
    | nil =>
        intro front rest split
        cases front <;> contradiction
    | plain notPercent _ inductionHypothesis =>
        exact (wellEscaped_cons notPercent).mpr inductionHypothesis
    | escaped highDigit lowDigit _ _ inductionHypothesis =>
        exact (wellEscaped_escape highDigit lowDigit).mpr inductionHypothesis

theorem httpPathDecode_none_iff {path : Bytes} :
    httpPathDecode path = none ↔ ¬ WellEscaped path := by
  rw [wellEscaped_iff]
  simp only [← httpPathDecode_iff]
  cases httpPathDecode path <;> simp

/-! ## The cursors

The buffer is what has been written, a gap between the cursors, and what has not been
read. -/

section Cursors

variable {written gap rest : Bytes} {fuel : Nat}

theorem read_at (front rest : Bytes) (k : Nat) : (front ++ rest)[front.length + k]? = rest[k]? := by
  rw [List.getElem?_append_right (Nat.le_add_right _ _), Nat.add_sub_cancel_left]

/-- A write lands on the first byte of the gap. -/
theorem storeAt_gap (nonempty : gap ≠ []) (c : Byte) :
    storeAt (written ++ gap ++ rest) written.length c =
      some (written ++ [c] ++ gap.tail ++ rest) := by
  obtain ⟨first, others, rfl⟩ := List.exists_cons_of_ne_nil nonempty
  have inside : written.length < (written ++ (first :: others) ++ rest).length := by
    simp only [List.length_append, List.length_cons]
    omega
  rw [storeAt, if_pos inside, List.append_assoc, List.set_append_right _ _ (Nat.le_refl _),
    Nat.sub_self]
  simp

/-- The gap after a turn that read some bytes and wrote one. -/
theorem gap_tail_length (nonempty : gap ≠ []) (c : Byte) :
    (written ++ [c] ++ gap.tail).length = (written ++ gap).length := by
  have positive := List.length_pos_of_ne_nil nonempty
  simp only [List.length_append, List.length_singleton, List.length_tail]
  omega

theorem decodeFrom_nul :
    decodeFrom (fuel + 1) (written ++ gap ++ 0 :: rest) (written ++ gap).length written.length =
      .decoded (written ++ 0 :: (gap ++ [0]).tail ++ rest) := by
  have read := read_at (written ++ gap) (0 :: rest) 0
  rw [Nat.add_zero] at read
  have shape : written ++ gap ++ 0 :: rest = written ++ (gap ++ [0]) ++ rest := by simp
  have stored := @storeAt_gap written (gap ++ [0]) rest (by simp) 0
  rw [decodeFrom, read, List.getElem?_cons_zero]
  dsimp only
  rw [if_pos rfl, shape, stored]
  simp

theorem decodeFrom_plain {c : Byte} (notNul : c ≠ 0) (notPercent : c ≠ percent) :
    decodeFrom (fuel + 1) (written ++ gap ++ c :: rest) (written ++ gap).length written.length =
      decodeFrom fuel (written ++ [c] ++ (gap ++ [c]).tail ++ rest)
        (written ++ [c] ++ (gap ++ [c]).tail).length (written ++ [c]).length := by
  have read := read_at (written ++ gap) (c :: rest) 0
  rw [Nat.add_zero] at read
  have shape : written ++ gap ++ c :: rest = written ++ (gap ++ [c]) ++ rest := by simp
  have nonempty : gap ++ [c] ≠ [] := by simp
  rw [decodeFrom, read, List.getElem?_cons_zero]
  dsimp only
  rw [if_neg notNul, if_neg notPercent, shape, storeAt_gap nonempty, gap_tail_length nonempty]
  dsimp only
  congr 1
  · simp only [List.length_append, List.length_singleton]
    omega
  · rw [List.length_append, List.length_singleton]

/-- An escape is read as far as its digits go. -/
theorem decodeFrom_escape {hi lo high low : Byte} (highValue : hexval high = some hi)
    (lowValue : hexval low = some lo) :
    decodeFrom (fuel + 1) (written ++ gap ++ percent :: high :: low :: rest)
        (written ++ gap).length written.length =
      decodeFrom fuel
        (written ++ [hi <<< 4 ||| lo] ++ (gap ++ [percent, high, low]).tail ++ rest)
        (written ++ [hi <<< 4 ||| lo] ++ (gap ++ [percent, high, low]).tail).length
        (written ++ [hi <<< 4 ||| lo]).length := by
  have read := read_at (written ++ gap) (percent :: high :: low :: rest)
  have shape : written ++ gap ++ percent :: high :: low :: rest =
      written ++ (gap ++ [percent, high, low]) ++ rest := by simp
  have nonempty : gap ++ [percent, high, low] ≠ [] := by simp
  have first := read 0
  rw [Nat.add_zero] at first
  rw [decodeFrom, first, read 1, read 2]
  simp only [List.getElem?_cons_zero, List.getElem?_cons_succ, highValue, lowValue]
  rw [if_neg (by decide), if_pos trivial, shape, storeAt_gap nonempty, gap_tail_length nonempty]
  dsimp only
  congr 1
  · simp only [List.length_append, List.length_cons, List.length_nil]
    omega
  · rw [List.length_append, List.length_singleton]

/-- A byte that is no digit ends the loop before anything behind it is read; the
terminator is such a byte. -/
theorem decodeFrom_bad
    (bad : ∀ hi lo high low tail, rest = high :: low :: tail → hexval high = some hi →
      hexval low = some lo → False) (behind : Bytes) :
    decodeFrom (fuel + 1) (written ++ gap ++ percent :: (rest ++ 0 :: behind))
        (written ++ gap).length written.length = .refused := by
  have read := read_at (written ++ gap) (percent :: (rest ++ 0 :: behind))
  have first := read 0
  have nulValue : hexval 0 = none := by decide
  rw [Nat.add_zero] at first
  rw [decodeFrom, first, read 1, read 2]
  simp only [List.getElem?_cons_zero, List.getElem?_cons_succ]
  rw [if_neg (by decide), if_pos trivial]
  cases rest with
  | nil => simp only [List.nil_append, List.getElem?_cons_zero, nulValue]
  | cons high rest =>
      simp only [List.cons_append, List.getElem?_cons_zero, List.getElem?_cons_succ]
      cases highValue : hexval high with
      | none => rfl
      | some hi =>
          dsimp only
          cases rest with
          | nil => simp only [List.nil_append, List.getElem?_cons_zero, nulValue]
          | cons low tail =>
              simp only [List.cons_append, List.getElem?_cons_zero]
              cases lowValue : hexval low with
              | none => rfl
              | some lo => exact absurd lowValue (bad hi lo high low tail rfl highValue)

/-- From any gap, the loop writes the decoding behind what it has written and ends it
there, or is refused; the turns suffice and the cursors stay in the buffer. -/
theorem decodeFrom_eq (unread : Bytes) (nulFree : 0 ∉ unread) (behind : Bytes)
    (enough : unread.length < fuel) :
    match httpPathDecode unread with
    | none =>
        decodeFrom fuel (written ++ gap ++ (unread ++ 0 :: behind)) (written ++ gap).length
          written.length = .refused
    | some text =>
        ∃ after, decodeFrom fuel (written ++ gap ++ (unread ++ 0 :: behind))
          (written ++ gap).length written.length = .decoded (written ++ text ++ 0 :: after) := by
  obtain ⟨fuel, rfl⟩ := Nat.exists_eq_add_one_of_ne_zero (Nat.ne_zero_of_lt enough)
  induction unread using httpPathDecode.induct generalizing written gap fuel with
  | case1 => exact ⟨_, by simpa using decodeFrom_nul⟩
  | case2 high low tail hi lo lowValue highValue inductionHypothesis =>
      simp only [List.mem_cons, not_or] at nulFree
      simp only [List.length_cons] at enough
      obtain ⟨less, rfl⟩ := Nat.exists_eq_add_one_of_ne_zero
        (by omega : fuel ≠ 0)
      have rested := @inductionHypothesis (written ++ [hi <<< 4 ||| lo])
        (gap ++ [percent, high, low]).tail nulFree.2.2.2 less (by omega)
      have whole : httpPathDecode (percent :: high :: low :: tail) =
          (httpPathDecode tail).map fun decoded => (hi <<< 4 ||| lo) :: decoded := by
        rw [httpPathDecode, if_pos rfl]
        simp only [highValue, lowValue]
      rw [whole, List.cons_append, List.cons_append, List.cons_append,
        decodeFrom_escape highValue lowValue]
      cases tailDecoded : httpPathDecode tail with
      | none => simpa only [tailDecoded, Option.map_none] using rested
      | some text => simpa [tailDecoded] using rested
  | case3 high low tail bad =>
      have refused : httpPathDecode (percent :: high :: low :: tail) = none := by
        rw [httpPathDecode, if_pos rfl]
        split
        next hi lo highValue lowValue => exact absurd lowValue (bad hi lo highValue)
        next => rfl
      rw [refused, List.cons_append]
      apply decodeFrom_bad
      intro hi lo other third rest split highValue lowValue
      obtain ⟨rfl, rest⟩ := List.cons.inj split
      obtain ⟨rfl, -⟩ := List.cons.inj rest
      exact bad hi lo highValue lowValue
  | case4 rest short =>
      rw [httpPathDecode_short short, List.cons_append]
      apply decodeFrom_bad
      intro hi lo high low tail split _ _
      exact short high low tail split
  | case5 c rest notPercent inductionHypothesis =>
      simp only [List.mem_cons, not_or] at nulFree
      simp only [List.length_cons] at enough
      obtain ⟨less, rfl⟩ := Nat.exists_eq_add_one_of_ne_zero
        (by omega : fuel ≠ 0)
      have rested := @inductionHypothesis (written ++ [c]) (gap ++ [c]).tail nulFree.2 less (by omega)
      rw [httpPathDecode_plain notPercent, List.cons_append,
        decodeFrom_plain (Ne.symm nulFree.1) notPercent]
      cases restDecoded : httpPathDecode rest with
      | none => simpa only [restDecoded, Option.map_none] using rested
      | some text => simpa [restDecoded] using rested

end Cursors

/-! ## The string that is left -/

/-- The loop leaves this C string in whatever buffer holds the path. -/
def Leaves (path text : Bytes) : Prop :=
  ∀ behind, ∃ buf, decodeInPlace (path ++ 0 :: behind) = .decoded buf ∧ cString buf = text

theorem cString_terminated (text after : Bytes) : cString (text ++ 0 :: after) = cString text := by
  unfold cString
  induction text with
  | nil => rfl
  | cons c rest inductionHypothesis =>
      rw [List.cons_append, List.takeWhile_cons, List.takeWhile_cons, inductionHypothesis]

theorem cString_eq_self {text : Bytes} : cString text = text ↔ 0 ∉ text := by
  unfold cString
  rw [List.takeWhile_eq_self_iff]
  constructor
  · intro plain nul
    exact absurd rfl (of_decide_eq_true (plain 0 nul))
  · intro absent c member
    exact decide_eq_true fun same => absent (same ▸ member)

theorem decodeInPlace_encodes {path text : Bytes} (nulFree : 0 ∉ path)
    (encodes : Encodes path text) : Leaves path (cString text) := by
  intro behind
  have turns : path.length < (path ++ 0 :: behind).length := by
    simp only [List.length_append, List.length_cons]
    omega
  have ends := @decodeFrom_eq [] [] _ path nulFree behind turns
  rw [encodes.decode] at ends
  obtain ⟨after, done⟩ := ends
  exact ⟨_, done, by rw [List.nil_append, cString_terminated]⟩

theorem decodeInPlace_refused {path : Bytes} (nulFree : 0 ∉ path) (bad : ¬ WellEscaped path)
    (behind : Bytes) : decodeInPlace (path ++ 0 :: behind) = .refused := by
  have turns : path.length < (path ++ 0 :: behind).length := by
    simp only [List.length_append, List.length_cons]
    omega
  have ends := @decodeFrom_eq [] [] _ path nulFree behind turns
  rwa [httpPathDecode_none_iff.mpr bad] at ends

/-- What is dispatched is the string left in the buffer. -/
theorem dispatchPath_leaves {req : HttpRequest} {text : Bytes}
    (encodes : Encodes (targetOf req) text) : dispatchPath req = some (cString text) := by
  show (httpPathDecode (targetOf req)).map cString = _
  rw [encodes.decode, Option.map_some]

theorem infix_cons_of_ne {c first : Byte} {pattern path : Bytes} (other : c ≠ first) :
    first :: pattern <:+: c :: path ↔ first :: pattern <:+: path := by
  rw [List.infix_cons_iff]
  constructor
  · rintro (start | inside)
    · exact absurd (List.cons_prefix_cons.mp start).1.symm other
    · exact inside
  · exact Or.inr

/-- A decoding has a NUL where the text has its escape. -/
theorem Encodes.nul_iff {path text : Bytes} (encodes : Encodes path text) (nulFree : 0 ∉ path) :
    0 ∈ text ↔ nulEscape <:+: path := by
  have escape : nulEscape = percent :: zero :: zero :: [] := by decide
  rw [escape]
  induction encodes with
  | nil => simp
  | @plain c path text notPercent _ inductionHypothesis =>
      rw [List.mem_cons, not_or] at nulFree
      have later : 0 ∈ text ↔ percent :: zero :: zero :: [] <:+: path :=
        inductionHypothesis nulFree.2
      rw [infix_cons_of_ne notPercent, ← later, List.mem_cons]
      exact or_iff_right nulFree.1
  | @escaped hi lo high low c path text highDigit lowDigit value _ inductionHypothesis =>
      simp only [List.mem_cons, not_or] at nulFree
      have isNul : 0 = c ↔ high = zero ∧ low = zero := by
        rw [← UInt8.toNat_inj, value, ← HexDigit.zero_iff, ← HexDigit.zero_iff]
        have nul : (0 : Byte).toNat = 0 := rfl
        constructor
        · intro same
          have hiZero : hi = 0 := by omega
          have loZero : lo = 0 := by omega
          exact ⟨hiZero ▸ highDigit, loZero ▸ lowDigit⟩
        · rintro ⟨highZero, lowZero⟩
          rw [highDigit.unique highZero, lowDigit.unique lowZero, nul]
      have later : 0 ∈ text ↔ percent :: zero :: zero :: [] <:+: path :=
        inductionHypothesis nulFree.2.2.2
      rw [List.mem_cons, isNul, later, List.infix_cons_iff,
        infix_cons_of_ne highDigit.ne_percent, infix_cons_of_ne lowDigit.ne_percent]
      refine or_congr_left ?_
      rw [List.cons_prefix_cons, List.cons_prefix_cons, List.cons_prefix_cons]
      simp only [List.nil_prefix, and_true, true_and, eq_comm]

theorem decodesExactly_iff {path : Bytes} (nulFree : 0 ∉ path) :
    DecodesExactly path ↔ ¬ (WellEscaped path ∧ nulEscape <:+: path) := by
  constructor
  · rintro exact' ⟨well, escape⟩
    obtain ⟨text, buf, encodes, done, whole⟩ := (exact' []).2 well
    obtain ⟨other, again, left⟩ := decodeInPlace_encodes nulFree encodes []
    obtain rfl := InPlace.decoded.inj (done.symm.trans again)
    exact cString_eq_self.mp (left.symm.trans whole) ((encodes.nul_iff nulFree).mpr escape)
  · intro noEscape behind
    by_cases well : WellEscaped path
    · obtain ⟨text, encodes⟩ := wellEscaped_iff.mp well
      obtain ⟨buf, done, left⟩ := decodeInPlace_encodes nulFree encodes behind
      have whole : cString text = text := cString_eq_self.mpr fun nul =>
        noEscape ⟨well, (encodes.nul_iff nulFree).mp nul⟩
      refine ⟨?_, fun _ => ⟨text, buf, encodes, done, left.trans whole⟩⟩
      rw [done]
      exact ⟨InPlace.noConfusion, fun bad => absurd well bad⟩
    · exact ⟨⟨fun _ => well, fun _ => decodeInPlace_refused nulFree well behind⟩,
        fun good => absurd good well⟩

/-- Decoding a path is exact unless it escapes a NUL; what encodes a text without one is
decoded to it; and targets that stand for different texts are dispatched as different paths
exactly when these differ in front of their first NUL. -/
theorem path_decoding_iff {path : Bytes} (nulFree : 0 ∉ path) :
    (DecodesExactly path ↔ ¬ (WellEscaped path ∧ nulEscape <:+: path)) ∧
    (∀ text, 0 ∉ text → Encodes path text → Leaves path text) ∧
    ∀ (req other : HttpRequest) (text otherText : Bytes), targetOf req = path →
      Encodes path text → Encodes (targetOf other) otherText → text ≠ otherText →
      (dispatchPath req ≠ dispatchPath other ↔ cString text ≠ cString otherText) := by
  refine ⟨decodesExactly_iff nulFree, ?_, ?_⟩
  · intro text plain encodes
    have left := decodeInPlace_encodes nulFree encodes
    rwa [cString_eq_self.mpr plain] at left
  · rintro req other text otherText rfl encodes otherEncodes _
    rw [dispatchPath_leaves encodes, dispatchPath_leaves otherEncodes, ne_eq, ne_eq,
      Option.some.injEq]

/-- Escapes in both cases of their digits, and one that is not an escape. -/
theorem escapes_decoded :
    DecodesExactly (ascii "/a%2Db%2dc") ∧ DecodesExactly (ascii "/bad%zz") := by
  constructor
  · exact (@path_decoding_iff (ascii "/a%2Db%2dc") (by decide)).1.mpr fun both =>
      absurd both.2 (by decide)
  · exact (@path_decoding_iff (ascii "/bad%zz") (by decide)).1.mpr fun both =>
      absurd both.2 (by decide)

/-- A request for a target. -/
def requestFor (target : Bytes) : HttpRequest := ⟨ascii "GET", target, 0, [], []⟩

/-- An escaped NUL cuts the path, and the rest of it is not dispatched. -/
theorem escaped_nul_cuts :
    ¬ DecodesExactly (ascii "/a%00b") ∧
      ∃ text otherText, Encodes (targetOf (requestFor (ascii "/a%00b"))) text ∧
        Encodes (targetOf (requestFor (ascii "/a"))) otherText ∧ text ≠ otherText ∧
        dispatchPath (requestFor (ascii "/a%00b")) = dispatchPath (requestFor (ascii "/a")) := by
  refine ⟨?_, [slash, 97, 0, 98], [slash, 97], ?_, ?_, by decide, by decide⟩
  · have well : WellEscaped (ascii "/a%00b") :=
      wellEscaped_iff.mpr ⟨[slash, 97, 0, 98], httpPathDecode_encodes (by decide)⟩
    exact fun all => (decodesExactly_iff (by decide)).mp all ⟨well, by decide⟩
  · exact httpPathDecode_encodes (by decide)
  · exact httpPathDecode_encodes (by decide)

end CixCache
