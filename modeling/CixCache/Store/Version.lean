import Mathlib.Data.List.GetD
import CixCache.Store.Entries

/-!
Contract: how versions are read off a name and ordered.

Owns: `storeSplitDisplay`; `storeVersionCmp` with its comparison of two runs at a
time; `cmpByVersion` and the ranks it gives; and that these comparisons are
consistent, because a version is compared as the sequence of its tokens.

Does not own: which names are ranked.
-/

namespace CixCache

open CixCache.Lib

/-! ## Functions of the source -/

/-- INT_MAX -/
def intMax : Nat := 2 ^ 31 - 1

/-- The digits of a release as an `int`, clamped. -/
def clampedRelease : Nat → Bytes → Nat
  | v, [] => v
  | v, c :: rest =>
      let d := c.toNat - 48
      if (intMax - d) / 10 < v then intMax else clampedRelease (v * 10 + d) rest

/-- A digit, or a `v` before a digit, at an offset inside the stem. -/
def startsVersion (name : Bytes) (stem offset : Nat) : Bool :=
  (name[offset]?).any isDigit ||
    (name[offset]? == some 118 && decide (offset + 1 < stem) && (name[offset + 1]?).any isDigit)

/-- What `store_split_display` fills in. -/
structure SplitDisplay where
  name : Bytes
  version : Bytes
  release : Nat
  arch : Bytes
deriving DecidableEq, Repr

def storeSplitDisplay (name : Bytes) : SplitDisplay :=
  let whole := stemLen name
  -- Off the end first, so the release is not read out of it.
  let at' := archOffset name whole
  let arch := if at' ≠ 0 then snprintf storeNameMax (slice name at' whole) else []
  let bare := if at' ≠ 0 then at' - 1 else whole
  let rel := releaseOffset name bare
  let release := if rel ≠ 0 then clampedRelease 0 (slice name rel bare) else 1
  let stem := if rel ≠ 0 then rel - 1 else bare
  match (List.range (stem - 1)).find? fun i =>
      name[i]? == some dash && startsVersion name stem (i + 1) with
  | some i =>
      ⟨snprintf storeNameMax (name.take i), snprintf storeNameMax (slice name (i + 1) stem),
        release, arch⟩
  | none => ⟨snprintf storeNameMax (name.take stem), [], release, arch⟩

/-- `vsep`: a separator is its own run. -/
def isVsep (c : Byte) : Bool :=
  c == dot || c == underscore || c == 43 || c == 126 || c == dash

/-- A byte that continues a run of text. -/
def isText (c : Byte) : Bool := !isDigit c && !isVsep c

/-- The run of text, or the separator, that a version continues with. -/
def textRun : Bytes → Bytes
  | [] => []
  | c :: rest => if isVsep c then [c] else (c :: rest).takeWhile isText

/-- What is behind that run. -/
def afterTextRun : Bytes → Bytes
  | [] => []
  | c :: rest => if isVsep c then rest else (c :: rest).dropWhile isText

/-- `strncmp` over the shorter length, then the lengths. -/
def runCmp (a b : Bytes) : Ordering :=
  (strcmp (a.take (min a.length b.length)) (b.take (min a.length b.length))).then
    (compare a.length b.length)

/-- Two runs of digits by magnitude; leading zeros are none. -/
def numberCmp (a b : Bytes) : Ordering :=
  (compare (stripZeros a).length (stripZeros b).length).then
    (strcmp (stripZeros a) (stripZeros b))

/-- `part_cmp`; every turn consumes a byte of both sides. -/
def partCmp : Nat → Bytes → Bytes → Ordering
  | _, [], [] => .eq
  | _, [], _ :: _ => .lt
  | _, _ :: _, [] => .gt
  | 0, _ :: _, _ :: _ => .eq
  | fuel + 1, c :: a, d :: b =>
      if isDigit c && isDigit d then
        (numberCmp ((c :: a).takeWhile isDigit) ((d :: b).takeWhile isDigit)).then
          (partCmp fuel ((c :: a).dropWhile isDigit) ((d :: b).dropWhile isDigit))
      else if isDigit c != isDigit d then
        -- A number outranks text in the same position.
        if isDigit c then .gt else .lt
      else
        (runCmp (textRun (c :: a)) (textRun (d :: b))).then
          (partCmp fuel (afterTextRun (c :: a)) (afterTextRun (d :: b)))

/-- A version without the `v` before its first digit. -/
def skipV (text : Bytes) : Bytes :=
  if text.head? == some 118 && (text[1]?).any isDigit then text.drop 1 else text

/-- What stands before the first hyphen. -/
def mainPart (text : Bytes) : Bytes :=
  snprintf storeNameMax (text.takeWhile fun c => c ≠ dash)

/-- The prerelease, behind the first hyphen. -/
def prerelease (text : Bytes) : Option Bytes :=
  if dash ∈ text then some ((text.dropWhile fun c => c ≠ dash).drop 1) else none

def storeVersionCmp (a b : Bytes) : Ordering :=
  let a := skipV a
  let b := skipV b
  (partCmp (mainPart a).length (mainPart a) (mainPart b)).then
    (match prerelease a, prerelease b with
    | none, none => .eq
    -- The one carrying a prerelease came first.
    | none, some _ => .gt
    | some _, none => .lt
    | some left, some right => partCmp left.length left right)

def cmpByVersion (x y : Bytes) : Ordering :=
  let xs := storeSplitDisplay x
  let ys := storeSplitDisplay y
  (storeVersionCmp xs.version ys.version).then
    ((compare xs.release ys.release).then (strcmp x y))

/-- The rank of each name, in the order the names stand. -/
def storeRankVersions (env : DocEnv) (names : List Bytes) : List Nat :=
  if env.allocates .idx then
    let idx := env.routine.sort (fun i j => cmpByVersion (names.getD i []) (names.getD j []))
      (List.range names.length)
    (List.range names.length).map fun i => idx.idxOf i
  else List.replicate names.length 0

/-! ## A version as its tokens -/

inductive VToken where
  | text (run : Bytes)
  | number (digits : Bytes)
deriving DecidableEq, Repr

/-- Text before numbers, numbers by length first. -/
def VToken.key : VToken → Nat × Nat × Bytes
  | .text run => (0, 0, run)
  | .number digits => (1, digits.length, digits)

def VToken.cmp (a b : VToken) : Ordering :=
  compareLex (compareOn Prod.fst)
    (compareLex (compareOn fun key => key.2.1) (compareOn fun key => key.2.2)) a.key b.key

instance : Std.TransCmp VToken.cmp := transCmp_on VToken.key

theorem dropWhile_length_lt {c : Byte} {rest : Bytes} {run : Byte → Bool} (starts : run c = true) :
    ((c :: rest).dropWhile run).length < (c :: rest).length := by
  rw [List.dropWhile_cons_of_pos starts]
  have shorter := (List.dropWhile_suffix run (l := rest)).length_le
  simp only [List.length_cons]
  omega

theorem afterTextRun_length_lt {c : Byte} {rest : Bytes} (text : isDigit c = false) :
    (afterTextRun (c :: rest)).length < (c :: rest).length := by
  rw [afterTextRun]
  by_cases separator : isVsep c = true
  · rw [if_pos separator]
    simp
  · rw [if_neg separator]
    apply dropWhile_length_lt
    simp [isText, text, separator]

def tokens : Bytes → List VToken
  | [] => []
  | c :: rest =>
      if _ : isDigit c = true then
        .number (stripZeros ((c :: rest).takeWhile isDigit)) ::
          tokens ((c :: rest).dropWhile isDigit)
      else .text (textRun (c :: rest)) :: tokens (afterTextRun (c :: rest))
termination_by text => text.length
decreasing_by
  · exact dropWhile_length_lt ‹_›
  · exact afterTextRun_length_lt (Bool.eq_false_iff.mpr ‹_›)

/-! ## The comparisons are consistent -/

theorem strcmp_take_then_length (a b : Bytes) : runCmp a b = strcmp a b := by
  unfold runCmp
  induction a generalizing b with
  | nil => cases b <;> rfl
  | cons c a inductionHypothesis =>
      cases b with
      | nil => rfl
      | cons d b =>
          have shorter : min (c :: a).length (d :: b).length = min a.length b.length + 1 := by
            simp only [List.length_cons]
            omega
          have lengths : compare (c :: a).length (d :: b).length = compare a.length b.length := by
            simp only [List.length_cons, Nat.compare_eq_ite_lt, Nat.add_lt_add_iff_right]
          rw [shorter, lengths]
          show (List.compareLex compare (c :: a.take _) (d :: b.take _)).then _ =
            List.compareLex compare (c :: a) (d :: b)
          rw [List.compareLex_cons_cons, List.compareLex_cons_cons, Ordering.then_assoc]
          congr 1
          exact inductionHypothesis b

theorem textCmp_eq (a b : Bytes) : VToken.cmp (.text a) (.text b) = runCmp a b := by
  rw [strcmp_take_then_length]
  rfl

theorem numberCmp_eq (a b : Bytes) :
    VToken.cmp (.number (stripZeros a)) (.number (stripZeros b)) = numberCmp a b := rfl

theorem tokens_digit {c : Byte} {rest : Bytes} (digit : isDigit c = true) :
    tokens (c :: rest) = .number (stripZeros ((c :: rest).takeWhile isDigit)) ::
      tokens ((c :: rest).dropWhile isDigit) := by
  rw [tokens, dif_pos digit]

theorem tokens_text {c : Byte} {rest : Bytes} (text : isDigit c = false) :
    tokens (c :: rest) = .text (textRun (c :: rest)) :: tokens (afterTextRun (c :: rest)) := by
  rw [tokens, dif_neg (by simp [text])]

theorem tokens_cons (c : Byte) (rest : Bytes) :
    ∃ first later, tokens (c :: rest) = first :: later := by
  cases digit : isDigit c with
  | true => exact ⟨_, _, tokens_digit digit⟩
  | false => exact ⟨_, _, tokens_text digit⟩

/-- Comparing run by run is comparing the tokens in turn. -/
theorem partCmp_eq (fuel : Nat) {a b : Bytes} (enough : a.length ≤ fuel) :
    partCmp fuel a b = List.compareLex VToken.cmp (tokens a) (tokens b) := by
  induction fuel generalizing a b with
  | zero =>
      rw [List.eq_nil_of_length_eq_zero (Nat.le_zero.mp enough)]
      cases b with
      | nil => rw [tokens]; rfl
      | cons d b =>
          obtain ⟨first, later, shape⟩ := tokens_cons d b
          rw [shape, tokens]
          rfl
  | succ fuel inductionHypothesis =>
      cases a with
      | nil =>
          cases b with
          | nil => rw [tokens]; rfl
          | cons d b =>
              obtain ⟨first, later, shape⟩ := tokens_cons d b
              rw [shape, tokens]
              rfl
      | cons c a =>
          cases b with
          | nil =>
              obtain ⟨first, later, shape⟩ := tokens_cons c a
              rw [shape, tokens]
              rfl
          | cons d b =>
              rw [partCmp]
              cases left : isDigit c <;> cases right : isDigit d
              · have shorter : (afterTextRun (c :: a)).length < (c :: a).length :=
                  afterTextRun_length_lt left
                rw [tokens_text left, tokens_text right, List.compareLex_cons_cons, textCmp_eq,
                  ← inductionHypothesis (by omega)]
                rfl
              · rw [tokens_text left, tokens_digit right, List.compareLex_cons_cons]
                rfl
              · rw [tokens_digit left, tokens_text right, List.compareLex_cons_cons]
                rfl
              · have shorter : ((c :: a).dropWhile isDigit).length < (c :: a).length :=
                  dropWhile_length_lt left
                rw [tokens_digit left, tokens_digit right, List.compareLex_cons_cons, numberCmp_eq,
                  ← inductionHypothesis (by omega)]
                rfl

theorem partCmp_length_eq (a b : Bytes) :
    partCmp a.length a b = List.compareLex VToken.cmp (tokens a) (tokens b) :=
  partCmp_eq a.length le_rfl

/-- What a version is compared by. -/
def versionKey (text : Bytes) : List VToken × Bool × List VToken :=
  let text := skipV text
  (tokens (mainPart text), (prerelease text).isNone, tokens ((prerelease text).getD []))

/-- Without a prerelease a version is above one that carries it. -/
def versionKeyCmp :
    List VToken × Bool × List VToken → List VToken × Bool × List VToken → Ordering :=
  compareLex (fun x y => List.compareLex VToken.cmp x.1 y.1)
    (compareLex (compareOn fun key => key.2.1) (fun x y => List.compareLex VToken.cmp x.2.2 y.2.2))

instance : Std.TransCmp versionKeyCmp := by
  have release : Std.TransCmp fun x y : List VToken × Bool × List VToken =>
      List.compareLex VToken.cmp x.1 y.1 := transCmp_on Prod.fst
  have last : Std.TransCmp fun x y : List VToken × Bool × List VToken =>
      List.compareLex VToken.cmp x.2.2 y.2.2 :=
    transCmp_on fun key : List VToken × Bool × List VToken => key.2.2
  unfold versionKeyCmp
  infer_instance

theorem storeVersionCmp_eq (a b : Bytes) :
    storeVersionCmp a b = versionKeyCmp (versionKey a) (versionKey b) := by
  unfold storeVersionCmp
  dsimp only [versionKeyCmp, compareLex, versionKey]
  rw [partCmp_length_eq]
  congr 1
  cases prerelease (skipV a) with
  | none =>
      cases prerelease (skipV b) with
      | none => rw [Option.getD_none, tokens]; rfl
      | some right => rfl
  | some left =>
      cases prerelease (skipV b) with
      | none => rfl
      | some right => exact partCmp_length_eq left right

instance : Std.TransCmp storeVersionCmp := by
  have same : storeVersionCmp = fun a b => versionKeyCmp (versionKey a) (versionKey b) :=
    funext fun a => funext fun b => storeVersionCmp_eq a b
  rw [same]
  exact transCmp_on versionKey

theorem cmpByVersion_eq (x y : Bytes) :
    cmpByVersion x y =
      compareLex
        (fun x y => storeVersionCmp (storeSplitDisplay x).version (storeSplitDisplay y).version)
        (compareLex (compareOn fun x => (storeSplitDisplay x).release) strcmp) x y := rfl

instance : Std.TransCmp cmpByVersion := by
  have versions : Std.TransCmp fun x y : Bytes =>
      storeVersionCmp (storeSplitDisplay x).version (storeSplitDisplay y).version :=
    transCmp_on fun name => (storeSplitDisplay name).version
  have same : cmpByVersion = _ := funext fun x => funext fun y => cmpByVersion_eq x y
  rw [same]
  infer_instance

/-- Only a name itself is neither older nor newer than it. -/
theorem eq_of_cmpByVersion {x y : Bytes} (equal : cmpByVersion x y = .eq) : x = y := by
  unfold cmpByVersion at equal
  rw [Ordering.then_eq_eq, Ordering.then_eq_eq] at equal
  exact Std.LawfulEqCmp.eq_of_compare equal.2.2

/-! ## Ranks -/

/-- Indices in the order of what they stand for. -/
def cmpAt (names : List Bytes) (i j : Nat) : Ordering :=
  cmpByVersion (names.getD i []) (names.getD j [])

instance (names : List Bytes) : Std.TransCmp (cmpAt names) :=
  @transCmp_on _ cmpByVersion _ _ fun i => names.getD i []

section Ranks

variable {env : DocEnv} {names : List Bytes}

theorem cmpAt_strict (distinct : names.Nodup) :
    ∀ i ∈ List.range names.length, ∀ j ∈ List.range names.length,
      cmpAt names i j = .eq → i = j := by
  intro i iMember j jMember equal
  have same := eq_of_cmpByVersion equal
  rw [List.mem_range] at iMember jMember
  rw [List.getD_eq_getElem _ _ iMember, List.getD_eq_getElem _ _ jMember] at same
  exact (distinct.getElem_inj_iff).mp same

theorem storeRankVersions_sorted (ranks : env.allocates .idx = true) :
    storeRankVersions env names = (List.range names.length).map fun i =>
      (env.routine.sort (cmpAt names) (List.range names.length)).idxOf i := by
  unfold storeRankVersions
  rw [if_pos ranks]
  rfl

/-- The rank of a name is the number of names below it. -/
theorem storeRankVersions_eq (ranks : env.allocates .idx = true) (distinct : names.Nodup) :
    storeRankVersions env names = names.map fun name =>
      names.countP fun other => cmpByVersion other name == .lt := by
  have strict := env.routine.sort_strict List.nodup_range (cmpAt_strict distinct)
  have perm := env.routine.perm (cmpAt names) (List.range names.length)
  have counted : ∀ name, (names.countP fun other => cmpByVersion other name == .lt) =
      (List.range names.length).countP fun j => cmpByVersion (names.getD j []) name == .lt := by
    intro name
    have inOrder : (List.range names.length).map (fun j => names.getD j []) = names := by
      apply List.ext_getElem
      · simp
      · intro j _ inNames
        rw [List.getElem_map, List.getElem_range, List.getD_eq_getElem _ _ inNames]
    conv_lhs => rw [← inOrder]
    rw [List.countP_map]
    rfl
  rw [storeRankVersions_sorted ranks]
  apply List.ext_getElem
  · simp
  · intro i inRange inNames
    rw [List.length_map, List.length_range] at inRange
    rw [List.getElem_map, List.getElem_map, List.getElem_range,
      idxOf_strict strict (perm.mem_iff.mpr (List.mem_range.mpr inRange)), perm.countP_eq, counted]
    unfold cmpAt
    rw [List.getD_eq_getElem _ _ inRange]

/-- Every rank from 0 on is given once. -/
theorem storeRankVersions_perm (ranks : env.allocates .idx = true) :
    (storeRankVersions env names).Perm (List.range names.length) := by
  have perm := env.routine.perm (cmpAt names) (List.range names.length)
  have distinct : (env.routine.sort (cmpAt names) (List.range names.length)).Nodup :=
    perm.nodup_iff.mpr List.nodup_range
  rw [storeRankVersions_sorted ranks]
  refine (perm.symm.map _).trans ?_
  have places : (env.routine.sort (cmpAt names) (List.range names.length)).map
      (fun i => (env.routine.sort (cmpAt names) (List.range names.length)).idxOf i) =
        List.range names.length := by
    apply List.ext_getElem
    · rw [List.length_map, perm.length_eq]
    · intro i inSorted _
      rw [List.getElem_map, List.getElem_range]
      exact distinct.idxOf_getElem i (by simpa using inSorted)
  rw [places]

end Ranks

end CixCache
