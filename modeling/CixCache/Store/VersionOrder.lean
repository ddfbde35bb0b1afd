import Mathlib.Data.List.SplitBy
import Mathlib.Data.List.TakeWhile
import CixCache.Name.Decimal
import CixCache.Store.Version

/-!
Contract: the documented order of versions.

Owns: `documentedCmp`, the order of token lists a version is documented to have:
maximal runs of digits compared as numbers, single separators and maximal runs of
other bytes; and that `storeVersionCmp` computes it.

Does not own: where versions come from.
-/

namespace CixCache

open CixCache.Lib

/-! ## The documented order -/

/-- Two bytes that stand in one run: two digits, or two that are neither digits nor
separators. -/
def sameRun (c d : Byte) : Bool := isDigit c && isDigit d || isText c && isText d

inductive VersionToken where
  | number (value : Nat)
  | text (run : Bytes)
deriving DecidableEq, Repr

def versionToken (run : Bytes) : VersionToken :=
  if run.all isDigit = true then .number (runValue run) else .text run

/-- The maximal runs of a text. -/
def versionTokens (text : Bytes) : List VersionToken := (text.splitBy sameRun).map versionToken

/-- A number outranks any other token; numbers compare by value, other tokens byte by
byte and then by length. -/
def VersionToken.cmp : VersionToken → VersionToken → Ordering
  | .number left, .number right => compare left right
  | .number _, .text _ => .gt
  | .text _, .number _ => .lt
  | .text left, .text right => compare left right

/-- A version without the `v` before its first digit. -/
def withoutV : Bytes → Bytes
  | [] => []
  | [c] => [c]
  | c :: d :: rest => if c = 118 ∧ isDigit d = true then d :: rest else c :: d :: rest

/-- What stands behind the first hyphen, if there is one. -/
def behindDash (text : Bytes) : Option Bytes :=
  match text.dropWhile fun c => c ≠ dash with
  | [] => none
  | _ :: rest => some rest

/-- The token lists in turn; a list that ends first is older. -/
def tokenListCmp (left right : Bytes) : Ordering :=
  List.compareLex VersionToken.cmp (versionTokens left) (versionTokens right)

/-- A version that carries no prerelease is the newer one. -/
def prereleaseCmp : Option Bytes → Option Bytes → Ordering
  | none, none => .eq
  | none, some _ => .gt
  | some _, none => .lt
  | some left, some right => tokenListCmp left right

def documentedCmp (a b : Bytes) : Ordering :=
  (tokenListCmp ((withoutV a).takeWhile fun c => c ≠ dash)
      ((withoutV b).takeWhile fun c => c ≠ dash)).then
    (prereleaseCmp (behindDash (withoutV a)) (behindDash (withoutV b)))

/-! ## Tokens are the maximal runs -/

theorem isChain_of_all {run : Bytes} {kind : Byte → Bool} (inside : ∀ c ∈ run, kind c = true)
    (joined : ∀ c d, kind c = true → kind d = true → sameRun c d = true) :
    run.IsChain fun c d => sameRun c d = true := by
  apply List.Pairwise.isChain
  apply List.pairwise_iff_forall_sublist.mpr
  intro c d pair
  have members := pair.subset
  exact joined c d (inside c (members List.mem_cons_self))
    (inside d (members (List.mem_cons_of_mem _ List.mem_cons_self)))

/-- A run whose neighbour is of another kind stands alone. -/
theorem splitBy_run {run after : Bytes} (nonempty : run ≠ [])
    (joined : run.IsChain fun c d => sameRun c d = true)
    (cut : ∀ c ∈ run, ∀ d ∈ after.head?, sameRun c d = false) :
    (run ++ after).splitBy sameRun = run :: after.splitBy sameRun := by
  rw [List.splitBy_append, List.splitBy_of_isChain nonempty joined, List.singleton_append]
  intro c last
  exact cut c (List.mem_of_getLast? last)

/-- What a token is made of. -/
def rawToken (run : Bytes) : VToken :=
  if run.all isDigit = true then .number (stripZeros run) else .text run

/-- A run cut by `takeWhile` is a run of its own. -/
theorem splitBy_takeWhile {kind : Byte → Bool} {c : Byte} {rest : Bytes} (starts : kind c = true)
    (joined : ∀ c d, kind c = true → kind d = true → sameRun c d = true)
    (apart : ∀ c d, kind c = true → kind d = false → sameRun c d = false) :
    (c :: rest).splitBy sameRun =
      (c :: rest).takeWhile kind :: ((c :: rest).dropWhile kind).splitBy sameRun := by
  have inside : ∀ d ∈ (c :: rest).takeWhile kind, kind d = true := fun d member =>
    List.mem_takeWhile_imp member
  have nonempty : (c :: rest).takeWhile kind ≠ [] := by simp [starts]
  conv_lhs => rw [← List.takeWhile_append_dropWhile (p := kind) (l := c :: rest)]
  apply splitBy_run nonempty (isChain_of_all inside joined)
  intro d member e next
  apply apart d e (inside d member)
  have stops := List.head?_dropWhile_not kind (c :: rest)
  rw [Option.mem_def.mp next] at stops
  simpa using stops

theorem tokens_eq (text : Bytes) : tokens text = (text.splitBy sameRun).map rawToken := by
  induction text using tokens.induct with
  | case1 => rw [tokens]; rfl
  | case2 c rest digit inductionHypothesis =>
      have joined : ∀ c d, isDigit c = true → isDigit d = true → sameRun c d = true := by
        intro c d left right
        simp [sameRun, left, right]
      have apart : ∀ c d, isDigit c = true → isDigit d = false → sameRun c d = false := by
        intro c d left right
        simp [sameRun, isText, left, right]
      have run : rawToken ((c :: rest).takeWhile isDigit) =
          .number (stripZeros ((c :: rest).takeWhile isDigit)) := by
        unfold rawToken
        rw [if_pos (List.all_eq_true.mpr fun d member => List.mem_takeWhile_imp member)]
      rw [tokens_digit digit, splitBy_takeWhile digit joined apart, List.map_cons, run,
        inductionHypothesis]
  | case3 c rest notDigit inductionHypothesis =>
      have text : isDigit c = false := Bool.eq_false_iff.mpr notDigit
      have isTextRun : ∀ run : Bytes, c ∈ run → rawToken run = .text run := by
        intro run member
        unfold rawToken
        rw [if_neg fun digits => notDigit (List.all_eq_true.mp digits c member)]
      rw [tokens_text text, inductionHypothesis]
      by_cases separator : isVsep c = true
      · have alone : ∀ d, sameRun c d = false := by
          intro d
          simp [sameRun, isText, text, separator]
        have split : (c :: rest).splitBy sameRun = [c] :: rest.splitBy sameRun :=
          splitBy_run (by simp) (List.isChain_singleton c) fun e member d _ => by
            rw [List.mem_singleton.mp member]
            exact alone d
        rw [split, List.map_cons, isTextRun [c] List.mem_cons_self, textRun, afterTextRun,
          if_pos separator, if_pos separator]
      · have starts : isText c = true := by simp [isText, text, separator]
        have joined : ∀ c d, isText c = true → isText d = true → sameRun c d = true := by
          intro c d left right
          simp [sameRun, left, right]
        have apart : ∀ c d, isText c = true → isText d = false → sameRun c d = false := by
          intro c d left right
          have noDigit : isDigit c = false := by
            unfold isText at left
            simp only [Bool.and_eq_true, Bool.not_eq_true'] at left
            exact left.1
          simp [sameRun, noDigit, right]
        have first : c ∈ (c :: rest).takeWhile isText := by simp [starts]
        rw [splitBy_takeWhile starts joined apart, List.map_cons, isTextRun _ first, textRun,
          afterTextRun, if_neg separator, if_neg separator]

/-! ## The comparison computes the order -/

/-- Tokens of digits by length and bytes are tokens of numbers by value. -/
theorem cmp_rawToken {left right : Bytes} (leftNonempty : left ≠ []) (rightNonempty : right ≠ []) :
    VToken.cmp (rawToken left) (rawToken right) =
      VersionToken.cmp (versionToken left) (versionToken right) := by
  unfold rawToken versionToken
  by_cases leftDigits : left.all isDigit = true
  · by_cases rightDigits : right.all isDigit = true
    · rw [if_pos leftDigits, if_pos rightDigits, if_pos leftDigits, if_pos rightDigits]
      exact (compare_runValue leftDigits rightDigits leftNonempty rightNonempty).symm
    · rw [if_pos leftDigits, if_neg rightDigits, if_pos leftDigits, if_neg rightDigits]
      rfl
  · by_cases rightDigits : right.all isDigit = true
    · rw [if_neg leftDigits, if_pos rightDigits, if_neg leftDigits, if_pos rightDigits]
      rfl
    · rw [if_neg leftDigits, if_neg rightDigits, if_neg leftDigits, if_neg rightDigits]
      rfl

theorem compareLex_runs {left right : List Bytes} (leftRuns : [] ∉ left) (rightRuns : [] ∉ right) :
    List.compareLex VToken.cmp (left.map rawToken) (right.map rawToken) =
      List.compareLex VersionToken.cmp (left.map versionToken) (right.map versionToken) := by
  induction left generalizing right with
  | nil => cases right <;> rfl
  | cons run rest inductionHypothesis =>
      cases right with
      | nil => rfl
      | cons other later =>
          rw [List.mem_cons, not_or] at leftRuns rightRuns
          rw [List.map_cons, List.map_cons, List.map_cons, List.map_cons, List.compareLex_cons_cons,
            List.compareLex_cons_cons, cmp_rawToken (Ne.symm leftRuns.1) (Ne.symm rightRuns.1),
            inductionHypothesis leftRuns.2 rightRuns.2]

/-- One side of the prerelease split compares by its tokens. -/
theorem partCmp_documented (left right : Bytes) :
    partCmp left.length left right = tokenListCmp left right := by
  rw [partCmp_length_eq, tokens_eq, tokens_eq,
    compareLex_runs (List.nil_notMem_splitBy _ _) (List.nil_notMem_splitBy _ _)]
  rfl

theorem skipV_eq (text : Bytes) : skipV text = withoutV text := by
  unfold skipV
  match text with
  | [] => rfl
  | [c] => simp [withoutV]
  | c :: d :: rest => simp [withoutV]

theorem skipV_length (text : Bytes) : (skipV text).length ≤ text.length := by
  unfold skipV
  split
  next =>
    rw [List.length_drop]
    omega
  next => exact Nat.le_refl _

theorem mainPart_eq {text : Bytes} (fits : text.length < storeNameMax) :
    mainPart text = text.takeWhile fun c => c ≠ dash := by
  have shorter := (List.takeWhile_prefix (fun c : Byte => decide (c ≠ dash)) (l := text)).length_le
  exact snprintf_of_lt (Nat.lt_of_le_of_lt shorter fits)

theorem prerelease_eq (text : Bytes) : prerelease text = behindDash text := by
  unfold prerelease behindDash
  induction text with
  | nil => rfl
  | cons c rest inductionHypothesis =>
      by_cases hyphen : c = dash
      · simp [hyphen]
      · have elsewhere : dash ∈ c :: rest ↔ dash ∈ rest := by simp [Ne.symm hyphen]
        simp only [elsewhere, List.dropWhile_cons, decide_eq_true (Ne.intro hyphen), ↓reduceIte]
        exact inductionHypothesis

/-- The comparison of versions is the documented order, and it is reflexive,
antisymmetric and transitive on all strings. -/
theorem storeVersionCmp_documented :
    (∀ a b : Bytes, a.length < storeNameMax → b.length < storeNameMax →
      storeVersionCmp a b = documentedCmp a b) ∧
      (∀ a, storeVersionCmp a a = .eq) ∧
      (∀ a b, storeVersionCmp b a = (storeVersionCmp a b).swap) ∧
      ∀ a b c, (storeVersionCmp a b).isLE = true → (storeVersionCmp b c).isLE = true →
        (storeVersionCmp a c).isLE = true := by
  refine ⟨?_, fun _ => Std.ReflCmp.compare_self, fun _ _ => Std.OrientedCmp.eq_swap,
    fun _ _ _ => Std.TransCmp.isLE_trans⟩
  intro a b aFits bFits
  have aShort := Nat.lt_of_le_of_lt (skipV_length a) aFits
  have bShort := Nat.lt_of_le_of_lt (skipV_length b) bFits
  unfold storeVersionCmp documentedCmp
  dsimp only
  rw [mainPart_eq aShort, mainPart_eq bShort, partCmp_documented, prerelease_eq, prerelease_eq,
    skipV_eq, skipV_eq]
  congr 1
  cases behindDash (withoutV a) with
  | none => cases behindDash (withoutV b) <;> rfl
  | some left =>
      cases behindDash (withoutV b) with
      | none => rfl
      | some right => exact partCmp_documented left right

/-- A tenth patch is newer than an eighth. -/
theorem tenth_patch_newer : storeVersionCmp (ascii "2.1.10") (ascii "v2.1.8") = .gt :=
  (storeVersionCmp_documented.1 _ _ (by decide) (by decide)).trans (by decide +kernel)

end CixCache
