import Mathlib.Data.List.TakeWhile
import CixCache.JsonWriter
import CixCache.Name.Suffix
import CixCache.Server.Http

/-!
Contract: the signature policy as an operator lists it.

Owns: `storeSetSignaturePolicy`, which reads a list of suffixes and writes the column
`require_sig` of the suffix table; `entriesOf`, the entries of a list; and exactly when the
policy, the result and the entry reported are those the list asks for.

Does not own: what a required signature does to an upload.
-/

namespace CixCache

/-! ## Functions of the source -/

/-- `struct suffix` -/
structure SuffixRow where
  suffix : Suffix
  requireSig : Bool
deriving DecidableEq, Repr

/-- `g_suffixes` under a policy. -/
def suffixTable (policy : SignaturePolicy) : List SuffixRow :=
  gSuffixes.map fun row => ⟨row, policy row.ext⟩

/-- `suffix_record` -/
def rowOf (rows : List SuffixRow) (name : Bytes) : Option SuffixRow :=
  rows.find? fun row => endsWith name row.suffix.ext

/-- `store_needs_signature` -/
def needsSignatureIn (rows : List SuffixRow) (name : Bytes) : Bool :=
  match rowOf rows name with
  | some row => row.requireSig
  | none => false

/-- `store_is_installer` -/
def isInstallerIn (rows : List SuffixRow) (name : Bytes) : Bool :=
  match rowOf rows name with
  | some row => row.suffix.installer
  | none => false

/-- The caller's buffer for an entry that is not recognised, and the string in it. -/
structure BadBuffer where
  size : Nat
  text : Bytes
deriving DecidableEq, Repr

/-- `bad[0] = '\0'` -/
def BadBuffer.clear (bad : BadBuffer) : BadBuffer :=
  if 0 < bad.size then { bad with text := [] } else bad

/-- The first entry stays. -/
def BadBuffer.note (bad : BadBuffer) (entry : Bytes) : BadBuffer :=
  if bad.text = [] then
    if 0 < bad.size then { bad with text := snprintf bad.size entry } else bad
  else bad

/-- What `store_set_signature_policy` writes: the table, whether -1 is returned, and `bad`. -/
structure PolicySet where
  rows : List SuffixRow
  refused : Bool
  bad : Option BadBuffer
deriving DecidableEq, Repr

/-- With or without the leading dot. -/
def spells (entry ext : Bytes) : Bool := entry == ext || entry == ext.drop 1

/-- The loop over the table: the first row the entry spells, unless it is a signature's. -/
def requireEntry (entry : Bytes) : List SuffixRow → Option (List SuffixRow)
  | [] => none
  | row :: rest =>
      if spells entry row.suffix.ext then
        if extIsSignature row.suffix.ext then none else some ({ row with requireSig := true } :: rest)
      else (requireEntry entry rest).map fun later => row :: later

/-- One entry of the list; one that does not fit `entry[64]` is passed over. -/
def PolicySet.take (s : PolicySet) (entry : Bytes) : PolicySet :=
  if entry.length = 0 ∨ 64 ≤ entry.length then s
  else
    match requireEntry entry s.rows with
    | some rows => { s with rows := rows }
    | none => { s with refused := true, bad := s.bad.map fun bad => bad.note entry }

def isSeparator (c : Byte) : Bool := c == comma || isBlank c

/-- A text without the blanks it ends in. -/
def trimEnd (text : Bytes) : Bytes := (text.reverse.dropWhile isBlank).reverse

/-- The loop over the list; a turn reads a byte at least. -/
def policyLoop : Nat → PolicySet → Bytes → PolicySet
  | 0, s, _ => s
  | fuel + 1, s, p =>
      let start := p.dropWhile isSeparator
      if start = [] then s
      else
        policyLoop fuel (s.take (trimEnd (start.takeWhile fun c => c ≠ comma)))
          (start.dropWhile fun c => c ≠ comma)

def storeSetSignaturePolicy (rows : List SuffixRow) (list : Option Bytes)
    (bad : Option BadBuffer) : PolicySet :=
  let cleared : PolicySet :=
    ⟨rows.map fun row => { row with requireSig := false }, false, bad.map BadBuffer.clear⟩
  match list with
  | none => cleared
  | some text => policyLoop (text.length + 1) cleared text

/-! ## What a list asks for -/

/-- The comma-separated entries, without the blanks around them; empty ones are none. -/
def entriesOf (list : Bytes) : List Bytes :=
  ((list.splitOn comma).map trimBlanks).filter fun entry => decide (entry ≠ [])

/-- The entry asks for signatures on a suffix that is not itself a signature's. -/
def requires (entry ext : Bytes) : Bool := spells entry ext && !extIsSignature ext

def recognised (entry : Bytes) : Bool := gSuffixes.any fun row => requires entry row.ext

/-- The policy that a list states. -/
def listedPolicy (list : Bytes) : SignaturePolicy :=
  fun ext => (entriesOf list).any fun entry => requires entry ext

/-- The first entry that names no suffix. -/
def firstUnknown (list : Bytes) : Option Bytes :=
  (entriesOf list).find? fun entry => !recognised entry

section Loop

variable {policy : SignaturePolicy} {entry : Bytes}

/-! ## The table -/

theorem rowOf_suffixTable (policy : SignaturePolicy) (name : Bytes) :
    rowOf (suffixTable policy) name =
      (suffixRecord name).map fun row => ⟨row, policy row.ext⟩ := by
  unfold rowOf suffixTable suffixRecord
  rw [List.find?_map]
  rfl

theorem needsSignatureIn_suffixTable (policy : SignaturePolicy) (name : Bytes) :
    needsSignatureIn (suffixTable policy) name = storeNeedsSignature policy name := by
  unfold needsSignatureIn storeNeedsSignature
  rw [rowOf_suffixTable]
  cases suffixRecord name <;> rfl

theorem isInstallerIn_suffixTable (policy : SignaturePolicy) (name : Bytes) :
    isInstallerIn (suffixTable policy) name = storeIsInstaller name := by
  unfold isInstallerIn storeIsInstaller
  rw [rowOf_suffixTable]
  cases suffixRecord name <;> rfl

theorem suffixTable_congr {other : SignaturePolicy}
    (same : ∀ row ∈ gSuffixes, policy row.ext = other row.ext) :
    suffixTable policy = suffixTable other := by
  unfold suffixTable
  apply List.map_congr_left
  intro row known
  rw [same row known]

/-- No entry spells two suffixes of the table. -/
theorem spells_distinct :
    gSuffixes.Pairwise fun row other => ∀ entry, spells entry row.ext = true →
      spells entry other.ext = false := by
  have apart : gSuffixes.Pairwise fun row other =>
      row.ext ≠ other.ext ∧ row.ext ≠ other.ext.drop 1 ∧ row.ext.drop 1 ≠ other.ext ∧
        row.ext.drop 1 ≠ other.ext.drop 1 := by decide
  refine apart.imp ?_
  rintro row other ⟨whole, dotless, undotted, both⟩ entry spelled
  unfold spells at spelled ⊢
  rw [Bool.or_eq_true, beq_iff_eq, beq_iff_eq] at spelled
  rw [Bool.or_eq_false_iff, beq_eq_false_iff_ne, beq_eq_false_iff_ne]
  rcases spelled with rfl | rfl
  · exact ⟨whole, dotless⟩
  · exact ⟨undotted, both⟩

/-- The table after an entry, over any part of it. -/
theorem requireEntry_map {known : List Suffix}
    (distinct : known.Pairwise fun row other => ∀ entry, spells entry row.ext = true →
      spells entry other.ext = false) :
    requireEntry entry (known.map fun row => ⟨row, policy row.ext⟩) =
      if known.any fun row => requires entry row.ext then
        some (known.map fun row => ⟨row, policy row.ext || requires entry row.ext⟩)
      else none := by
  induction known with
  | nil => rfl
  | cons row rest inductionHypothesis =>
      have apart := List.pairwise_cons.mp distinct
      rw [List.map_cons, requireEntry, List.any_cons, List.map_cons]
      dsimp only
      by_cases spelled : spells entry row.ext = true
      · have others : ∀ other ∈ rest, requires entry other.ext = false := by
          intro other member
          rw [requires, apart.1 other member entry spelled, Bool.false_and]
        have none' : (rest.any fun row => requires entry row.ext) = false := by
          rw [List.any_eq_false]
          intro other member
          rw [others other member]
          exact Bool.false_ne_true
        have same : (rest.map fun row => (⟨row, policy row.ext || requires entry row.ext⟩ : SuffixRow)) =
            rest.map fun row => ⟨row, policy row.ext⟩ := by
          apply List.map_congr_left
          intro other member
          rw [others other member, Bool.or_false]
        rw [if_pos spelled, none', same, requires, spelled]
        cases extIsSignature row.ext <;> simp
      · have unspelled : requires entry row.ext = false := by
          rw [requires, Bool.eq_false_iff.mpr spelled, Bool.false_and]
        rw [if_neg spelled, inductionHypothesis apart.2, unspelled, Bool.false_or, Bool.or_false]
        split <;> rfl

theorem requireEntry_suffixTable (policy : SignaturePolicy) (entry : Bytes) :
    requireEntry entry (suffixTable policy) =
      if recognised entry then some (suffixTable fun ext => policy ext || requires entry ext)
      else none :=
  requireEntry_map spells_distinct

end Loop

/-! ## The entries -/

theorem trimBlanks_eq (text : Bytes) : trimBlanks text = trimEnd (text.dropWhile isBlank) := rfl

/-- A separator in front changes no entry. -/
theorem entriesOf_separator {c : Byte} (separator : isSeparator c = true) (text : Bytes) :
    entriesOf (c :: text) = entriesOf text := by
  unfold entriesOf List.splitOn
  rw [List.splitOnP_cons_eq_if_modifyHead]
  by_cases isComma : (c == comma) = true
  · rw [if_pos isComma, List.map_cons, List.filter_cons_of_neg (by decide)]
  · have blank : isBlank c = true := by
      unfold isSeparator at separator
      rwa [Bool.eq_false_iff.mpr isComma, Bool.false_or] at separator
    rw [if_neg isComma]
    obtain ⟨first, rest, cut⟩ := List.exists_cons_of_ne_nil
      (List.splitOnP_ne_nil (fun c => c == comma) text)
    have trimmed : trimBlanks (c :: first) = trimBlanks first := by
      rw [trimBlanks_eq, trimBlanks_eq, List.dropWhile_cons_of_pos blank]
    rw [cut, List.modifyHead_cons, List.map_cons, List.map_cons, trimmed]

theorem entriesOf_dropWhile (text : Bytes) :
    entriesOf (text.dropWhile isSeparator) = entriesOf text := by
  induction text with
  | nil => rfl
  | cons c rest inductionHypothesis =>
      by_cases separator : isSeparator c = true
      · rw [List.dropWhile_cons_of_pos separator, inductionHypothesis,
          entriesOf_separator separator]
      · rw [List.dropWhile_cons_of_neg separator]

theorem trimEnd_ne_nil {text : Bytes} {c : Byte} (inside : c ∈ text) (solid : isBlank c = false) :
    trimEnd text ≠ [] := by
  intro empty
  have all := List.dropWhile_eq_nil_iff.mp (List.reverse_eq_nil_iff.mp empty)
  exact absurd (all c (List.mem_reverse.mpr inside)) (by simp [solid])

/-- From a byte that is no separator on, the text is an entry and what is behind it. -/
theorem entriesOf_entry {c : Byte} (solid : isSeparator c = false) (rest : Bytes) :
    entriesOf (c :: rest) =
        trimEnd ((c :: rest).takeWhile fun c => c ≠ comma) ::
          entriesOf ((c :: rest).dropWhile fun c => c ≠ comma) ∧
      trimEnd ((c :: rest).takeWhile fun c => c ≠ comma) ≠ [] := by
  have parts := Bool.or_eq_false_iff.mp solid
  have notComma : c ≠ comma := by simpa using parts.1
  have item : ∀ d ∈ (c :: rest).takeWhile fun c => c ≠ comma, (d == comma) = false := by
    intro d member
    simpa using List.mem_takeWhile_imp member
  have head : (c :: rest).takeWhile (fun c => c ≠ comma) =
      c :: rest.takeWhile fun c => c ≠ comma :=
    List.takeWhile_cons_of_pos (by simp [notComma])
  have kept : trimBlanks ((c :: rest).takeWhile fun c => c ≠ comma) =
      trimEnd ((c :: rest).takeWhile fun c => c ≠ comma) := by
    rw [trimBlanks_eq, head, List.dropWhile_cons_of_neg (by simp [parts.2])]
  have nonempty : trimEnd ((c :: rest).takeWhile fun c => c ≠ comma) ≠ [] := by
    apply trimEnd_ne_nil _ parts.2
    rw [head]
    exact List.mem_cons_self
  refine ⟨?_, nonempty⟩
  have whole : c :: rest = ((c :: rest).takeWhile fun c => c ≠ comma) ++
      (c :: rest).dropWhile fun c => c ≠ comma := List.takeWhile_append_dropWhile.symm
  cases behind : (c :: rest).dropWhile fun c => c ≠ comma with
  | nil =>
      rw [behind, List.append_nil] at whole
      have single : (c :: rest).splitOn comma = [(c :: rest).takeWhile fun c => c ≠ comma] := by
        conv_lhs => rw [whole]
        exact List.splitOnP_eq_singleton item
      have nothing : entriesOf [] = [] := by decide
      rw [nothing, entriesOf, single, List.map_cons, kept,
        List.filter_cons_of_pos (by simpa using nonempty)]
      rfl
  | cons first more =>
      have stops := List.head?_dropWhile_not (fun c => decide (c ≠ comma)) (c :: rest)
      rw [behind, List.head?_cons] at stops
      have isComma : first = comma := by simpa using stops
      subst isComma
      rw [behind] at whole
      have cut : (c :: rest).splitOn comma =
          ((c :: rest).takeWhile fun c => c ≠ comma) :: more.splitOn comma := by
        conv_lhs => rw [whole]
        exact List.splitOnP_append_cons_of_forall_mem item comma (by decide) more
      have later : entriesOf (comma :: more) = entriesOf more :=
        entriesOf_separator (by decide) more
      rw [later, entriesOf, cut, List.map_cons, kept,
        List.filter_cons_of_pos (by simpa using nonempty)]
      rfl

/-- The loop takes the entries of the list one after the other. -/
theorem policyLoop_eq {fuel : Nat} {p : Bytes} (enough : p.length < fuel) (s : PolicySet) :
    policyLoop fuel s p = (entriesOf p).foldl PolicySet.take s := by
  induction fuel generalizing s p with
  | zero => contradiction
  | succ fuel inductionHypothesis =>
      rw [policyLoop, ← entriesOf_dropWhile p]
      have shorter : (p.dropWhile isSeparator).length ≤ p.length :=
        (List.dropWhile_suffix isSeparator).length_le
      cases start : p.dropWhile isSeparator with
      | nil => rw [if_pos rfl]; rfl
      | cons c rest =>
          have solid : isSeparator c = false := by
            simpa [start] using List.head?_dropWhile_not isSeparator p
          have notComma : c ≠ comma := by simpa using (Bool.or_eq_false_iff.mp solid).1
          have left : ((c :: rest).dropWhile fun c => c ≠ comma).length ≤ rest.length := by
            rw [List.dropWhile_cons_of_pos (by simp [notComma])]
            exact (List.dropWhile_suffix _).length_le
          rw [start, List.length_cons] at shorter
          rw [if_neg (List.cons_ne_nil c rest), (entriesOf_entry solid rest).1, List.foldl_cons]
          exact inductionHypothesis (Nat.lt_of_le_of_lt left (by omega)) _

theorem entry_ne_nil {list entry : Bytes} (member : entry ∈ entriesOf list) : entry ≠ [] := by
  simpa using (List.mem_filter.mp member).2

/-! ## A pass over the entries -/

theorem spells_length {entry : Bytes} {row : Suffix} (known : row ∈ gSuffixes)
    (spelled : spells entry row.ext = true) : entry.length < 64 := by
  have short : ∀ row ∈ gSuffixes, row.ext.length < 64 := by decide
  have bound := short row known
  unfold spells at spelled
  rw [Bool.or_eq_true, beq_iff_eq, beq_iff_eq] at spelled
  rcases spelled with rfl | rfl
  · exact bound
  · rw [List.length_drop]
    omega

/-- What is passed over is nothing the store recognises. -/
theorem recognised_length {entry : Bytes} (known : recognised entry = true) :
    entry.length < 64 := by
  obtain ⟨row, member, required⟩ := List.any_eq_true.mp known
  exact spells_length member (Bool.and_eq_true _ _ ▸ required).1

/-- The entry is reported: it names no suffix, and fits `entry[64]`. -/
def entryReported (entry : Bytes) : Bool := !recognised entry && decide (entry.length < 64)

/-- The buffer after some entries. -/
def notes (bad : Option BadBuffer) (entries : List Bytes) : Option BadBuffer :=
  (entries.filter entryReported).foldl (fun bad entry => bad.map fun bad => bad.note entry) bad

theorem take_suffixTable {policy : SignaturePolicy} {entry : Bytes} (nonempty : entry ≠ [])
    (refused : Bool) (bad : Option BadBuffer) :
    PolicySet.take ⟨suffixTable policy, refused, bad⟩ entry =
      ⟨suffixTable fun ext => policy ext || requires entry ext, refused || entryReported entry,
        notes bad [entry]⟩ := by
  have positive := List.length_pos_of_ne_nil nonempty
  unfold PolicySet.take notes
  dsimp only
  rw [requireEntry_suffixTable]
  by_cases known : recognised entry = true
  · have short := recognised_length known
    have unreported : entryReported entry = false := by rw [entryReported, known]; rfl
    rw [if_neg (by omega), if_pos known, List.filter_cons_of_neg (by simp [unreported]),
      unreported, Bool.or_false]
    rfl
  · have unknown : recognised entry = false := Bool.eq_false_iff.mpr known
    have same : (suffixTable fun ext => policy ext || requires entry ext) = suffixTable policy := by
      apply suffixTable_congr
      intro row member
      have other := List.any_eq_false.mp unknown row member
      rw [Bool.eq_false_iff.mpr other, Bool.or_false]
    rw [same, if_neg known]
    by_cases long : 64 ≤ entry.length
    · have unreported : entryReported entry = false := by
        rw [entryReported, decide_eq_false (by omega), Bool.and_false]
      rw [if_pos (Or.inr long), List.filter_cons_of_neg (by simp [unreported]), unreported,
        Bool.or_false]
      rfl
    · have isReported : entryReported entry = true := by
        rw [entryReported, unknown, decide_eq_true (by omega)]
        rfl
      rw [if_neg (by omega), List.filter_cons_of_pos isReported, isReported, Bool.or_true]
      rfl

theorem foldl_take {entries : List Bytes} (nonempty : ∀ entry ∈ entries, entry ≠ [])
    (policy : SignaturePolicy) (refused : Bool) (bad : Option BadBuffer) :
    entries.foldl PolicySet.take ⟨suffixTable policy, refused, bad⟩ =
      ⟨suffixTable fun ext => policy ext || entries.any fun entry => requires entry ext,
        refused || entries.any entryReported, notes bad entries⟩ := by
  induction entries generalizing policy refused bad with
  | nil => simp [notes]
  | cons entry rest inductionHypothesis =>
      have first := nonempty entry List.mem_cons_self
      have later := fun other member => nonempty other (List.mem_cons_of_mem _ member)
      have noted : notes bad (entry :: rest) = notes (notes bad [entry]) rest := by
        unfold notes
        rw [← List.foldl_append, ← List.filter_append]
        rfl
      rw [List.foldl_cons, take_suffixTable first, inductionHypothesis later, noted]
      simp only [List.any_cons, Bool.or_assoc]

/-- What the function writes, whatever the policy was before. -/
theorem storeSetSignaturePolicy_eq (previous : SignaturePolicy) (list : Bytes)
    (bad : Option BadBuffer) :
    storeSetSignaturePolicy (suffixTable previous) (some list) bad =
      ⟨suffixTable (listedPolicy list), (entriesOf list).any entryReported,
        notes (bad.map BadBuffer.clear) (entriesOf list)⟩ := by
  have cleared : ((suffixTable previous).map fun row => { row with requireSig := false }) =
      suffixTable fun _ => false := by
    unfold suffixTable
    rw [List.map_map]
    rfl
  unfold storeSetSignaturePolicy
  dsimp only
  rw [cleared, policyLoop_eq (Nat.lt_succ_self _),
    foldl_take fun entry member => entry_ne_nil member]
  simp only [Bool.false_or]
  rfl

/-! ## The entry reported -/

theorem BadBuffer.foldl_note_kept {bad : BadBuffer} (held : bad.text ≠ []) (entries : List Bytes) :
    entries.foldl (fun bad entry => bad.map fun bad => bad.note entry) (some bad) = some bad := by
  induction entries with
  | nil => rfl
  | cons entry rest inductionHypothesis =>
      have kept : bad.note entry = bad := by rw [BadBuffer.note, if_neg held]
      rw [List.foldl_cons, Option.map_some, kept]
      exact inductionHypothesis

/-- The first entry reported is held, if it fits. -/
theorem notes_first {bad : BadBuffer} {entries others : List Bytes} {entry : Bytes}
    (empty : bad.text = []) (fits : entry.length < bad.size) (nonempty : entry ≠ [])
    (first : entries.filter entryReported = entry :: others) :
    notes (some bad) entries = some { bad with text := entry } := by
  have noted : bad.note entry = { bad with text := entry } := by
    rw [BadBuffer.note, if_pos empty, if_pos (by omega), snprintf_of_lt fits]
  rw [notes, first, List.foldl_cons, Option.map_some, noted]
  exact BadBuffer.foldl_note_kept nonempty others

/-- Nothing longer than what is reported gets into the buffer. -/
theorem notes_short {bad : BadBuffer} (short : bad.text.length < 64) (entries : List Bytes) :
    ∃ after, notes (some bad) entries = some after ∧ after.text.length < 64 := by
  have reports : ∀ entry ∈ entries.filter entryReported, entry.length < 64 := by
    intro entry member
    have isReported := (List.mem_filter.mp member).2
    exact of_decide_eq_true (Bool.and_eq_true _ _ ▸ isReported).2
  unfold notes
  generalize entries.filter entryReported = left at reports
  induction left generalizing bad with
  | nil => exact ⟨bad, rfl, short⟩
  | cons entry rest inductionHypothesis =>
      rw [List.foldl_cons, Option.map_some]
      refine inductionHypothesis ?_ fun other member => reports other (List.mem_cons_of_mem _ member)
      have entryShort := reports entry List.mem_cons_self
      unfold BadBuffer.note
      split
      next =>
        split
        next =>
          dsimp only [snprintf]
          rw [List.length_take]
          omega
        next => exact short
      next => exact short

theorem filter_reported {list entry : Bytes} (first : firstUnknown list = some entry)
    (short : entry.length < 64) :
    ∃ others, (entriesOf list).filter entryReported = entry :: others := by
  obtain ⟨unknown, before, after, split, known⟩ := List.find?_eq_some_iff_append.mp first
  have unreported : before.filter entryReported = [] := by
    rw [List.filter_eq_nil_iff]
    intro other member
    have seen := known other member
    rw [Bool.not_not] at seen
    simp [entryReported, seen]
  have isReported : entryReported entry = true := by
    rw [entryReported, unknown, decide_eq_true short]
    rfl
  rw [split, List.filter_append, unreported, List.filter_cons_of_pos isReported]
  exact ⟨_, rfl⟩

/-! ## When the policy is what is listed -/

/-- After the function has read a list the policy, the result and the entry reported are what
the list asks for: a suffix requires a signature when it is not a signature's and an entry
spells it; -1 is returned when an entry names no such suffix; a buffer that holds the first
such entry does; the policy before does not matter; and no name's tier changes. -/
structure ListsPolicy (list : Bytes) (bad : Option BadBuffer) : Prop where
  required : ∀ (previous : SignaturePolicy) (ext : Bytes),
    (∃ row ∈ (storeSetSignaturePolicy (suffixTable previous) (some list) bad).rows,
        row.suffix.ext = ext ∧ row.requireSig = true) ↔
      (∃ row ∈ gSuffixes, row.ext = ext) ∧ extIsSignature ext = false ∧
        ∃ entry ∈ entriesOf list, entry = ext ∨ entry = ext.drop 1
  result : ∀ previous : SignaturePolicy,
    (storeSetSignaturePolicy (suffixTable previous) (some list) bad).refused = true ↔
      ∃ entry ∈ entriesOf list, recognised entry = false
  first : ∀ (previous : SignaturePolicy) (entry : Bytes) (buf : BadBuffer),
    firstUnknown list = some entry → bad = some buf → entry.length < buf.size →
      ∃ after, (storeSetSignaturePolicy (suffixTable previous) (some list) bad).bad = some after ∧
        after.text = entry
  alike : ∀ previous other : SignaturePolicy,
    storeSetSignaturePolicy (suffixTable previous) (some list) bad =
      storeSetSignaturePolicy (suffixTable other) (some list) bad
  tier : ∀ (previous : SignaturePolicy) (name : Bytes),
    isInstallerIn (storeSetSignaturePolicy (suffixTable previous) (some list) bad).rows name =
      isInstallerIn (suffixTable previous) name

/-- The first entry that names no suffix is shorter than 64 bytes; or a later one is, and the
first is too long for the buffer. -/
def ReportsFirst (list : Bytes) (bad : Option BadBuffer) : Prop :=
  ∀ entry, firstUnknown list = some entry →
    entry.length < 64 ∨
      (∃ other ∈ entriesOf list, recognised other = false ∧ other.length < 64) ∧
        ∀ buf, bad = some buf → buf.size ≤ entry.length

theorem listedPolicy_required (list ext : Bytes) :
    (∃ row ∈ suffixTable (listedPolicy list), row.suffix.ext = ext ∧ row.requireSig = true) ↔
      (∃ row ∈ gSuffixes, row.ext = ext) ∧ extIsSignature ext = false ∧
        ∃ entry ∈ entriesOf list, entry = ext ∨ entry = ext.drop 1 := by
  have asked : listedPolicy list ext = true ↔ extIsSignature ext = false ∧
      ∃ entry ∈ entriesOf list, entry = ext ∨ entry = ext.drop 1 := by
    unfold listedPolicy requires spells
    simp only [List.any_eq_true, Bool.and_eq_true, Bool.or_eq_true, beq_iff_eq,
      Bool.not_eq_true']
    constructor
    · rintro ⟨entry, member, spelled, plain⟩
      exact ⟨plain, entry, member, spelled⟩
    · rintro ⟨plain, entry, member, spelled⟩
      exact ⟨entry, member, spelled, plain⟩
  rw [← asked]
  unfold suffixTable
  simp only [List.mem_map]
  constructor
  · rintro ⟨_, ⟨row, known, rfl⟩, rfl, required⟩
    exact ⟨⟨row, known, rfl⟩, required⟩
  · rintro ⟨⟨row, known, rfl⟩, required⟩
    exact ⟨_, ⟨row, known, rfl⟩, rfl, required⟩

theorem firstUnknown_isSome {list entry : Bytes} (member : entry ∈ entriesOf list)
    (unknown : recognised entry = false) : ∃ first, firstUnknown list = some first := by
  unfold firstUnknown
  rw [← Option.isSome_iff_exists, List.find?_isSome]
  exact ⟨entry, member, by rw [unknown]; rfl⟩

theorem firstUnknown_mem {list entry : Bytes} (first : firstUnknown list = some entry) :
    entry ∈ entriesOf list ∧ recognised entry = false := by
  have unknown := List.find?_some first
  exact ⟨List.mem_of_find?_eq_some first, by simpa using unknown⟩

/-- For every list and buffer, what is set is what is listed if and only if the first entry
that names no suffix is shorter than 64 bytes, or does not fit the buffer either way and a
later one is reported in its place. -/
theorem listsPolicy_iff (list : Bytes) (bad : Option BadBuffer) :
    ListsPolicy list bad ↔ ReportsFirst list bad := by
  have result : (entriesOf list).any entryReported = true ↔
      ∃ other ∈ entriesOf list, recognised other = false ∧ other.length < 64 := by
    simp [entryReported]
  constructor
  · intro lists entry first
    by_cases short : entry.length < 64
    · exact Or.inl short
    · have unknown := firstUnknown_mem first
      have refused := (lists.result initialPolicy).mpr ⟨entry, unknown⟩
      rw [storeSetSignaturePolicy_eq] at refused
      refine Or.inr ⟨result.mp refused, fun buf given => ?_⟩
      by_contra fits
      obtain ⟨after, held, same⟩ := lists.first initialPolicy entry buf first given (by omega)
      rw [storeSetSignaturePolicy_eq, given, Option.map_some] at held
      have cleared : buf.clear.text = [] := by rw [BadBuffer.clear, if_pos (by omega)]
      obtain ⟨other, noted, small⟩ := @notes_short buf.clear (by rw [cleared]; decide) (entriesOf list)
      obtain rfl := Option.some.inj (noted.symm.trans held)
      rw [same] at small
      exact short small
  · intro reports
    refine ⟨?_, ?_, ?_, ?_, ?_⟩
    · intro previous ext
      rw [storeSetSignaturePolicy_eq]
      exact listedPolicy_required list ext
    · intro previous
      rw [storeSetSignaturePolicy_eq]
      refine result.trans ⟨fun ⟨other, member, unknown, _⟩ => ⟨other, member, unknown⟩, ?_⟩
      rintro ⟨entry, member, unknown⟩
      obtain ⟨first, found⟩ := firstUnknown_isSome member unknown
      rcases reports first found with short | ⟨later, _⟩
      · exact ⟨first, (firstUnknown_mem found).1, (firstUnknown_mem found).2, short⟩
      · exact later
    · intro previous entry buf first given fits
      have short : entry.length < 64 := by
        rcases reports entry first with short | ⟨_, large⟩
        · exact short
        · have bound := large buf given
          omega
      obtain ⟨others, filtered⟩ := filter_reported first short
      have cleared : buf.clear = { buf with text := [] } := by
        rw [BadBuffer.clear, if_pos (by omega)]
      have nonempty := entry_ne_nil (firstUnknown_mem first).1
      rw [storeSetSignaturePolicy_eq, given, Option.map_some, cleared]
      exact ⟨_, @notes_first { buf with text := [] } _ _ _ rfl fits nonempty filtered, rfl⟩
    · intro previous other
      rw [storeSetSignaturePolicy_eq, storeSetSignaturePolicy_eq]
    · intro previous name
      rw [storeSetSignaturePolicy_eq, isInstallerIn_suffixTable, isInstallerIn_suffixTable]

/-- 64 bytes that name no suffix are passed over in silence. -/
theorem long_entry_unreported :
    ¬ ListsPolicy (List.replicate 64 120) (some ⟨64, []⟩) ∧
      storeSetSignaturePolicy (suffixTable initialPolicy) (some (List.replicate 64 120))
          (some ⟨64, []⟩) =
        ⟨suffixTable fun _ => false, false, some ⟨64, []⟩⟩ := by
  have silent : storeSetSignaturePolicy (suffixTable initialPolicy) (some (List.replicate 64 120))
      (some ⟨64, []⟩) = ⟨suffixTable fun _ => false, false, some ⟨64, []⟩⟩ := by decide +kernel
  refine ⟨fun lists => ?_, silent⟩
  have refused := (lists.result initialPolicy).mpr ⟨List.replicate 64 120, by decide +kernel⟩
  rw [silent] at refused
  contradiction

example :
    storeSetSignaturePolicy (suffixTable initialPolicy) (some (ascii " cixpkg,, .cixpg , .iso.minisig"))
        (some ⟨64, []⟩) =
      ⟨suffixTable fun ext => ext == ascii ".cixpkg", true, some ⟨64, ascii ".cixpg"⟩⟩ := by
  decide +kernel

end CixCache
