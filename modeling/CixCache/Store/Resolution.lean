import CixCache.Store.Resolve

/-!
Contract: what resolution promises about machines and names.

Owns: `Answers`, the entries a canonical name may be answered with;
`ResolutionLaw`, the answer a map of entries calls for; and the exact stores
and names for which `storeResolveAs` gives it. The one way to miss it is a probe
cut at STORE_NAME_MAX that happens to name another entry.

Does not own: the loop (`Store.Resolve`).
-/

namespace CixCache

open CixCache.Lib

/-- An entry that may answer for a canonical name: its own, or the one of a
known architecture. -/
def Answers (files : Files) (canonical key digest : Bytes) : Prop :=
  (key = canonical ∨ ∃ arch ∈ gArches, key = archName canonical arch) ∧
    published files key = some digest

/-- What resolution owes to a request, by the entries that may answer it. -/
structure ResolutionLaw (st : Store) (name canonical : Bytes) : Prop where
  qualified : (storeArchOf canonical).isSome →
    match published st.files canonical with
    | some digest => ∃ served, storeResolveAs st name = .ok ⟨digest, served⟩
    | none => storeResolveAs st name = .error .notFound
  absent : storeArchOf canonical = none →
    (storeResolveAs st name = .error .notFound ↔
      ∀ key digest, ¬ Answers st.files canonical key digest)
  ambiguous : storeArchOf canonical = none →
    (storeResolveAs st name = .error .ambiguous ↔
      ∃ key digest other different, Answers st.files canonical key digest ∧
        Answers st.files canonical other different ∧ digest ≠ different)
  agreed : storeArchOf canonical = none →
    (∃ key digest, Answers st.files canonical key digest) →
    (∀ key digest other different, Answers st.files canonical key digest →
      Answers st.files canonical other different → digest = different) →
    ∃ key digest, Answers st.files canonical key digest ∧
      storeResolveAs st name = .ok ⟨digest, key⟩

/-- A probe too long for its buffer reads an entry only when the canonical
name itself is published with the same digest. -/
def CutProbesHarmless (files : Files) (canonical : Bytes) : Prop :=
  storeArchOf canonical = none → ∀ arch ∈ gArches,
    storeNameMax ≤ (archName canonical arch).length →
      ∀ digest, published files (archProbe canonical arch) = some digest →
        published files canonical = some digest

/-! ## Answers and candidates -/

section Candidates

variable {files : Files} {canonical : Bytes}

theorem archProbe_of_lt {arch : Bytes}
    (fits : (archName canonical arch).length < storeNameMax) :
    archProbe canonical arch = archName canonical arch :=
  snprintf_of_lt fits

/-- Every answering entry is a candidate: a published name is short. -/
theorem Answers.candidate (holds : EntryMap files) {key digest : Bytes}
    (answers : Answers files canonical key digest) :
    (key, digest) ∈ candidates files canonical := by
  obtain ⟨named, found⟩ := answers
  rw [mem_candidates, mem_probeNames]
  refine ⟨?_, found⟩
  rcases named with own | probe
  · exact Or.inl own
  · obtain ⟨arch, known, rfl⟩ := probe
    have fits := storeNameIsValid.length_lt (holds.named _ _ found)
    exact Or.inr ⟨arch, known, (archProbe_of_lt fits).symm⟩

/-- A candidate is an answering entry, or a harmless cut probe. -/
theorem candidate_cases (unqualified : storeArchOf canonical = none)
    (harmless : CutProbesHarmless files canonical) {key digest : Bytes}
    (candidate : (key, digest) ∈ candidates files canonical) :
    Answers files canonical key digest ∨ published files canonical = some digest := by
  obtain ⟨named, found⟩ := mem_candidates.mp candidate
  rcases mem_probeNames.mp named with own | probe
  · exact Or.inl ⟨Or.inl own, found⟩
  · obtain ⟨arch, known, rfl⟩ := probe
    by_cases fits : (archName canonical arch).length < storeNameMax
    · exact Or.inl ⟨Or.inr ⟨arch, known, archProbe_of_lt fits⟩, found⟩
    · exact Or.inr (harmless unqualified arch known (Nat.le_of_not_lt fits) digest found)

/-- The digest of a candidate is the digest of an answering entry. -/
theorem candidate_answers (unqualified : storeArchOf canonical = none)
    (harmless : CutProbesHarmless files canonical) {key digest : Bytes}
    (candidate : (key, digest) ∈ candidates files canonical) :
    ∃ answer, Answers files canonical answer digest := by
  rcases candidate_cases unqualified harmless candidate with answers | own
  · exact ⟨key, answers⟩
  · exact ⟨canonical, Or.inl rfl, own⟩

/-- The first candidate is an answering entry: the canonical name is asked first. -/
theorem first_candidate_answers (unqualified : storeArchOf canonical = none)
    (harmless : CutProbesHarmless files canonical) {key digest : Bytes}
    (first : (candidates files canonical).head? = some (key, digest)) :
    Answers files canonical key digest := by
  rcases candidate_cases unqualified harmless (List.mem_of_mem_head? first) with answers | own
  · exact answers
  · rw [candidates, probeNames, publishedAmong, List.filterMap_cons, own] at first
    have same := Option.some.inj first
    rw [Prod.mk.injEq] at same
    exact ⟨Or.inl same.1.symm, by rw [← same.1, ← same.2]; exact own⟩

end Candidates

/-! ## The law -/

section Law

variable {st : Store} {name canonical : Bytes}

theorem resolutionLaw_of_harmless (holds : EntryMap st.files)
    (form : canonicalForm name = some canonical)
    (harmless : CutProbesHarmless st.files canonical) : ResolutionLaw st name canonical where
  qualified := by
    intro carries
    rw [storeResolveAs_qualified form carries]
    unfold published
    cases direct : resolvePath st.files (.packages canonical) with
    | ok digest => exact ⟨canonical, rfl⟩
    | error error =>
        rcases resolvePath_error direct with rfl | rfl
        · rfl
        · exact absurd direct (holds.readable canonical)
  absent := by
    intro bare
    rw [storeResolveAs_bare form bare (holds.readable canonical), Verdict.answer_notFound,
      settle_eq_absent]
    constructor
    · intro empty key digest answers
      have member := answers.candidate holds
      rw [empty] at member
      contradiction
    · intro none
      apply List.eq_nil_iff_forall_not_mem.mpr
      intro candidate member
      obtain ⟨answer, answers⟩ := candidate_answers bare harmless member
      exact none answer candidate.2 answers
  ambiguous := by
    intro bare
    rw [storeResolveAs_bare form bare (holds.readable canonical), Verdict.answer_ambiguous,
      settle_eq_ambiguous]
    constructor
    · intro pair
      obtain ⟨first, firstMember, second, secondMember, differ⟩ := pair
      obtain ⟨answer, answers⟩ := candidate_answers bare harmless firstMember
      obtain ⟨other, others⟩ := candidate_answers bare harmless secondMember
      exact ⟨answer, first.2, other, second.2, answers, others, differ⟩
    · intro pair
      obtain ⟨key, digest, other, different, answers, others, differ⟩ := pair
      exact ⟨(key, digest), answers.candidate holds, (other, different),
        others.candidate holds, differ⟩
  agreed := by
    intro bare some agree
    rw [storeResolveAs_bare form bare (holds.readable canonical)]
    obtain ⟨key, digest, answers⟩ := some
    cases verdict : settle (candidates st.files canonical) with
    | absent =>
        have member := answers.candidate holds
        rw [settle_eq_absent.mp verdict] at member
        contradiction
    | one first value =>
        have head := (settle_eq_one.mp verdict).1
        exact ⟨first, value, first_candidate_answers bare harmless head, rfl⟩
    | ambiguous =>
        obtain ⟨one, oneMember, two, twoMember, differ⟩ := settle_eq_ambiguous.mp verdict
        obtain ⟨left, leftAnswers⟩ := candidate_answers bare harmless oneMember
        obtain ⟨right, rightAnswers⟩ := candidate_answers bare harmless twoMember
        exact absurd (agree _ _ _ _ leftAnswers rightAnswers) differ

/-- Whatever resolves under the law has an entry that may answer it. -/
theorem ResolutionLaw.answered (law : ResolutionLaw st name canonical)
    (bare : storeArchOf canonical = none) {resolved : Resolved}
    (ok : storeResolveAs st name = .ok resolved) :
    ∃ key digest, Answers st.files canonical key digest := by
  by_contra none
  push Not at none
  have refused := (law.absent bare).mpr none
  rw [ok] at refused
  contradiction

/-- When one probe is cut to a valid name, no entry with an architecture can
answer: only the canonical name's own can. -/
theorem answers_own_of_cut (holds : EntryMap st.files)
    (form : canonicalForm canonical = some canonical) (bare : storeArchOf canonical = none)
    {arch : Bytes} (known : arch ∈ gArches)
    (overlong : storeNameMax ≤ (archName canonical arch).length)
    (valid : storeNameIsValid (archProbe canonical arch) = true) {key digest : Bytes}
    (answers : Answers st.files canonical key digest) : key = canonical := by
  have limit := valid_cut_archName form bare known overlong valid
  obtain ⟨named, found⟩ := answers
  rcases named with own | stamped
  · exact own
  · obtain ⟨other, otherKnown, rfl⟩ := stamped
    have fits := storeNameIsValid.length_lt (holds.named _ _ found)
    obtain ⟨parts, rfl, unqualified, _⟩ := parts_of_canonical_bare form bare
    rw [NameParts.length_archName unqualified otherKnown] at fits
    omega

theorem harmless_of_resolutionLaw (holds : EntryMap st.files)
    (form : canonicalForm name = some canonical) (law : ResolutionLaw st name canonical) :
    CutProbesHarmless st.files canonical := by
  intro bare arch known overlong digest found
  have fixed := canonicalForm_fixed form
  have own : ∀ {key value : Bytes}, Answers st.files canonical key value → key = canonical :=
    fun answers => answers_own_of_cut holds fixed bare known overlong
      (holds.named _ _ found) answers
  have resolution := storeResolveAs_bare form bare (holds.readable canonical)
  have probe : (archProbe canonical arch, digest) ∈ candidates st.files canonical :=
    mem_candidates.mpr ⟨mem_probeNames.mpr (Or.inr ⟨arch, known, rfl⟩), found⟩
  -- The probe found something, so the law grants an answering entry.
  have answered : storeResolveAs st name ≠ .error .notFound := by
    rw [resolution, Ne, Verdict.answer_notFound, settle_eq_absent]
    exact List.ne_nil_of_mem probe
  obtain ⟨key, value, answers⟩ : ∃ key value, Answers st.files canonical key value := by
    by_contra none
    push Not at none
    exact answered ((law.absent bare).mpr none)
  have ownFound : published st.files canonical = some value := by
    rw [← own answers]
    exact answers.2
  by_cases same : value = digest
  · rw [ownFound, same]
  · -- Two candidates disagree, but only one entry may answer.
    have ambiguous : storeResolveAs st name = .error .ambiguous := by
      rw [resolution, Verdict.answer_ambiguous, settle_eq_ambiguous]
      exact ⟨_, answers.candidate holds, _, probe, same⟩
    obtain ⟨first, left, second, right, leftAnswers, rightAnswers, differ⟩ :=
      (law.ambiguous bare).mp ambiguous
    have leftFound := leftAnswers.2
    have rightFound := rightAnswers.2
    rw [own leftAnswers, ownFound] at leftFound
    rw [own rightAnswers, ownFound] at rightFound
    exact absurd ((Option.some.inj leftFound).symm.trans (Option.some.inj rightFound)) differ

/-- Over a map of entries, resolution keeps its law exactly where no cut probe
reads an entry the canonical name does not already answer with. -/
theorem resolutionLaw_iff (holds : EntryMap st.files)
    (form : canonicalForm name = some canonical) :
    ResolutionLaw st name canonical ↔ CutProbesHarmless st.files canonical :=
  ⟨harmless_of_resolutionLaw holds form, resolutionLaw_of_harmless holds form⟩

end Law

/-! ### A probe that is cut -/

/-- A signature name of 255 bytes, the longest a name can be. -/
def longestSignature : Bytes := List.replicate 240 97 ++ ascii ".tar.gz.minisig"

/-- What is left of its aarch64 spelling in a STORE_NAME_MAX buffer. -/
def cutSpelling : Bytes := List.replicate 240 97 ++ ascii "-aarch64.tar.gz"

/-- A store that publishes nothing but that other name. -/
def cutStore : Store := Store.holding [(cutSpelling, List.replicate 64 97)] []

/-- The signature name is answered with the artifact's bytes, though nothing
that may answer it is published. -/
theorem cut_probe_answers :
    EntryMap cutStore.files ∧ canonicalForm longestSignature = some longestSignature ∧
      storeResolveAs cutStore longestSignature = .ok ⟨List.replicate 64 97, cutSpelling⟩ ∧
      ¬ ResolutionLaw cutStore longestSignature longestSignature := by
  obtain ⟨form, resolved, missing⟩ :
      canonicalForm longestSignature = some longestSignature ∧
        storeResolveAs cutStore longestSignature = .ok ⟨List.replicate 64 97, cutSpelling⟩ ∧
        published cutStore.files longestSignature = none ∧
        ∀ arch ∈ gArches, published cutStore.files (archName longestSignature arch) = none := by
    decide +kernel
  refine ⟨entryMap_holding (by decide +kernel), form, resolved, ?_⟩
  intro law
  obtain ⟨key, digest, named, found⟩ := law.answered (by decide +kernel) resolved
  rcases named with own | stamped
  · rw [own] at found
    exact Option.some_ne_none digest (found.symm.trans missing.1)
  · obtain ⟨arch, known, same⟩ := stamped
    rw [same] at found
    exact Option.some_ne_none digest (found.symm.trans (missing.2 arch known))

/-- An ordinary bare name keeps the law. -/
theorem resolutionLaw_bare_zlib :
    ResolutionLaw
      (Store.holding [(ascii "zlib-1.3-1-x86_64.tar.gz", List.replicate 64 97)] [])
      (ascii "zlib-1.3.tar.gz") (ascii "zlib-1.3-1.tar.gz") := by
  apply (resolutionLaw_iff (entryMap_holding (by decide)) (by decide)).mpr
  intro _ arch known overlong
  have short : ∀ arch ∈ gArches,
      ¬ storeNameMax ≤ (archName (ascii "zlib-1.3-1.tar.gz") arch).length := by
    decide
  exact absurd overlong (short arch known)

end CixCache
