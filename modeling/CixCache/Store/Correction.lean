import CixCache.Invariant

/-!
Contract: the documented way to correct a published name, DELETE it and PUT
the new bytes.

Owns: `CorrectionWorks`, what a CONFLICT promises; `Correctable`, the condition
on the entries under which the promise is kept; and their equivalence. Publish
decides through resolution, which an entry with an architecture may answer,
while a withdrawal goes straight to one path.

Does not own: the operations (`Store.Publish`), resolution's own law.
-/

namespace CixCache

open CixCache.Lib

/-- The answers of `store_publish` that a client is told as 409. -/
def Refuses409 (result : StoreResult) : Prop :=
  result = .error .conflict ∨ result = .error .ambiguous

/-- After a CONFLICT the name can be withdrawn, published anew, and resolves to
the new digest; and no name that a withdrawal reports absent is answered with 409. -/
structure CorrectionWorks (sys : Sys) (st : Store) (name digest : Bytes) : Prop where
  corrects : (storePublish sys st name digest).2 = .error .conflict →
    (storeUnpublish sys st name).result = .ok () ∧
      (storePublish sys (storeUnpublish sys st name).store name digest).2 = .ok () ∧
      storeResolve (storePublish sys (storeUnpublish sys st name).store name digest).1 name =
        .ok digest
  present : Refuses409 (storePublish sys st name digest).2 →
    (storeUnpublish sys st name).result ≠ .error .notFound

/-- Whether some spelling with an architecture is published. -/
def SiblingPublished (files : Files) (canonical : Bytes) : Prop :=
  ∃ arch ∈ gArches, (published files (archProbe canonical arch)).isSome

/-- A bare name whose entry can be read and that a spelling with an architecture also
answers is correctable only when publishing it is no conflict: every candidate has the digest
already, or the candidates disagree, and then the name's own entry is one of them. -/
def Correctable (files : Files) (name digest : Bytes) : Prop :=
  ∀ canonical, canonicalForm name = some canonical → storeArchOf canonical = none →
    resolvePath files (.packages canonical) ≠ .error .io → SiblingPublished files canonical →
      (∀ key ∈ probeNames canonical, ∀ value, published files key = some value → value = digest) ∨
      (published files canonical).isSome ∧
        ∃ key ∈ probeNames canonical, ∃ other ∈ probeNames canonical, ∃ value different,
          published files key = some value ∧ published files other = some different ∧
            value ≠ different

/-! ## A withdrawal and the probes -/

section Withdrawal

variable {sys : Sys} {st : Store} {name canonical : Bytes}

/-- A withdrawal leaves the entries with an architecture alone. -/
theorem storeUnpublish_probe (succeeds : sys.Succeeds)
    (form : canonicalForm name = some canonical) (arch : Bytes) :
    published (storeUnpublish sys st name).store.files (archProbe canonical arch) =
      published st.files (archProbe canonical arch) := by
  have fixed := canonicalForm_fixed form
  apply published_congr
  show packagesOf _ (archProbe canonical arch) = _
  rw [storeUnpublish_answered form (storeUnpublish_not_io succeeds name)]
  apply withdraw_of_ne (archProbe_ne fixed)
  intro sig found
  rw [signatureOf_some form found]
  exact archProbe_ne_signature fixed

theorem storeUnpublish_own (succeeds : sys.Succeeds) (st : Store)
    (form : canonicalForm name = some canonical) :
    (storeUnpublish sys st name).store.files (.packages canonical) = none := by
  show packagesOf _ canonical = none
  rw [storeUnpublish_answered form (storeUnpublish_not_io succeeds name)]
  exact withdraw_self _ _ _

/-- After a withdrawal only the entries with an architecture are candidates. -/
theorem mem_candidates_storeUnpublish (succeeds : sys.Succeeds)
    (form : canonicalForm name = some canonical) (key digest : Bytes) :
    (key, digest) ∈ candidates (storeUnpublish sys st name).store.files canonical ↔
      (∃ arch ∈ gArches, key = archProbe canonical arch) ∧
        published st.files key = some digest := by
  rw [mem_candidates, mem_probeNames]
  constructor
  · intro facts
    rcases facts.1 with own | probe
    · have missing := published_of_absent (storeUnpublish_own succeeds st form)
      rw [own, missing] at facts
      exact absurd facts.2 (by simp)
    · obtain ⟨arch, known, rfl⟩ := probe
      refine ⟨⟨arch, known, rfl⟩, ?_⟩
      rw [← storeUnpublish_probe succeeds form]
      exact facts.2
  · intro facts
    obtain ⟨⟨arch, known, rfl⟩, found⟩ := facts
    refine ⟨Or.inr ⟨arch, known, rfl⟩, ?_⟩
    rw [storeUnpublish_probe succeeds form]
    exact found

end Withdrawal

/-! ## The promise -/

section Promise

variable {sys : Sys} {st : Store} {name canonical digest : Bytes}

/-- A conflict is a name that resolves to another digest. -/
theorem conflict_resolves (conflict : (storePublish sys st name digest).2 = .error .conflict) :
    ∃ canonical existing, canonicalForm name = some canonical ∧
      storeResolve st name = .ok existing ∧ existing ≠ digest := by
  by_cases refused : canonicalForm name = none ∨ storeDigestIsValid digest = false ∨
      stat st.files (.blobs digest) = none
  · obtain ⟨error, notConflict, same⟩ := storePublish_refused sys refused
    rw [same] at conflict
    exact absurd (Except.error.inj conflict) notConflict
  · simp only [not_or, Bool.not_eq_false, ← Option.isSome_iff_ne_none] at refused
    obtain ⟨named, valid, present⟩ := refused
    obtain ⟨canonical, form⟩ := Option.isSome_iff_exists.mp named
    rw [storePublish_eq sys form valid present] at conflict
    split at conflict
    next existing resolved =>
      split at conflict
      next => contradiction
      next differs => exact ⟨canonical, existing, form, resolved, differs⟩
    next =>
      rcases (publishLink_spec sys st canonical valid).1 with
        done | failed
      · rw [done.1] at conflict
        contradiction
      · rw [failed.1] at conflict
        contradiction
    next error failed =>
      rw [Except.error.inj conflict] at failed
      exact absurd failed storeResolve_ne_conflict

/-- An ambiguous publish is of a bare name that can be read, and whose candidates disagree. -/
theorem ambiguous_disagrees (valid : storeDigestIsValid digest = true)
    (present : (stat st.files (.blobs digest)).isSome)
    (ambiguous : (storePublish sys st name digest).2 = .error .ambiguous) :
    ∃ canonical, canonicalForm name = some canonical ∧ storeArchOf canonical = none ∧
      resolvePath st.files (.packages canonical) ≠ .error .io ∧
      ∃ first ∈ candidates st.files canonical, ∃ second ∈ candidates st.files canonical,
        first.2 ≠ second.2 := by
  cases form : canonicalForm name with
  | none =>
      unfold storePublish at ambiguous
      rw [storeResolve_of_none form] at ambiguous
      split_ifs at ambiguous <;> exact absurd (Except.error.inj ambiguous) (by simp)
  | some canonical =>
      rw [storePublish_eq sys form valid present] at ambiguous
      have resolved : storeResolve st name = .error .ambiguous := by
        split at ambiguous
        next =>
          split at ambiguous
          next => contradiction
          next => exact absurd (Except.error.inj ambiguous) (by simp)
        next =>
          rcases (publishLink_spec sys st canonical valid).1 with done | failed
          · rw [done.1] at ambiguous
            contradiction
          · rw [failed.1] at ambiguous
            contradiction
        next error failed => rw [failed, Except.error.inj ambiguous]
      refine ⟨canonical, rfl, ?_⟩
      cases arch : storeArchOf canonical with
      | some word =>
          rw [storeResolve_qualified form (by simp [arch])] at resolved
          rcases resolvePath_error resolved with other | other <;> contradiction
      | none =>
          by_cases unreadable : resolvePath st.files (.packages canonical) = .error .io
          · rw [storeResolve_io form unreadable] at resolved
            contradiction
          · refine ⟨rfl, unreadable, ?_⟩
            rw [storeResolve_bare form arch unreadable] at resolved
            apply settle_eq_ambiguous.mp
            split at resolved
            next => contradiction
            next => contradiction
            next verdict => exact verdict

/-- Candidates that disagree are not both the name's own entry. -/
theorem siblingPublished_of_disagree {first second : Bytes × Bytes}
    (firstMember : first ∈ candidates st.files canonical)
    (secondMember : second ∈ candidates st.files canonical) (differ : first.2 ≠ second.2) :
    SiblingPublished st.files canonical := by
  obtain ⟨firstNamed, firstFound⟩ := mem_candidates.mp firstMember
  obtain ⟨secondNamed, secondFound⟩ := mem_candidates.mp secondMember
  rcases mem_probeNames.mp firstNamed with own | ⟨word, known, probe⟩
  · rcases mem_probeNames.mp secondNamed with again | ⟨word, known, probe⟩
    · rw [own] at firstFound
      rw [again, firstFound] at secondFound
      exact absurd (Option.some.inj secondFound) differ
    · exact ⟨word, known, by rw [← probe, secondFound]; rfl⟩
  · exact ⟨word, known, by rw [← probe, firstFound]; rfl⟩

private theorem stat_after_unpublish :
    stat (storeUnpublish sys st name).store.files (.blobs digest) =
      stat st.files (.blobs digest) :=
  stat_blobs_congr (storeUnpublish_blobs sys st name) digest

/-- A conflicting name whose own entry is published and that nothing else
answers can be corrected. -/
theorem correctionWorks_of_own (succeeds : sys.Succeeds)
    (valid : storeDigestIsValid digest = true)
    (present : (stat st.files (.blobs digest)).isSome)
    (form : canonicalForm name = some canonical)
    (own : (packagesOf st.files canonical).isSome)
    (alone : storeArchOf canonical = none → ¬ SiblingPublished st.files canonical) :
    (storeUnpublish sys st name).result = .ok () ∧
      (storePublish sys (storeUnpublish sys st name).store name digest).2 = .ok () ∧
      storeResolve (storePublish sys (storeUnpublish sys st name).store name digest).1 name =
        .ok digest := by
  have free : storeResolve (storeUnpublish sys st name).store name = .error .notFound := by
    have absent := storeUnpublish_own succeeds st form
    cases arch : storeArchOf canonical with
    | some word =>
        rw [storeResolve_qualified form (by simp [arch]), resolvePath_notFound.mpr absent]
    | none =>
        have empty : candidates (storeUnpublish sys st name).store.files canonical = [] := by
          apply List.eq_nil_iff_forall_not_mem.mpr
          intro candidate member
          obtain ⟨⟨word, known, same⟩, found⟩ :=
            (mem_candidates_storeUnpublish succeeds form candidate.1 candidate.2).mp member
          apply alone arch
          exact ⟨word, known, by rw [← same, found]; rfl⟩
        rw [storeResolve_bare form arch (by rw [resolvePath_notFound.mpr absent]; simp), empty]
        rfl
  have there : (stat (storeUnpublish sys st name).store.files (.blobs digest)).isSome := by
    rw [stat_after_unpublish]
    exact present
  have published := storePublish_eq sys form valid there
  rw [free] at published
  dsimp only at published
  refine ⟨?_, ?_, ?_⟩
  · rw [storeUnpublish_result succeeds form, if_pos own]
  · rw [published]
    exact (publishLink_of_succeeds succeeds _ _ valid).1
  · rw [published]
    apply storeResolve_linked form valid free
    rcases (publishLink_spec sys (storeUnpublish sys st name).store canonical valid).1 with
      done | failed
    · exact done.2
    · have ok := (publishLink_of_succeeds succeeds (storeUnpublish sys st name).store canonical
        valid).1
      rw [failed.1] at ok
      contradiction

/-- A conflicting name that is correctable has an entry of its own, and no other answers. -/
theorem corrects_of_correctable (succeeds : sys.Succeeds)
    (valid : storeDigestIsValid digest = true)
    (present : (stat st.files (.blobs digest)).isSome)
    (correctable : Correctable st.files name digest)
    (conflict : (storePublish sys st name digest).2 = .error .conflict) :
    (storeUnpublish sys st name).result = .ok () ∧
      (storePublish sys (storeUnpublish sys st name).store name digest).2 = .ok () ∧
      storeResolve (storePublish sys (storeUnpublish sys st name).store name digest).1 name =
        .ok digest := by
  obtain ⟨canonical, existing, form, resolved, differs⟩ := conflict_resolves conflict
  cases arch : storeArchOf canonical with
  | some word =>
      rw [storeResolve_qualified form (by simp [arch])] at resolved
      apply correctionWorks_of_own succeeds valid present form
      · rw [Option.isSome_iff_ne_none]
        intro absent
        rw [resolvePath_notFound.mpr absent] at resolved
        contradiction
      · simp [arch]
  | none =>
      obtain ⟨readable, some, agree⟩ := candidates_of_storeResolve form arch resolved
      obtain ⟨candidate, member⟩ := List.exists_mem_of_ne_nil _ some
      obtain ⟨named, found⟩ := mem_candidates.mp member
      have alone : ¬ SiblingPublished st.files canonical := by
        intro sibling
        rcases correctable canonical form arch readable sibling with same | ⟨_, disagree⟩
        · exact differs ((agree candidate member).symm.trans (same _ named _ found))
        · obtain ⟨key, named, other, otherNamed, value, different, found, otherFound, unequal⟩ :=
            disagree
          apply unequal
          exact (agree (key, value) (mem_candidates.mpr ⟨named, found⟩)).trans
            (agree (other, different) (mem_candidates.mpr ⟨otherNamed, otherFound⟩)).symm
      apply correctionWorks_of_own succeeds valid present form _ (fun _ => alone)
      -- The candidates are not empty, and none of them has an architecture.
      rcases mem_probeNames.mp named with same | probe
      · rw [Option.isSome_iff_ne_none]
        intro absent
        rw [same, published_of_absent absent] at found
        contradiction
      · obtain ⟨word, known, same⟩ := probe
        exact absurd ⟨word, known, by rw [← same, found]; rfl⟩ alone

theorem correctionWorks_of_correctable (succeeds : sys.Succeeds)
    (valid : storeDigestIsValid digest = true)
    (present : (stat st.files (.blobs digest)).isSome)
    (correctable : Correctable st.files name digest) : CorrectionWorks sys st name digest := by
  have corrects := corrects_of_correctable succeeds valid present correctable
  refine ⟨corrects, ?_⟩
  rintro (conflict | ambiguous)
  · rw [(corrects conflict).1]
    simp
  · obtain ⟨canonical, form, bare, readable, first, firstMember, second, secondMember, differ⟩ :=
      ambiguous_disagrees valid present ambiguous
    obtain ⟨firstNamed, firstFound⟩ := mem_candidates.mp firstMember
    obtain ⟨secondNamed, secondFound⟩ := mem_candidates.mp secondMember
    have sibling := siblingPublished_of_disagree firstMember secondMember differ
    rcases correctable canonical form bare readable sibling with same | ⟨own, _⟩
    · exact absurd ((same _ firstNamed _ firstFound).trans (same _ secondNamed _ secondFound).symm)
        differ
    · have there : (packagesOf st.files canonical).isSome := by
        rw [Option.isSome_iff_ne_none]
        intro absent
        rw [published_of_absent absent] at own
        contradiction
      rw [storeUnpublish_result succeeds form, if_pos there]
      simp

/-- Where a spelling answers for the name and all candidates agree on another digest, the
conflict comes back after the withdrawal. -/
theorem correction_stuck (succeeds : sys.Succeeds) (valid : storeDigestIsValid digest = true)
    (present : (stat st.files (.blobs digest)).isSome)
    (form : canonicalForm name = some canonical) (bare : storeArchOf canonical = none)
    (readable : resolvePath st.files (.packages canonical) ≠ .error .io) {arch existing : Bytes}
    (known : arch ∈ gArches)
    (found : published st.files (archProbe canonical arch) = some existing)
    (differs : existing ≠ digest)
    (agree : ∀ key ∈ probeNames canonical, ∀ value, published st.files key = some value →
      value = existing) : ¬ CorrectionWorks sys st name digest := by
  intro works
  have probe : archProbe canonical arch ∈ probeNames canonical :=
    mem_probeNames.mpr (Or.inr ⟨arch, known, rfl⟩)
  have resolved : storeResolve st name = .ok existing := by
    apply storeResolve_of_agree form bare readable
    · exact List.ne_nil_of_mem (mem_candidates.mpr ⟨probe, found⟩)
    · intro candidate member
      obtain ⟨named, candidateFound⟩ := mem_candidates.mp member
      exact agree _ named _ candidateFound
  have conflict : (storePublish sys st name digest).2 = .error .conflict := by
    rw [storePublish_eq sys form valid present, resolved]
    dsimp only
    rw [if_neg differs]
  -- The sibling survives the withdrawal and conflicts once more.
  have again : storeResolve (storeUnpublish sys st name).store name = .ok existing := by
    apply storeResolve_of_agree form bare
    · rw [resolvePath_notFound.mpr (storeUnpublish_own succeeds st form)]
      simp
    · apply List.ne_nil_of_mem (a := (archProbe canonical arch, existing))
      exact (mem_candidates_storeUnpublish succeeds form _ _).mpr ⟨⟨arch, known, rfl⟩, found⟩
    · intro candidate member
      obtain ⟨⟨word, wordKnown, same⟩, candidateFound⟩ :=
        (mem_candidates_storeUnpublish succeeds form candidate.1 candidate.2).mp member
      rw [same] at candidateFound
      exact agree _ (mem_probeNames.mpr (Or.inr ⟨word, wordKnown, rfl⟩)) _ candidateFound
  have there : (stat (storeUnpublish sys st name).store.files (.blobs digest)).isSome := by
    rw [stat_after_unpublish]
    exact present
  have ok := (works.corrects conflict).2.1
  rw [storePublish_eq sys form valid there, again] at ok
  dsimp only at ok
  rw [if_neg differs] at ok
  contradiction

/-- An entry that is there and can be read is published. -/
theorem published_of_readable (readable : resolvePath st.files (.packages canonical) ≠ .error .io)
    (there : (packagesOf st.files canonical).isSome) :
    (published st.files canonical).isSome := by
  cases direct : resolvePath st.files (.packages canonical) with
  | ok value =>
      rw [published_eq_some.mpr direct]
      rfl
  | error error =>
      rcases resolvePath_error direct with rfl | rfl
      · rw [packagesOf, resolvePath_notFound.mp direct] at there
        contradiction
      · exact absurd direct readable

theorem correctable_of_correctionWorks (succeeds : sys.Succeeds)
    (valid : storeDigestIsValid digest = true)
    (present : (stat st.files (.blobs digest)).isSome)
    (works : CorrectionWorks sys st name digest) : Correctable st.files name digest := by
  intro canonical form bare readable sibling
  obtain ⟨arch, known, isSome⟩ := sibling
  obtain ⟨existing, found⟩ := Option.isSome_iff_exists.mp isSome
  have probe : archProbe canonical arch ∈ probeNames canonical :=
    mem_probeNames.mpr (Or.inr ⟨arch, known, rfl⟩)
  by_cases agree : ∀ key ∈ probeNames canonical, ∀ value, published st.files key = some value →
      value = existing
  · by_cases same : existing = digest
    · exact Or.inl (same ▸ agree)
    · exact absurd works
        (correction_stuck succeeds valid present form bare readable known found same agree)
  · push Not at agree
    obtain ⟨key, named, value, other, differ⟩ := agree
    refine Or.inr ⟨?_, key, named, _, probe, value, existing, other, found, differ⟩
    have ambiguous : (storePublish sys st name digest).2 = .error .ambiguous := by
      have verdict : settle (candidates st.files canonical) = .ambiguous :=
        settle_eq_ambiguous.mpr ⟨(key, value), mem_candidates.mpr ⟨named, other⟩, (_, existing),
          mem_candidates.mpr ⟨probe, found⟩, differ⟩
      rw [storePublish_eq sys form valid present, storeResolve_bare form bare readable, verdict]
    have notAbsent := works.present (Or.inr ambiguous)
    rw [storeUnpublish_result succeeds form] at notAbsent
    split at notAbsent
    next there => exact published_of_readable readable there
    next => exact absurd rfl notAbsent

/-- DELETE and PUT correct every conflicting name, and none that DELETE reports absent is
refused with 409, exactly where the condition holds. -/
theorem correctionWorks_iff (succeeds : sys.Succeeds)
    (present : (storeBlobExists st digest).isSome) :
    CorrectionWorks sys st name digest ↔ Correctable st.files name digest := by
  have valid : storeDigestIsValid digest = true := by
    by_contra invalid
    unfold storeBlobExists at present
    rw [if_pos (by simpa using invalid)] at present
    contradiction
  rw [storeBlobExists_of_valid valid, Option.isSome_map] at present
  exact ⟨correctable_of_correctionWorks succeeds valid present,
    correctionWorks_of_correctable succeeds valid present⟩

end Promise

/-! ### A sibling that cannot be corrected away -/

/-- The store after the artifact of one machine and another artifact were
uploaded to an empty root. -/
def siblingStore : Store :=
  run (storeStep Sha256sum.sample) (Store.holding [] [])
    [(Sys.succeeding fun _ => none, .upload (ascii "foo-1-1-x86_64.tar.gz") (ascii "a")),
      (Sys.succeeding fun _ => none, .upload (ascii "bar-1-1.tar.gz") (ascii "b"))]

/-- The bare name conflicts, and its withdrawal finds nothing to remove. -/
theorem sibling_not_correctable :
    (storeBlobExists siblingStore (Sha256sum.sample.digest (ascii "b"))).isSome ∧
      (storePublish (Sys.succeeding fun _ => none) siblingStore (ascii "foo-1-1.tar.gz")
        (Sha256sum.sample.digest (ascii "b"))).2 = .error .conflict ∧
      (storeUnpublish (Sys.succeeding fun _ => none) siblingStore
        (ascii "foo-1-1.tar.gz")).result = .error .notFound ∧
      ¬ CorrectionWorks (Sys.succeeding fun _ => none) siblingStore (ascii "foo-1-1.tar.gz")
        (Sha256sum.sample.digest (ascii "b")) := by
  obtain ⟨adopted, conflict, missing⟩ :
      (storeBlobExists siblingStore (Sha256sum.sample.digest (ascii "b"))).isSome ∧
        (storePublish (Sys.succeeding fun _ => none) siblingStore (ascii "foo-1-1.tar.gz")
          (Sha256sum.sample.digest (ascii "b"))).2 = .error .conflict ∧
        (storeUnpublish (Sys.succeeding fun _ => none) siblingStore
          (ascii "foo-1-1.tar.gz")).result = .error .notFound := by
    decide +kernel
  refine ⟨adopted, conflict, missing, ?_⟩
  intro works
  exact absurd (missing.symm.trans (works.corrects conflict).1) (by simp)

/-- The artifact of one machine is correctable under its own name. -/
theorem qualified_correctable :
    CorrectionWorks (Sys.succeeding fun _ => none) siblingStore (ascii "foo-1-1-x86_64.tar.gz")
      (Sha256sum.sample.digest (ascii "b")) := by
  apply (correctionWorks_iff (Sys.succeeds_succeeding _) (by decide +kernel)).mpr
  intro canonical form bare
  have qualified : (canonicalForm (ascii "foo-1-1-x86_64.tar.gz")).bind storeArchOf =
      some (ascii "x86_64") := by
    decide +kernel
  rw [form, Option.bind_some, bare] at qualified
  exact absurd qualified (by simp)

end CixCache
