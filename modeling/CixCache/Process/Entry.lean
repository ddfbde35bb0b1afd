import CixCache.Process.Calls

/-!
Contract: what a publish knows of the entry it is to create, between two calls.

Owns: `Looked` and `Follows`, what can follow a stage of a resolution and of a
publish; `EntrySound`, that the entry of a job is still free for its digest;
how a publish succeeds (`Settled`), and why one for another digest than an entry
answers with does not (`Barred`).

Does not own: the blob of a job (`StageSound`), or a second process.
-/

namespace CixCache

/-! ## The entry of a job -/

/-- Nothing but the digest itself can be replaced under the name. -/
def Free (files : Files) (name digest : Bytes) : Prop :=
  packagesOf files name = none ∨ packagesOf files name = some (.symlink (blobTarget digest))

/-- The path is that of the job's entry, and free for its digest. -/
def Vacant (files : Files) (job : Job) (path : Path) : Prop :=
  ∃ name, path = .packages name ∧ canonicalForm job.name = some name ∧
    Free files name job.digest

/-- What a job relies on between two calls as to the entry it is to create. -/
def EntrySound (files : Files) (pid : Nat) (job : Job) : Stage → Prop
  | .resolve (.probing canonical arches hit) =>
      canonicalForm job.name = some canonical ∧ storeArchOf canonical = none ∧
        arches ⊆ gArches ∧ (hit = none → Free files canonical job.digest)
  | .clear path => Vacant files job path
  | .link path tmpLink => Vacant files job path ∧ ∃ counter, tmpLink = .pub pid counter
  | .publish path tmpLink =>
      Vacant files job path ∧ (∃ counter, tmpLink = .pub pid counter) ∧
        tmpOf files tmpLink = some (.symlink (blobTarget job.digest))
  | .undo tmpLink => ∃ counter, tmpLink = .pub pid counter
  | _ => True

/-- The entry a job has looked up without meeting a digest other than its own,
and that digest. -/
def Job.claim (job : Job) : Stage → Option (Bytes × Bytes)
  | .resolve (.probing canonical _ hit) =>
      if hit = none ∨ hit = some job.digest then some (canonical, job.digest) else none
  | .clear (.packages name) => some (name, job.digest)
  | .link (.packages name) _ => some (name, job.digest)
  | .publish (.packages name) _ => some (name, job.digest)
  | _ => none

/-- The entry a job's next call creates, or answers for from its last probe. -/
def Job.settles (job : Job) : Stage → Option (Bytes × Bytes)
  | .resolve (.probing canonical [] hit) =>
      if hit = some job.digest then some (canonical, job.digest) else none
  | .publish (.packages name) _ => some (name, job.digest)
  | _ => none

/-- The entries that can answer for a canonical name. -/
def answering (canonical : Bytes) : List Bytes :=
  if (storeArchOf canonical).isSome then [canonical] else probeNames canonical

theorem answering_bare {canonical : Bytes} (unqualified : storeArchOf canonical = none) :
    answering canonical = probeNames canonical := by
  simp [answering, unqualified]

theorem mem_answering (canonical : Bytes) : canonical ∈ answering canonical := by
  unfold answering
  split
  · exact List.mem_singleton_self _
  · exact List.mem_cons_self

section Jobs

variable {sys : Sys} {st : Store} {before after : Files} {pid : Nat} {job : Job} {stage : Stage}
  {name digest : Bytes}

theorem Vacant.stable {path : Path} (vacant : Vacant before job path)
    (kept : ∀ name, path = .packages name → Free before name job.digest →
      Free after name job.digest) : Vacant after job path := by
  obtain ⟨name, rfl, form, free⟩ := vacant
  exact ⟨name, rfl, form, kept name rfl free⟩

/-- What a job relies on survives what leaves the entry it claims free. -/
theorem EntrySound.stable (sound : EntrySound before pid job stage)
    (kept : ∀ name, job.claim stage = some (name, job.digest) → Free before name job.digest →
      Free after name job.digest)
    (links : ∀ counter, tmpOf after (.pub pid counter) = tmpOf before (.pub pid counter)) :
    EntrySound after pid job stage := by
  cases stage with
  | resolve pc =>
      cases pc with
      | start => trivial
      | probing canonical rest hit =>
          obtain ⟨form, unqualified, known, free⟩ := sound
          refine ⟨form, unqualified, known, ?_⟩
          intro missed
          exact kept canonical (by simp [Job.claim, missed]) (free missed)
  | clear path => exact sound.stable fun name own => kept name (by rw [own]; rfl)
  | link path tmpLink =>
      exact ⟨sound.1.stable fun name own => kept name (by rw [own]; rfl), sound.2⟩
  | publish path tmpLink =>
      obtain ⟨vacant, ⟨counter, rfl⟩, own⟩ := sound
      refine ⟨vacant.stable fun name same => kept name (by rw [same]; rfl), ⟨counter, rfl⟩, ?_⟩
      rw [links]
      exact own
  | undo tmpLink => exact sound
  | _ => trivial

/-- What one call of a job does to an entry: nothing, unless the entry is the
job's own file, which the call takes away, or the name the job publishes. -/
theorem publishStep_packages (sys : Sys) (sound : EntrySound st.files st.pid job stage)
    (name : Bytes) :
    packagesOf (publishStep sys st job stage).1.files name = packagesOf st.files name ∨
      ((stage = .discard ∨ stage = .adopt) ∧ job.source = .packages name ∧
        packagesOf (publishStep sys st job stage).1.files name = none) ∨
      ((∃ tmpLink, stage = .publish (.packages name) tmpLink) ∧
        packagesOf (publishStep sys st job stage).1.files name =
          some (.symlink (blobTarget job.digest))) := by
  have removed : packagesOf (Function.update st.files job.source none) name =
        packagesOf st.files name ∨
      job.source = .packages name ∧
        packagesOf (Function.update st.files job.source none) name = none := by
    by_cases own : .packages name = job.source
    · refine Or.inr ⟨own.symm, ?_⟩
      show Function.update st.files job.source none (.packages name) = none
      rw [own, Function.update_self]
    · exact Or.inl (Function.update_of_ne own _ _)
  cases stage with
  | discard =>
      rw [publishStep]
      rcases unlink_files sys st.files job.source with same | gone
      · rw [same]
        exact Or.inl rfl
      · rw [gone]
        exact removed.imp_right fun taken => Or.inl ⟨Or.inl rfl, taken⟩
  | adopt =>
      rw [publishStep]
      split
      next => exact Or.inl rfl
      next path located =>
        split
        next => exact Or.inl rfl
        next files renamed =>
          obtain ⟨node, present, rfl⟩ := rename_eq_some renamed
          obtain rfl := blobPath_eq_some located
          rw [Store.withFiles_files, packagesOf_update_blobs]
          exact removed.imp_right fun taken => Or.inl ⟨Or.inr rfl, taken⟩
  | clear path =>
      left
      show packagesOf (unlink sys st.files (.tmp _)).1 name = _
      rw [packagesOf_unlink_tmp]
  | link path tmpLink =>
      left
      rw [publishStep]
      split
      next => rfl
      next files made =>
        obtain ⟨_, rfl⟩ := symlink_eq_some made
        rw [Store.withFiles_files, packagesOf_update_tmp]
  | publish path tmpLink =>
      obtain ⟨⟨entry, rfl, _, _⟩, _, own⟩ := sound
      rw [publishStep]
      split
      next => exact Or.inl rfl
      next files renamed =>
        obtain ⟨node, present, rfl⟩ := rename_eq_some renamed
        obtain rfl := Option.some.inj (own.symm.trans present)
        rw [Store.withFiles_files, packagesOf_update_packages, packagesOf_update_tmp]
        by_cases here : name = entry
        · right; right
          rw [here, Function.update_self]
          exact ⟨⟨tmpLink, rfl⟩, rfl⟩
        · left
          rw [Function.update_of_ne here]
  | undo tmpLink =>
      left
      show packagesOf (unlink sys st.files (.tmp tmpLink)).1 name = _
      rw [packagesOf_unlink_tmp]
  | _ =>
      left
      rw [publishStep_reads sys st job rfl]

/-- Links under tmp/ that are not the process's own stay, unless they are the
job's file. -/
theorem publishStep_links (sys : Sys) (sound : EntrySound st.files st.pid job stage)
    (foreign : pid ≠ st.pid) {counter : Nat} (source : job.source ≠ .tmp (.pub pid counter)) :
    tmpOf (publishStep sys st job stage).1.files (.pub pid counter) =
      tmpOf st.files (.pub pid counter) := by
  have other : ∀ own, TmpName.pub pid counter ≠ .pub st.pid own :=
    fun own same => foreign (TmpName.pub.inj same).1
  have removed : tmpOf (Function.update st.files job.source none) (.pub pid counter) =
      tmpOf st.files (.pub pid counter) :=
    Function.update_of_ne source.symm _ _
  cases stage with
  | discard =>
      rw [publishStep]
      rcases unlink_files sys st.files job.source with same | gone
      · rw [same]
        rfl
      · rw [gone]
        exact removed
  | adopt =>
      rw [publishStep]
      split
      next => rfl
      next path located =>
        split
        next => rfl
        next files renamed =>
          obtain ⟨node, present, rfl⟩ := rename_eq_some renamed
          obtain rfl := blobPath_eq_some located
          rw [Store.withFiles_files, tmpOf_update_blobs]
          exact removed
  | clear path => exact tmpOf_unlink_tmp (other _)
  | link path tmpLink =>
      obtain ⟨_, own, rfl⟩ := sound
      rw [publishStep]
      split
      next => rfl
      next files made =>
        obtain ⟨_, rfl⟩ := symlink_eq_some made
        rw [Store.withFiles_files, tmpOf_update_tmp, Function.update_of_ne (other own)]
  | publish path tmpLink =>
      obtain ⟨⟨entry, rfl, _, _⟩, ⟨own, rfl⟩, _⟩ := sound
      rw [publishStep]
      split
      next => rfl
      next files renamed =>
        obtain ⟨node, present, rfl⟩ := rename_eq_some renamed
        rw [Store.withFiles_files, tmpOf_update_packages, tmpOf_update_tmp,
          Function.update_of_ne (other own)]
  | undo tmpLink =>
      obtain ⟨own, rfl⟩ := sound
      exact tmpOf_unlink_tmp (other own)
  | _ => rw [publishStep_reads sys st job rfl]

/-! ### The next stage -/

/-- What the next `readlink` of a resolution under way leaves. -/
inductive Looked (files : Files) (name : Bytes) :
    ResolvePc → ResolvePc ⊕ Except StoreError Bytes → Prop
  | refused (pc : ResolvePc) (error : StoreError) (other : error ≠ .notFound) :
      Looked files name pc (.inr (.error error))
  | qualified (canonical : Bytes) (form : canonicalForm name = some canonical)
      (qualified : (storeArchOf canonical).isSome) :
      Looked files name .start (.inr (resolvePath files (.packages canonical)))
  | bare (canonical : Bytes) (form : canonicalForm name = some canonical)
      (unqualified : storeArchOf canonical = none)
      (readable : resolvePath files (.packages canonical) ≠ .error .io) :
      Looked files name .start (.inl (.probing canonical gArches (published files canonical)))
  | missed (canonical arch : Bytes) (later : List Bytes) (hit : Option Bytes)
      (absent : published files (archProbe canonical arch) = none) :
      Looked files name (.probing canonical (arch :: later) hit)
        (.inl (.probing canonical later hit))
  | met (canonical arch : Bytes) (later : List Bytes) (hit : Option Bytes) (digest : Bytes)
      (found : published files (archProbe canonical arch) = some digest)
      (agrees : hit = none ∨ hit = some digest) :
      Looked files name (.probing canonical (arch :: later) hit)
        (.inl (.probing canonical later (some digest)))
  | ended (canonical : Bytes) :
      Looked files name (.probing canonical [] none) (.inr (.error .notFound))
  | answered (canonical digest : Bytes) :
      Looked files name (.probing canonical [] (some digest)) (.inr (.ok digest))

theorem archProbe_length (canonical arch : Bytes) :
    (archProbe canonical arch).length < storeNameMax := by
  rw [archProbe, snprintf, List.length_take]
  unfold storeNameMax
  omega

theorem resolveStep_looked (st : Store) (name : Bytes) (pc : ResolvePc) :
    Looked st.files name pc (resolveStep st name pc) := by
  cases pc with
  | start =>
      rw [resolveStep]
      split
      next => exact .refused _ _ (by simp)
      next =>
        split
        next => exact .refused _ _ (by simp)
        next canonical changed form =>
          have own : canonicalForm name = some canonical := by simp [canonicalForm, form]
          split
          next => exact .refused _ _ (by simp)
          next path located =>
            obtain rfl := rawEntryPath_eq_some located
            dsimp only
            split
            next qualified => exact .qualified canonical own qualified
            next unqualified =>
              rw [Bool.not_eq_true, Option.isSome_eq_false_iff, Option.isNone_iff_eq_none]
                at unqualified
              have step : resolvePath st.files (.packages canonical) ≠ .error .io →
                  Looked st.files name .start
                    (.inl (.probing canonical gArches (published st.files canonical))) :=
                .bare canonical own unqualified
              unfold published at step
              split
              next digest resolved =>
                simp only [resolved] at step
                exact step (by simp)
              next absent =>
                simp only [absent] at step
                exact step (by simp)
              next error other failed =>
                refine .refused _ _ ?_
                rintro rfl
                exact other rfl
  | probing canonical arches hit =>
      cases arches with
      | nil =>
          cases hit with
          | none => exact .ended canonical
          | some digest => exact .answered canonical digest
      | cons arch later =>
          rw [resolveStep, rawEntryPath_of_lt _ (archProbe_length canonical arch)]
          dsimp only
          split
          next error failed =>
            exact .missed canonical arch later hit (by simp [published, failed])
          next digest resolved =>
            have found := published_eq_some.mpr resolved
            split
            next earlier =>
              split
              next same =>
                rw [same]
                exact .met canonical arch later _ digest found (Or.inr rfl)
              next => exact .refused _ _ (by simp)
            next => exact .met canonical arch later none digest found (Or.inl rfl)

/-- What can follow a stage. -/
inductive Follows (st : Store) (job : Job) : Stage → Stage ⊕ StoreResult → Prop
  | failed (stage : Stage) (error : StoreError) : Follows st job stage (.inr (.error error))
  | discards : Follows st job .access (.inl .discard)
  | adopts : Follows st job .access (.inl .adopt)
  | discarded : Follows st job .discard (.inl .blobExists)
  | adopted : Follows st job .adopt (.inl .blobExists)
  | resolves : Follows st job .blobExists (.inl (.resolve .start))
  | resolving (pc next : ResolvePc) (looked : Looked st.files job.name pc (.inl next)) :
      Follows st job (.resolve pc) (.inl (.resolve next))
  | answers (pc : ResolvePc) (looked : Looked st.files job.name pc (.inr (.ok job.digest))) :
      Follows st job (.resolve pc) (.inr (.ok ()))
  | clears (pc : ResolvePc) (path : Path) (located : entryPath st.root job.name = some path)
      (looked : Looked st.files job.name pc (.inr (.error .notFound))) :
      Follows st job (.resolve pc) (.inl (.clear path))
  | links (path : Path) :
      Follows st job (.clear path) (.inl (.link path (.pub st.pid st.tmpCounter)))
  | renames (path : Path) (tmpLink : TmpName) :
      Follows st job (.link path tmpLink) (.inl (.publish path tmpLink))
  | undoes (path : Path) (tmpLink : TmpName) :
      Follows st job (.publish path tmpLink) (.inl (.undo tmpLink))
  | creates (path : Path) (tmpLink : TmpName) :
      Follows st job (.publish path tmpLink) (.inr (.ok ()))

theorem publishStep_follows (sys : Sys) (st : Store) (job : Job) (stage : Stage) :
    Follows st job stage (publishStep sys st job stage).2 := by
  cases stage with
  | access =>
      rw [publishStep]
      split
      next => exact .failed _ _
      next =>
        split
        next => exact .failed _ _
        next =>
          dsimp only
          split
          next => exact .discards
          next => exact .adopts
  | discard => exact .discarded
  | adopt =>
      rw [publishStep]
      split
      next => exact .failed _ _
      next =>
        split
        next => exact .failed _ _
        next => exact .adopted
  | blobExists =>
      rw [publishStep]
      split
      next => exact .failed _ _
      next =>
        split
        next => exact .failed _ _
        next =>
          split
          next => exact .failed _ _
          next => exact .resolves
  | resolve pc =>
      have looked := resolveStep_looked st job.name pc
      rw [publishStep]
      split
      next later probed =>
        rw [probed] at looked
        exact .resolving pc later looked
      next existing resolved =>
        rw [resolved] at looked
        dsimp only
        split
        next same =>
          rw [same] at looked
          exact .answers pc looked
        next => exact .failed _ _
      next absent =>
        rw [absent] at looked
        split
        next => exact .failed _ _
        next path located =>
          split
          next => exact .failed _ _
          next => exact .clears pc path located looked
      next => exact .failed _ _
  | clear path => exact .links path
  | link path tmpLink =>
      rw [publishStep]
      split
      next => exact .failed _ _
      next => exact .renames path tmpLink
  | publish path tmpLink =>
      rw [publishStep]
      split
      next => exact .undoes path tmpLink
      next => exact .creates path tmpLink
  | undo tmpLink => exact .failed _ _

/-- A resolution under way has found its name's own entry absent, or has a digest
in hand. -/
theorem Looked.entrySound {pc next : ResolvePc} (looked : Looked st.files job.name pc (.inl next))
    (sound : EntrySound st.files st.pid job (.resolve pc)) :
    EntrySound st.files st.pid job (.resolve next) := by
  cases looked with
  | bare canonical form unqualified readable =>
      refine ⟨form, unqualified, List.Subset.refl _, ?_⟩
      intro missed
      left
      unfold published at missed
      split at missed
      next => contradiction
      next error failed =>
        rcases resolvePath_error failed with rfl | rfl
        · exact resolvePath_notFound.mp failed
        · exact absurd failed readable
  | missed canonical arch later hit absent =>
      obtain ⟨form, unqualified, known, free⟩ := sound
      exact ⟨form, unqualified, List.Subset.trans (List.subset_cons_self _ _) known, free⟩
  | met canonical arch later hit digest found agrees =>
      obtain ⟨form, unqualified, known, _⟩ := sound
      exact ⟨form, unqualified, List.Subset.trans (List.subset_cons_self _ _) known, by simp⟩

/-- A resolution that ends without an answer has found its name's own entry absent. -/
theorem Looked.vacant {pc : ResolvePc} {path : Path} {error : Except StoreError Bytes}
    (looked : Looked st.files job.name pc (.inr error)) (absent : error = .error .notFound)
    (sound : EntrySound st.files st.pid job (.resolve pc))
    (located : entryPath st.root job.name = some path) : Vacant st.files job path := by
  cases looked with
  | refused pc error other =>
      obtain rfl := Except.error.inj absent
      exact absurd rfl other
  | qualified canonical form qualified =>
      rw [entryPath_of_canonicalForm form] at located
      exact ⟨canonical, (Option.some.inj located).symm, form, Or.inl (resolvePath_notFound.mp absent)⟩
  | ended canonical =>
      obtain ⟨form, _, _, free⟩ := sound
      rw [entryPath_of_canonicalForm form] at located
      exact ⟨canonical, (Option.some.inj located).symm, form, free rfl⟩
  | answered canonical digest => contradiction

/-- After a call the job relies on what its next stage promises. -/
theorem publishStep_entrySound (sys : Sys) (sound : EntrySound st.files st.pid job stage)
    {next : Stage} (pending : (publishStep sys st job stage).2 = .inl next) :
    EntrySound (publishStep sys st job stage).1.files st.pid job next := by
  have follows := publishStep_follows sys st job stage
  rw [pending] at follows
  cases follows with
  | discards => trivial
  | adopts => trivial
  | discarded => trivial
  | adopted => trivial
  | resolves => trivial
  | resolving pc next looked =>
      rw [publishStep_reads sys st job rfl]
      exact looked.entrySound sound
  | clears pc path located looked =>
      rw [publishStep_reads sys st job rfl]
      exact looked.vacant rfl sound located
  | links path =>
      rw [publishStep]
      refine ⟨Vacant.stable sound ?_, st.tmpCounter, rfl⟩
      intro name _ free
      rw [Free, packagesOf_unlink_tmp]
      exact free
  | renames path tmpLink =>
      obtain ⟨vacant, own⟩ := sound
      rw [publishStep] at pending ⊢
      split at pending
      next => contradiction
      next files made =>
        obtain ⟨_, rfl⟩ := symlink_eq_some made
        refine ⟨vacant.stable ?_, own, ?_⟩
        · intro name _ free
          rw [Free, Store.withFiles_files, packagesOf_update_tmp]
          exact free
        · rw [Store.withFiles_files, tmpOf_update_tmp, Function.update_self]
  | undoes path tmpLink => exact sound.2.1

/-! ### Successes -/

/-- The digest a resolution under way has in hand is that of an entry. -/
def Hits (files : Files) (name : Bytes) (stage : Stage) : Prop :=
  ∀ arches digest, stage = .resolve (.probing name arches (some digest)) →
    ∃ key ∈ answering name, published files key = some digest

theorem publishStep_hits (sys : Sys) (sound : EntrySound st.files st.pid job stage)
    (hits : Hits st.files name stage) {next : Stage}
    (pending : (publishStep sys st job stage).2 = .inl next) :
    Hits (publishStep sys st job stage).1.files name next := by
  have follows := publishStep_follows sys st job stage
  rw [pending] at follows
  intro arches digest probing
  subst probing
  cases follows with
  | resolving pc next looked =>
      rw [publishStep_reads sys st job rfl]
      generalize same : some digest = hit at looked
      cases looked with
      | bare canonical form unqualified readable => exact ⟨_, mem_answering _, rfl⟩
      | missed canonical arch later hit absent =>
          subst same
          exact hits _ digest rfl
      | met canonical arch later hit found present agrees =>
          obtain ⟨_, unqualified, known, _⟩ := sound
          refine ⟨_, ?_, present⟩
          rw [answering_bare unqualified]
          exact mem_probeNames.mpr (Or.inr ⟨arch, known List.mem_cons_self, rfl⟩)

/-- How a publish succeeds: an entry answers with its digest, or it creates one. -/
inductive Settled (before after : Files) (job : Job) (name : Bytes) : Stage → Prop
  | direct (qualified : (storeArchOf name).isSome)
      (found : published before name = some job.digest) :
      Settled before after job name (.resolve .start)
  | probed : Settled before after job name (.resolve (.probing name [] (some job.digest)))
  | linked (tmpLink : TmpName) (created : published after name = some job.digest) :
      Settled before after job name (.publish (.packages name) tmpLink)

theorem publishStep_ok (sys : Sys) (sound : EntrySound st.files st.pid job stage)
    (valid : storeDigestIsValid job.digest = true)
    (succeeded : (publishStep sys st job stage).2 = .inr (.ok ())) :
    ∃ name, canonicalForm job.name = some name ∧
      Settled st.files (publishStep sys st job stage).1.files job name stage := by
  have follows := publishStep_follows sys st job stage
  rw [succeeded] at follows
  cases follows with
  | answers pc looked =>
      generalize same : (Except.ok job.digest : Except StoreError Bytes) = answer at looked
      cases looked with
      | refused pc error other => contradiction
      | qualified canonical form qualified =>
          exact ⟨canonical, form, .direct qualified (published_eq_some.mpr same.symm)⟩
      | ended canonical => contradiction
      | answered canonical digest =>
          obtain rfl := Except.ok.inj same
          exact ⟨canonical, sound.1, .probed⟩
  | creates path tmpLink =>
      obtain ⟨⟨name, rfl, form, _⟩, _, own⟩ := sound
      refine ⟨name, form, .linked tmpLink ?_⟩
      rw [publishStep] at succeeded ⊢
      split at succeeded
      next => contradiction
      next files renamed =>
        obtain ⟨node, present, rfl⟩ := rename_eq_some renamed
        obtain rfl := Option.some.inj (own.symm.trans present)
        rw [published_eq_some]
        exact resolvePath_blobTarget valid (Function.update_self _ _ _)

/-- A job for another digest than the one this entry answers with cannot succeed:
it has met another digest, or is still to meet this one. -/
def Barred (key : Bytes) (job : Job) : Stage → Prop
  | .resolve (.probing canonical arches hit) =>
      (∃ other, hit = some other ∧ other ≠ job.digest) ∨
        ∃ arch ∈ arches, archProbe canonical arch = key
  | .clear _ | .link _ _ | .publish _ _ => False
  | _ => True

theorem Follows.barred {key : Bytes} {out : Stage ⊕ StoreResult} (follows : Follows st job stage out)
    (barred : Barred key job stage) (form : canonicalForm job.name = some name)
    (among : key ∈ answering name) (found : published st.files key = some digest)
    (different : digest ≠ job.digest) (sound : EntrySound st.files st.pid job stage) :
    out ≠ .inr (.ok ()) ∧ ∀ next, out = .inl next → Barred key job next := by
  cases follows with
  | failed stage error => exact ⟨by simp, by simp⟩
  | discards => exact ⟨by simp, by rintro _ ⟨⟩; trivial⟩
  | adopts => exact ⟨by simp, by rintro _ ⟨⟩; trivial⟩
  | discarded => exact ⟨by simp, by rintro _ ⟨⟩; trivial⟩
  | adopted => exact ⟨by simp, by rintro _ ⟨⟩; trivial⟩
  | resolves => exact ⟨by simp, by rintro _ ⟨⟩; trivial⟩
  | resolving pc next looked =>
      refine ⟨by simp, ?_⟩
      rintro _ ⟨⟩
      cases looked with
      | bare canonical own unqualified readable =>
          obtain rfl := Option.some.inj (own.symm.trans form)
          rw [answering_bare unqualified, mem_probeNames] at among
          rcases among with rfl | ⟨arch, known, rfl⟩
          · exact Or.inl ⟨digest, found, different⟩
          · exact Or.inr ⟨arch, known, rfl⟩
      | missed canonical arch later hit absent =>
          rcases barred with met | ⟨owed, member, rfl⟩
          · exact Or.inl met
          · rcases List.mem_cons.mp member with rfl | rest
            · rw [absent] at found
              contradiction
            · exact Or.inr ⟨owed, rest, rfl⟩
      | met canonical arch later hit seen present agrees =>
          rcases barred with ⟨other, rfl, ne⟩ | ⟨owed, member, rfl⟩
          · rcases agrees with missing | same
            · contradiction
            · exact Or.inl ⟨other, same.symm, ne⟩
          · rcases List.mem_cons.mp member with rfl | rest
            · rw [present] at found
              exact Or.inl ⟨digest, found, different⟩
            · exact Or.inr ⟨owed, rest, rfl⟩
  | answers pc looked =>
      exfalso
      generalize same : (Except.ok job.digest : Except StoreError Bytes) = answer at looked
      cases looked with
      | refused pc error other => contradiction
      | qualified canonical own qualified =>
          obtain rfl := Option.some.inj (own.symm.trans form)
          rw [answering, if_pos qualified, List.mem_singleton] at among
          subst among
          rw [published_eq_some, ← same] at found
          exact different (Except.ok.inj found).symm
      | ended canonical => contradiction
      | answered canonical answer =>
          obtain rfl := Except.ok.inj same
          rcases barred with ⟨other, same, ne⟩ | ⟨arch, member, _⟩
          · exact ne (Option.some.inj same).symm
          · simp at member
  | clears pc path located looked =>
      exfalso
      generalize same : (Except.error .notFound : Except StoreError Bytes) = answer at looked
      cases looked with
      | refused pc error other => exact other (Except.error.inj same).symm
      | qualified canonical own qualified =>
          obtain rfl := Option.some.inj (own.symm.trans form)
          rw [answering, if_pos qualified, List.mem_singleton] at among
          subst among
          rw [published_eq_some, ← same] at found
          contradiction
      | ended canonical =>
          rcases barred with ⟨other, same, ne⟩ | ⟨arch, member, _⟩
          · contradiction
          · simp at member
      | answered canonical answer => contradiction
  | links path => exact barred.elim
  | renames path tmpLink => exact barred.elim
  | undoes path tmpLink => exact barred.elim
  | creates path tmpLink => exact barred.elim

end Jobs

end CixCache
