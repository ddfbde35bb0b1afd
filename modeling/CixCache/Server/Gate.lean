import CixCache.Server.Reactor
import CixCache.Store.Spelling

/-!
Contract: the signature gate of a PUT after the artifact was withdrawn.

Owns: `signatureFound` in terms of entries; `GateClosed`, the gate refusing
every PUT of a name; `SiblingSignature`, the entries that answer for a signature
that is not there; and their opposition in every state between a withdrawal and
the next publication of the signature.

The lookup of the gate goes through resolution, which entries with an
architecture may answer; a withdrawal unlinks one path.

Does not own: uploads that passed the gate already.
-/

namespace CixCache

open CixCache.Lib

/-- The gate's lookup fails, and every PUT of the name is refused. -/
def GateClosed (conf : Conf) (st : Store) (name : Bytes) : Prop :=
  signatureFound st name = false ∧
    ∀ sys conn req, ∃ reply, reply.status ≠ 201 ∧
      beginUpload conf sys st conn req name = (st, conn.respond reply)

/-- The signature of a bare name is published for some machines, with one digest
for all of them. -/
def SiblingSignature (files : Files) (name : Bytes) : Prop :=
  ∃ sig, signatureOf name = some sig ∧ storeArchOf sig = none ∧
    ∃ digest, (∃ arch ∈ gArches, published files (archProbe sig arch) = some digest) ∧
      ∀ arch ∈ gArches, ∀ other, published files (archProbe sig arch) = some other →
        other = digest

/-- The entry of the signature that goes with a name. -/
def signatureEntry (files : Files) (name : Bytes) : Option Node :=
  (signatureOf name).bind (packagesOf files)

/-- A step that publishes the signature of a name. -/
def PublishesSignature (conf : Conf) (sha : Sha256sum) (name : Bytes) (server : Server)
    (event : Sys × ServerEvent) : Prop :=
  signatureEntry server.store.files name = none ∧
    signatureEntry (serverStep conf sha server event).store.files name ≠ none

/-! ## The lookup -/

section Lookup

variable {st : Store} {name sig : Bytes}

/-- The lookup resolves the canonical name of the signature. -/
theorem signatureFound_iff :
    signatureFound st name = true ↔
      ∃ sig digest, signatureOf name = some sig ∧ storeResolve st sig = .ok digest := by
  unfold signatureFound signatureOf
  cases storeSignatureName name with
  | none => simp
  | some raw =>
      rw [Option.bind_some]
      dsimp only
      cases form : canonicalForm raw with
      | none =>
          rw [storeResolve_of_none form]
          simp
      | some sig =>
          rw [storeResolve_canonical form]
          cases resolved : storeResolve st sig with
          | ok digest => simp [resolved]
          | error error => simp [resolved]

theorem signatureOf_fixed (found : signatureOf name = some sig) :
    canonicalForm sig = some sig := by
  obtain ⟨raw, _, form⟩ := Option.bind_eq_some_iff.mp found
  exact canonicalForm_fixed form

/-- An absent bare entry resolves by the entries with an architecture. -/
theorem storeResolve_sibling (fixed : canonicalForm sig = some sig) (bare : storeArchOf sig = none)
    (absent : packagesOf st.files sig = none) {digest : Bytes} :
    storeResolve st sig = .ok digest ↔
      (∃ arch ∈ gArches, published st.files (archProbe sig arch) = some digest) ∧
        ∀ arch ∈ gArches, ∀ other, published st.files (archProbe sig arch) = some other →
          other = digest := by
  have missing : published st.files sig = none := published_of_absent absent
  have member : ∀ key value, (key, value) ∈ candidates st.files sig ↔
      (∃ arch ∈ gArches, key = archProbe sig arch) ∧ published st.files key = some value := by
    intro key value
    rw [mem_candidates, mem_probeNames]
    constructor
    · intro facts
      obtain ⟨own | probe, found⟩ := facts
      · rw [own, missing] at found
        contradiction
      · exact ⟨probe, found⟩
    · intro facts
      exact ⟨Or.inr facts.1, facts.2⟩
  constructor
  · intro resolved
    obtain ⟨_, some, agree⟩ := candidates_of_storeResolve fixed bare resolved
    constructor
    · obtain ⟨candidate, inside⟩ := List.exists_mem_of_ne_nil _ some
      obtain ⟨⟨arch, known, same⟩, found⟩ := (member candidate.1 candidate.2).mp inside
      rw [agree candidate inside, same] at found
      exact ⟨arch, known, found⟩
    · intro arch known other found
      exact agree (archProbe sig arch, other) ((member _ _).mpr ⟨⟨arch, known, rfl⟩, found⟩)
  · intro facts
    obtain ⟨⟨arch, known, found⟩, agree⟩ := facts
    apply storeResolve_of_agree fixed bare
    · rw [resolvePath_notFound.mpr absent]
      simp
    · exact List.ne_nil_of_mem ((member _ _).mpr ⟨⟨arch, known, rfl⟩, found⟩)
    · intro candidate inside
      obtain ⟨⟨word, wordKnown, same⟩, candidateFound⟩ :=
        (member candidate.1 candidate.2).mp inside
      rw [same] at candidateFound
      exact agree word wordKnown _ candidateFound

/-- Without its own entry a signature is found exactly through its siblings. -/
theorem signatureFound_iff_sibling (absent : signatureEntry st.files name = none) :
    signatureFound st name = true ↔ SiblingSignature st.files name := by
  rw [signatureFound_iff]
  constructor
  · intro lookup
    obtain ⟨sig, digest, found, resolved⟩ := lookup
    have fixed := signatureOf_fixed found
    have missing : packagesOf st.files sig = none := by
      simpa [signatureEntry, found] using absent
    cases arch : storeArchOf sig with
    | some word =>
        rw [storeResolve_qualified fixed (by rw [arch]; rfl),
          resolvePath_notFound.mpr missing] at resolved
        contradiction
    | none =>
        exact ⟨sig, found, arch, digest, (storeResolve_sibling fixed arch missing).mp resolved⟩
  · intro sibling
    obtain ⟨sig, found, bare, digest, facts⟩ := sibling
    have missing : packagesOf st.files sig = none := by
      simpa [signatureEntry, found] using absent
    exact ⟨sig, digest, found,
      (storeResolve_sibling (signatureOf_fixed found) bare missing).mpr facts⟩

end Lookup

/-! ## After a withdrawal -/

section Withdrawn

variable {conf : Conf} {sha : Sha256sum} {sys : Sys} {st : Store} {name : Bytes}
  {server : Server} {events : List (Sys × ServerEvent)}

/-- A withdrawal that answers OK or NOT_FOUND leaves no signature. -/
theorem signatureEntry_withdrawn
    (answered : (storeUnpublish sys st name).result = .ok () ∨
      (storeUnpublish sys st name).result = .error .notFound) :
    signatureEntry (storeUnpublish sys st name).store.files name = none := by
  cases form : canonicalForm name with
  | none =>
      rw [storeUnpublish_of_none form] at answered
      simp at answered
  | some canonical =>
      have notIo : (storeUnpublish sys st name).result ≠ .error .io := by
        rcases answered with ok | missing
        · rw [ok]
          simp
        · rw [missing]
          simp
      unfold signatureEntry
      cases found : signatureOf name with
      | none => rfl
      | some sig =>
          rw [Option.bind_some, storeUnpublish_answered form notIo, found, signatureOf_some form found]
          unfold withdraw
          dsimp only
          rw [Function.update_of_ne (signature_ne canonical), Function.update_self]

/-- It stays absent until a step publishes it. -/
theorem signatureEntry_run (absent : signatureEntry server.store.files name = none)
    (unpublished : Along (fun server event => ¬ PublishesSignature conf sha name server event)
      (serverStep conf sha) server events) :
    signatureEntry (run (serverStep conf sha) server events).store.files name = none := by
  refine run_invariant
    (motive := fun reached : Server => signatureEntry reached.store.files name = none) ?_ absent
    unpublished
  intro reached event held unpublishing
  by_contra present
  exact unpublishing ⟨held, present⟩

/-- After a withdrawal, and until the signature is published again, the gate is
closed exactly in the states where no sibling answers for the signature. -/
theorem gateClosed_iff (needs : storeNeedsSignature conf.policy name = true)
    (answered : (storeUnpublish sys st name).result = .ok () ∨
      (storeUnpublish sys st name).result = .error .notFound)
    (withdrawn : server.store = (storeUnpublish sys st name).store)
    (unpublished : Along (fun server event => ¬ PublishesSignature conf sha name server event)
      (serverStep conf sha) server events) :
    GateClosed conf (run (serverStep conf sha) server events).store name ↔
      ¬ SiblingSignature (run (serverStep conf sha) server events).store.files name := by
  have absent := signatureEntry_withdrawn answered
  rw [← withdrawn] at absent
  have lookup := signatureFound_iff_sibling (signatureEntry_run absent unpublished)
  constructor
  · intro closed sibling
    have found := lookup.mpr sibling
    rw [closed.1] at found
    contradiction
  · intro alone
    have missing : signatureFound (run (serverStep conf sha) server events).store name = false := by
      rw [← Bool.not_eq_true]
      exact mt lookup.mp alone
    exact ⟨missing, fun sys conn req => beginUpload_unsigned sys conn req needs missing⟩

end Withdrawn

/-! ### The signature of another machine's installer -/

/-- A server on an empty root after one signature was pushed. -/
def siblingServer : Server :=
  run (serverStep .sample .sample) (.start (Store.holding [] []))
    (calmly (putEvents 0 (ascii "foo-1-1-x86_64.iso.minisig") (ascii "a")))

/-- A bare installer nobody signed passes the gate right after its withdrawal. -/
theorem sibling_opens_gate :
    storeNeedsSignature initialPolicy (ascii "foo-1-1.iso") = true ∧
      (storeUnpublish (Sys.succeeding fun _ => none) siblingServer.store
        (ascii "foo-1-1.iso")).result = .error .notFound ∧
      signatureEntry (storeUnpublish (Sys.succeeding fun _ => none) siblingServer.store
        (ascii "foo-1-1.iso")).store.files (ascii "foo-1-1.iso") = none ∧
      ¬ GateClosed .sample (storeUnpublish (Sys.succeeding fun _ => none) siblingServer.store
        (ascii "foo-1-1.iso")).store (ascii "foo-1-1.iso") := by
  obtain ⟨needed, missing, unsigned, opened⟩ :
      storeNeedsSignature initialPolicy (ascii "foo-1-1.iso") = true ∧
        (storeUnpublish (Sys.succeeding fun _ => none) siblingServer.store
          (ascii "foo-1-1.iso")).result = .error .notFound ∧
        signatureEntry (storeUnpublish (Sys.succeeding fun _ => none) siblingServer.store
          (ascii "foo-1-1.iso")).store.files (ascii "foo-1-1.iso") = none ∧
        signatureFound (storeUnpublish (Sys.succeeding fun _ => none) siblingServer.store
          (ascii "foo-1-1.iso")).store (ascii "foo-1-1.iso") = true := by
    decide +kernel
  refine ⟨needed, missing, unsigned, ?_⟩
  intro closed
  exact absurd (closed.1.symm.trans opened) (by simp)

/-- A store with an installer and its signature. -/
def signedInstaller : Store :=
  Store.holding
    [(ascii "foo-1-1.iso", List.replicate 64 97), (ascii "foo-1-1.iso.minisig", List.replicate 64 98)]
    []

/-- The server that deleted the installer. -/
def withdrawnServer : Server :=
  .start (storeUnpublish (Sys.succeeding fun _ => none) signedInstaller (ascii "foo-1-1.iso")).store

/-- With no sibling about, the gate stays closed through another push. -/
theorem gate_closed_after_delete :
    GateClosed .sample
      (run (serverStep .sample .sample) withdrawnServer
        (calmly (putEvents 0 (ascii "foo-1-1.iso") (ascii "b")))).store (ascii "foo-1-1.iso") := by
  obtain ⟨needed, withdrawn, derived, unpublished, unsigned⟩ :
      storeNeedsSignature Conf.sample.policy (ascii "foo-1-1.iso") = true ∧
        (storeUnpublish (Sys.succeeding fun _ => none) signedInstaller
          (ascii "foo-1-1.iso")).result = .ok () ∧
        signatureOf (ascii "foo-1-1.iso") = some (ascii "foo-1-1.iso.minisig") ∧
        (∀ arch ∈ gArches, published
          (run (serverStep .sample .sample) withdrawnServer
            (calmly (putEvents 0 (ascii "foo-1-1.iso") (ascii "b")))).store.files
          (archProbe (ascii "foo-1-1.iso.minisig") arch) = none) ∧
        Along (fun server event =>
            ¬ PublishesSignature .sample .sample (ascii "foo-1-1.iso") server event)
          (serverStep .sample .sample) withdrawnServer
          (calmly (putEvents 0 (ascii "foo-1-1.iso") (ascii "b"))) := by
    unfold PublishesSignature
    decide +kernel
  apply (gateClosed_iff needed (Or.inl withdrawn) rfl unsigned).mpr
  intro sibling
  obtain ⟨sig, found, _, digest, ⟨arch, known, answers⟩, _⟩ := sibling
  obtain rfl := Option.some.inj (found.symm.trans derived)
  rw [unpublished arch known] at answers
  exact absurd answers (by simp)

end CixCache
