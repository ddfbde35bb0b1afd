import CixCache.Server.Reactor
import CixCache.Store.Spelling

/-!
Contract: a published name only ever means one byte sequence.

Owns: `Grows`, the order in which packages/ changes while nothing is deleted;
what it does to resolution; and the theorem on every run of the reactor without
a DELETE.

Does not own: the steps (`Server.Reactor`).
-/

namespace CixCache

open CixCache.Lib

/-! ## Growing entries -/

/-- Every name keeps its node, or is newly linked to a blob. -/
def Grows (before after : Bytes → Option Node) : Prop :=
  ∀ name, after name = before name ∨
    before name = none ∧ ∃ digest, storeDigestIsValid digest = true ∧
      after name = some (.symlink (blobTarget digest))

theorem Grows.refl (entries : Bytes → Option Node) : Grows entries entries :=
  fun _ => Or.inl rfl

theorem Grows.trans {first second third : Bytes → Option Node}
    (left : Grows first second) (right : Grows second third) : Grows first third := by
  intro name
  rcases right name with same | ⟨absent, digest, valid, linked⟩
  · rw [same]
    exact left name
  · rcases left name with same | ⟨_, other, _, there⟩
    · rw [same] at absent
      exact Or.inr ⟨absent, digest, valid, linked⟩
    · rw [there] at absent
      contradiction

theorem grows_link {entries : Bytes → Option Node} {canonical digest : Bytes}
    (absent : entries canonical = none) (valid : storeDigestIsValid digest = true) :
    Grows entries (Function.update entries canonical (some (.symlink (blobTarget digest)))) := by
  intro name
  by_cases same : name = canonical
  · rw [same, Function.update_self]
    exact Or.inr ⟨absent, digest, valid, rfl⟩
  · rw [Function.update_of_ne same]
    exact Or.inl rfl

section Resolution

variable {st after : Store} {name canonical digest : Bytes}

/-- What a name is linked to stays. -/
theorem Grows.published (grows : Grows (packagesOf st.files) (packagesOf after.files))
    (found : published st.files name = some digest) :
    published after.files name = some digest := by
  rcases grows name with same | ⟨absent, _⟩
  · rw [published_congr same, found]
  · rw [published_of_absent absent] at found
    contradiction

theorem Grows.readable (grows : Grows (packagesOf st.files) (packagesOf after.files))
    (readable : resolvePath st.files (.packages name) ≠ .error .io) :
    resolvePath after.files (.packages name) ≠ .error .io := by
  rcases grows name with same | ⟨_, digest, valid, linked⟩
  · have node : after.files (.packages name) = st.files (.packages name) := same
    unfold resolvePath at readable ⊢
    rw [node]
    exact readable
  · rw [resolvePath_blobTarget valid linked]
    simp

/-- A name that resolves keeps its digest, or more candidates make it ambiguous. -/
theorem storeResolve_grows (grows : Grows (packagesOf st.files) (packagesOf after.files))
    (resolved : storeResolve st name = .ok digest) :
    storeResolve after name = .ok digest ∨ storeResolve after name = .error .ambiguous := by
  cases form : canonicalForm name with
  | none =>
      rw [storeResolve_of_none form] at resolved
      contradiction
  | some canonical =>
      cases arch : storeArchOf canonical with
      | some word =>
          have qualified : (storeArchOf canonical).isSome := by rw [arch]; rfl
          rw [storeResolve_qualified form qualified] at resolved ⊢
          exact Or.inl (published_eq_some.mp (grows.published (published_eq_some.mpr resolved)))
      | none =>
          obtain ⟨readable, _, _⟩ := candidates_of_storeResolve form arch resolved
          rw [storeResolve_bare form arch readable] at resolved
          rw [storeResolve_bare form arch (grows.readable readable)]
          -- Every candidate of before is a candidate of after.
          have kept : ∀ candidate ∈ candidates st.files canonical,
              ∃ other ∈ candidates after.files canonical, other.2 = candidate.2 := by
            intro candidate member
            obtain ⟨named, found⟩ := mem_candidates.mp member
            exact ⟨candidate, mem_candidates.mpr ⟨named, grows.published found⟩, rfl⟩
          cases verdict : settle (candidates st.files canonical) with
          | absent =>
              rw [verdict] at resolved
              contradiction
          | ambiguous =>
              rw [verdict] at resolved
              contradiction
          | one key value =>
              rw [verdict] at resolved
              rcases settle_mono kept verdict with ⟨other, same⟩ | split
              · rw [same]
                exact Or.inl resolved
              · rw [split]
                exact Or.inr rfl

end Resolution

/-! ## Runs without a DELETE -/

/-- A request with the method DELETE. -/
def isDelete : ServerEvent → Bool
  | .input _ (.request req) => req.method == ascii "DELETE"
  | _ => false

section Runs

variable {conf : Conf} {sha : Sha256sum} {server : Server} {event : Sys × ServerEvent}

theorem serverStep_grows (sound : server.Sound) (kept : isDelete event.2 = false) :
    Grows (packagesOf server.store.files)
      (packagesOf (serverStep conf sha server event).store.files) := by
  cases serverStep_effect conf sha sound event with
  | kept packages =>
      rw [packages]
      exact Grows.refl _
  | withdrawn id req path requested method named store =>
      rw [requested] at kept
      exact absurd method (by simpa [isDelete] using kept)
  | linked id conn canonical digest present state form valid free packages =>
      rw [packages]
      exact grows_link (storeResolve_notFound form free).1 valid

theorem run_grows (sound : server.Sound) {events : List (Sys × ServerEvent)}
    (kept : ∀ event ∈ events, isDelete event.2 = false) :
    Grows (packagesOf server.store.files)
      (packagesOf (run (serverStep conf sha) server events).store.files) := by
  have along : Along (fun _ event => isDelete event.2 = false) (serverStep conf sha) server
      events :=
    along_of_forall fun event member _ => kept event member
  exact run_relates (motive := Server.Sound)
    (fun before after => Grows (packagesOf before.store.files) (packagesOf after.store.files))
    (fun _ => Grows.refl _) Grows.trans (fun _ _ sound _ => serverStep_sound sound)
    (fun _ _ sound kept => serverStep_grows sound kept) sound along

/-- The digest a 201 was given for is what its name resolves to. -/
theorem Created.resolves (sound : server.Sound) {name digest : Bytes}
    (created : Created conf sha server event name digest) :
    storeResolve (serverStep conf sha server event).store name = .ok digest := by
  obtain ⟨id, conn, tmp, _, rfl, rfl, commits⟩ := created.committed sound
  rw [commits.store]
  exact (commitUpload_outcome event.1 server.store tmp _ _).resolves commits.status

/-- A 201 is given only where its name resolved to the same digest or to nothing. -/
theorem Created.before (sound : server.Sound) {name digest : Bytes}
    (created : Created conf sha server event name digest) :
    storeResolve server.store name = .ok digest ∨
      storeResolve server.store name = .error .notFound := by
  obtain ⟨id, conn, tmp, _, rfl, rfl, commits⟩ := created.committed sound
  cases commitUpload_outcome event.1 server.store tmp conn.upName conn.upDigest with
  | refused status packages => exact absurd commits.status status
  | kept status resolved packages => exact Or.inl resolved
  | linked canonical status form valid free packages => exact Or.inr free

/-- While nothing is deleted a name that resolves keeps its digest or turns
ambiguous, and all the PUTs of one canonical name that were answered 201
declared one digest. -/
theorem published_name_one_meaning (conf : Conf) (sha : Sha256sum) (st : Store)
    {before after : List (Sys × ServerEvent)} (kept : ∀ event ∈ after, isDelete event.2 = false) :
    (∀ early late rest name digest, after = early ++ late ++ rest →
      storeResolve (run (serverStep conf sha) (.start st) (before ++ early)).store name =
        .ok digest →
      storeResolve (run (serverStep conf sha) (.start st) (before ++ early ++ late)).store name =
          .ok digest ∨
        storeResolve (run (serverStep conf sha) (.start st) (before ++ early ++ late)).store name =
          .error .ambiguous) ∧
    ∀ early first late second rest one two declared other,
      after = early ++ first :: late ++ second :: rest →
      Created conf sha (run (serverStep conf sha) (.start st) (before ++ early)) first one declared →
      Created conf sha (run (serverStep conf sha) (.start st) (before ++ early ++ first :: late))
        second two other →
      (∃ canonical, canonicalForm one = some canonical ∧ canonicalForm two = some canonical) →
      declared = other := by
  have sound : ∀ events, (run (serverStep conf sha) (.start st) events).Sound :=
    fun events => run_sound conf sha (Server.sound_start st) events
  have grows : ∀ events more, (∀ event ∈ more, isDelete event.2 = false) →
      Grows (packagesOf (run (serverStep conf sha) (.start st) events).store.files)
        (packagesOf (run (serverStep conf sha) (.start st) (events ++ more)).store.files) := by
    intro events more undeleted
    rw [run_append]
    exact run_grows (sound events) undeleted
  constructor
  · intro early late rest name digest shape resolved
    apply storeResolve_grows _ resolved
    apply grows
    intro event member
    apply kept
    rw [shape]
    simp [member]
  · intro early first late second rest one two declared other shape firstCreated secondCreated form
    obtain ⟨canonical, formOne, formTwo⟩ := form
    -- Right after the first 201 both names resolve to what it declared.
    have resolved := firstCreated.resolves (sound _)
    rw [storeResolve_canonical formOne, ← storeResolve_canonical formTwo] at resolved
    have later : Grows
        (packagesOf (serverStep conf sha
          (run (serverStep conf sha) (.start st) (before ++ early)) first).store.files)
        (packagesOf (run (serverStep conf sha) (.start st)
          (before ++ early ++ first :: late)).store.files) := by
      rw [run_append _ _ (before ++ early), run_cons]
      apply run_grows (serverStep_sound (sound _))
      intro event member
      apply kept
      rw [shape]
      simp [member]
    rcases secondCreated.before (sound _) with same | free
    · rcases storeResolve_grows later resolved with still | split
      · exact Except.ok.inj (still.symm.trans same)
      · rw [same] at split
        contradiction
    · rcases storeResolve_grows later resolved with still | split
      · rw [free] at still
        contradiction
      · rw [free] at split
        contradiction

end Runs

/-! ### Two spellings pushed at once -/

/-- Two connections push the same bytes under two spellings; their steps alternate. -/
def aliasEvents : List (Sys × ServerEvent) :=
  calmly [.accept 0, .accept 1,
    .input 0 (.request (putRequest (ascii "foo-1.tar.gz")
      (Sha256sum.sample.digest (ascii "a")) (ascii "a"))),
    .input 1 (.request (putRequest (ascii "foo-1-1.tar.gz")
      (Sha256sum.sample.digest (ascii "a")) (ascii "a"))),
    .input 0 .hashed, .input 1 .hashed]

/-- After the first commit the name means one digest to the end. -/
theorem alias_keeps_digest :
    storeResolve (run (serverStep .sample .sample) (.start (Store.holding [] [])) aliasEvents).store
        (ascii "foo-1.tar.gz") = .ok (Sha256sum.sample.digest (ascii "a")) ∨
      storeResolve
        (run (serverStep .sample .sample) (.start (Store.holding [] [])) aliasEvents).store
        (ascii "foo-1.tar.gz") = .error .ambiguous := by
  have kept : ∀ event ∈ aliasEvents, isDelete event.2 = false := by
    decide +kernel
  apply (@published_name_one_meaning Conf.sample Sha256sum.sample (Store.holding [] []) []
    aliasEvents kept).1 (aliasEvents.take 5) (aliasEvents.drop 5) []
  · simp
  · decide +kernel
end CixCache
