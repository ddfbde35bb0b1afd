import CixCache.Server.Gate
import CixCache.Server.Immutability

/-!
Contract: no unsigned artifact is accepted while its signature is kept.

Owns: `SignaturePublished`; `AlwaysSigned`, what is asked of every 201 of a run;
`SignatureKept`, the condition on steps under which a run grants it (a gate that
a sibling answered lets nothing in, a DELETE takes no signature an upload in
flight was let in by); and the invariant that carries it, `UploadsSigned`.

The gate is passed when the headers arrive and the commit comes many events
later; nothing looks at the signature again.

Does not own: the lookup itself (`Server.Gate`).
-/

namespace CixCache

open CixCache.Lib

/-- The entry under the canonical form of the name and `.minisig` is published. -/
def SignaturePublished (files : Files) (name : Bytes) : Prop :=
  ∃ canonical digest, canonicalForm name = some canonical ∧
    published files (canonical ++ storeSigExt) = some digest

/-- At every 201 for a name that needs a signature, the signature is published. -/
def AlwaysSigned (conf : Conf) (sha : Sha256sum) (st : Store)
    (events : List (Sys × ServerEvent)) : Prop :=
  ∀ early event late name digest, events = early ++ event :: late →
    Created conf sha (run (serverStep conf sha) (.start st) early) event name digest →
    storeNeedsSignature conf.policy name = true →
    SignaturePublished
      (serverStep conf sha (run (serverStep conf sha) (.start st) early) event).store.files name

/-- Withdrawing one name takes the signature of another with it: it is that
signature, or a spelling of the artifact. -/
def TakesSignature (withdrawn name : Bytes) : Prop :=
  ∃ canonical, canonicalForm name = some canonical ∧
    (canonicalForm withdrawn = some (canonical ++ storeSigExt) ∨
      signatureOf withdrawn = some (canonical ++ storeSigExt))

/-- A PUT that passes the gate passes it by the signature's own entry, and a
DELETE takes no signature that an upload in flight needs. -/
def SignatureKept (conf : Conf) (server : Server) (event : Sys × ServerEvent) : Prop :=
  ∀ id req path, event.2 = .input id (.request req) → dispatchPath req = some path →
    (req.method = ascii "PUT" → storeNeedsSignature conf.policy (path.drop 1) = true →
      signatureFound server.store (path.drop 1) = true →
      SignaturePublished server.store.files (path.drop 1)) ∧
    (req.method = ascii "DELETE" → ∀ other conn, server.conns other = some conn →
      conn.InFlight → storeNeedsSignature conf.policy conn.upName = true →
      ¬ TakesSignature (path.drop 1) conn.upName)

/-- Every upload in flight that needs a signature has it. -/
def UploadsSigned (conf : Conf) (server : Server) : Prop :=
  ∀ id conn, server.conns id = some conn → conn.InFlight →
    storeNeedsSignature conf.policy conn.upName = true →
    SignaturePublished server.store.files conn.upName

/-! ## Uploads come from the gate -/

section Flight

variable {conf : Conf} {sha : Sha256sum} {server : Server} {event : Sys × ServerEvent}

theorem Answered.not_inFlight {before after : Conn} (answered : Answered before after) :
    ¬ after.InFlight := by
  obtain ⟨reply, _, rfl⟩ := answered
  intro flying
  rcases flying with receiving | hashing <;> contradiction

theorem finishUpload_not_inFlight (sha : Sha256sum) (sys : Sys) (st : Store) (conn : Conn) :
    ¬ (finishUpload sha sys st conn).2.InFlight := by
  intro flying
  cases finishUpload_outcome sha sys st conn with
  | failed reply status same =>
      rw [same] at flying
      rcases flying with receiving | hashing <;> contradiction
  | committed path digest owned hashed declared same =>
      rw [same] at flying
      rcases flying with receiving | hashing <;> contradiction

/-- A connection that is in flight was so before, for the same name, or its PUT
has just passed the gate. -/
theorem connStep_inFlight {sys : Sys} {st : Store} {importRunning : Bool} {conn : Conn}
    {input : Input}
    (flying : (connStep conf sha sys st importRunning conn input).conn.InFlight) :
    (conn.InFlight ∧
      (connStep conf sha sys st importRunning conn input).conn.upName = conn.upName) ∨
    ∃ req path, input = .request req ∧ req.method = ascii "PUT" ∧ dispatchPath req = some path ∧
      (connStep conf sha sys st importRunning conn input).conn.upName = path.drop 1 ∧
      (storeNeedsSignature conf.policy (path.drop 1) = true →
        signatureFound st (path.drop 1) = true) := by
  cases connStep_outcome conf sha sys st importRunning conn input with
  | idle store same =>
      rw [same] at flying ⊢
      exact Or.inl ⟨flying, rfl⟩
  | answered store answer => exact absurd flying answer.not_inFlight
  | dispatched req requested state outcome =>
      cases outcome with
      | answered store answer => exact absurd flying answer.not_inFlight
      | withdrawn path named method store answer => exact absurd flying answer.not_inFlight
      | collected dryRun asked store answer => exact absurd flying answer.not_inFlight
      | uploaded path named method store begun =>
          cases beginUpload_outcome conf sys st conn req (path.drop 1) with
          | refused refusal other same =>
              rw [begun, same] at flying
              rcases flying with receiving | hashing <;> contradiction
          | staged digest declared digestValid nameValid positive signed same =>
              obtain ⟨_, continues, _⟩ := stageUpload_conn sys st conn req (path.drop 1) digest
              refine Or.inr ⟨req, path, requested, method, named, ?_, signed⟩
              rw [begun, same]
              exact continues.name
  | received bytes state store wrote =>
      have before : conn.InFlight := Or.inl state
      rw [wrote]
      exact Or.inl ⟨before, (recvBody_conn before sys st bytes).name⟩
  | finished state store done =>
      rw [done] at flying
      exact absurd flying (finishUpload_not_inFlight sha sys st conn)

theorem serverStep_inFlight {id : Nat} {conn : Conn}
    (present : (serverStep conf sha server event).conns id = some conn)
    (flying : conn.InFlight) :
    (∃ before, server.conns id = some before ∧ before.InFlight ∧ conn.upName = before.upName) ∨
    ∃ req path, event.2 = .input id (.request req) ∧ req.method = ascii "PUT" ∧
      dispatchPath req = some path ∧ conn.upName = path.drop 1 ∧
      (storeNeedsSignature conf.policy (path.drop 1) = true →
        signatureFound server.store (path.drop 1) = true) := by
  by_cases target : event.2.target = some id
  · obtain ⟨sys, woken⟩ := event
    cases woken with
    | importExit => contradiction
    | accept other =>
        obtain rfl := Option.some.inj target
        unfold serverStep at present
        dsimp only at present
        split at present
        next before there => exact Or.inl ⟨conn, present, flying, rfl⟩
        next =>
          dsimp only at present
          rw [Function.update_self] at present
          rw [← Option.some.inj present] at flying
          rcases flying with receiving | hashing <;> contradiction
    | close other =>
        obtain rfl := Option.some.inj target
        unfold serverStep at present
        dsimp only at present
        split at present
        next gone =>
          rw [gone] at present
          contradiction
        next =>
          dsimp only at present
          rw [Function.update_self] at present
          contradiction
    | input other input =>
        obtain rfl := Option.some.inj target
        cases there : server.conns other with
        | none =>
            unfold serverStep at present
            dsimp only at present
            rw [there] at present
            dsimp only at present
            rw [there] at present
            contradiction
        | some before =>
            have woken : (sys, ServerEvent.input other input).2 = .input other input := rfl
            rw [serverStep_input conf sha woken there] at present
            dsimp only at present
            rw [Function.update_self] at present
            obtain rfl := Option.some.inj present
            rcases connStep_inFlight flying with ⟨already, same⟩ | passed
            · exact Or.inl ⟨before, rfl, already, same⟩
            · obtain ⟨req, path, rfl, facts⟩ := passed
              exact Or.inr ⟨req, path, rfl, facts⟩
  · rw [serverStep_conns_of_ne target] at present
    exact Or.inl ⟨conn, present, flying, rfl⟩

end Flight

/-! ## The invariant -/

section Invariant

variable {conf : Conf} {sha : Sha256sum} {server : Server} {event : Sys × ServerEvent}

/-- A published signature stays unless a DELETE takes it. -/
theorem SignaturePublished.step {name : Bytes} (sound : server.Sound)
    (signed : SignaturePublished server.store.files name)
    (kept : ∀ id req path, event.2 = .input id (.request req) → dispatchPath req = some path →
      req.method = ascii "DELETE" → ¬ TakesSignature (path.drop 1) name) :
    SignaturePublished (serverStep conf sha server event).store.files name := by
  obtain ⟨canonical, digest, form, found⟩ := signed
  refine ⟨canonical, digest, form, ?_⟩
  cases serverStep_effect conf sha sound event with
  | kept packages => rw [published_congr (congrFun packages _), found]
  | withdrawn id req path requested method named store =>
      have spared := kept id req path requested named method
      have untouched : packagesOf (serverStep conf sha server event).store.files
          (canonical ++ storeSigExt) = packagesOf server.store.files (canonical ++ storeSigExt) := by
        rw [store]
        apply storeUnpublish_of_ne
        · exact fun own => spared ⟨canonical, form, Or.inl own⟩
        · exact fun sig => spared ⟨canonical, form, Or.inr sig⟩
      rw [published_congr untouched, found]
  | linked id conn target linked present state targetForm valid free packages =>
      have absent : packagesOf server.store.files target = none :=
        (storeResolve_notFound targetForm free).1
      have grows := grows_link absent valid
      rw [← packages] at grows
      exact grows.published found

theorem serverStep_uploadsSigned (sound : server.Sound) (signed : UploadsSigned conf server)
    (kept : SignatureKept conf server event) :
    UploadsSigned conf (serverStep conf sha server event) := by
  intro id conn present flying needs
  rcases serverStep_inFlight present flying with old | new
  · obtain ⟨before, there, already, same⟩ := old
    rw [same] at needs ⊢
    apply (signed id before there already needs).step sound
    intro other req path requested named method
    exact (kept other req path requested named).2 method id before there already needs
  · obtain ⟨req, path, requested, method, named, same, lookup⟩ := new
    rw [same] at needs ⊢
    apply ((kept id req path requested named).1 method needs (lookup needs)).step sound
    -- The event is this PUT and no DELETE.
    intro other another _ requestedAnother _ deletes
    have inputs := (ServerEvent.input.inj (requested.symm.trans requestedAnother)).2
    rw [← Input.request.inj inputs, method] at deletes
    exact absurd deletes (by decide)

/-- While signatures are kept, every 201 for a name that needs one is given with
the signature published. -/
theorem alwaysSigned (conf : Conf) (sha : Sha256sum) (st : Store)
    {events : List (Sys × ServerEvent)}
    (kept : Along (SignatureKept conf) (serverStep conf sha) (.start st) events) :
    AlwaysSigned conf sha st events := by
  intro early event late name digest shape created needs
  rw [shape, along_append] at kept
  obtain ⟨before, now, _⟩ := kept
  have start : (Server.start st).Sound ∧ UploadsSigned conf (.start st) := by
    refine ⟨Server.sound_start st, ?_⟩
    intro id conn present
    contradiction
  obtain ⟨sound, signed⟩ := run_invariant
    (motive := fun server : Server => server.Sound ∧ UploadsSigned conf server)
    (fun _ _ held step => ⟨serverStep_sound held.1, serverStep_uploadsSigned held.1 held.2 step⟩)
    start before
  obtain ⟨id, conn, tmp, present, same, _, commits⟩ := created.committed sound
  rw [← same] at needs ⊢
  apply (signed id conn present (Or.inr commits.state) needs).step sound
  intro other req path requested named method
  exact (now other req path requested named).2 method id conn present (Or.inr commits.state) needs

theorem signatureKept_of_other (other : ∀ id req, event.2 ≠ .input id (.request req)) :
    SignatureKept conf server event :=
  fun id req _ requested _ => absurd requested (other id req)

/-- A PUT keeps signatures when the one it needs is published. -/
theorem signatureKept_of_put {id : Nat} {req : HttpRequest} (path : Bytes)
    (requested : event.2 = .input id (.request req)) (method : req.method = ascii "PUT")
    (named : dispatchPath req = some path)
    (signed : storeNeedsSignature conf.policy (path.drop 1) = true →
      SignaturePublished server.store.files (path.drop 1)) : SignatureKept conf server event := by
  intro other another target requestedAnother namedAnother
  obtain rfl := Input.request.inj
    (ServerEvent.input.inj (requested.symm.trans requestedAnother)).2
  obtain rfl := Option.some.inj (named.symm.trans namedAnother)
  refine ⟨fun _ needs _ => signed needs, fun deletes => ?_⟩
  rw [method] at deletes
  exact absurd deletes (by decide)

end Invariant

/-! ### A signature deleted while the body is hashed -/

/-- The signature is pushed, the installer's headers pass the gate, and the
signature is deleted. -/
def hashingEvents : List (Sys × ServerEvent) :=
  calmly (putEvents 0 (ascii "foo-1-1.iso.minisig") (ascii "a") ++
    [.accept 1,
      .input 1 (.request (putRequest (ascii "foo-1-1.iso")
        (Sha256sum.sample.digest (ascii "b")) (ascii "b"))),
      .accept 2, .input 2 (.request (deleteRequest (ascii "foo-1-1.iso.minisig")))])

/-- The hash child of the installer reports. -/
def hashedEvent : Sys × ServerEvent := (Sys.succeeding fun _ => none, .input 1 .hashed)

/-- The installer is answered 201 though its signature is gone. -/
theorem deleted_signature_accepted :
    ¬ AlwaysSigned .sample .sample (Store.holding [] []) (hashingEvents ++ [hashedEvent]) := by
  intro always
  obtain ⟨waiting, answered, gone⟩ :
      ((run (serverStep .sample .sample) (.start (Store.holding [] [])) hashingEvents).conns 1).map
          Conn.status = some none ∧
        ((serverStep .sample .sample
          (run (serverStep .sample .sample) (.start (Store.holding [] [])) hashingEvents)
          hashedEvent).conns 1).map (fun conn => (conn.status, conn.upName, conn.upDigest)) =
            some (some 201, ascii "foo-1-1.iso", Sha256sum.sample.digest (ascii "b")) ∧
        published (serverStep .sample .sample
          (run (serverStep .sample .sample) (.start (Store.holding [] [])) hashingEvents)
          hashedEvent).store.files (ascii "foo-1-1.iso" ++ storeSigExt) = none := by
    decide +kernel
  have created := created_of_answers 1 waiting answered
  obtain ⟨canonical, digest, form, found⟩ :=
    always hashingEvents hashedEvent [] _ _ rfl created (by decide +kernel)
  have own : canonicalForm (ascii "foo-1-1.iso") = some (ascii "foo-1-1.iso") := by
    decide +kernel
  obtain rfl := Option.some.inj (own.symm.trans form)
  exact absurd (gone.symm.trans found) (by simp)

/-- A store with the signature of an installer that is still to be pushed. -/
def signatureStore : Store :=
  Store.holding [(ascii "foo-1-1.iso.minisig", List.replicate 64 97)] []

/-- The installer is then accepted with its signature. -/
theorem signed_installer_accepted :
    AlwaysSigned .sample .sample signatureStore
      (calmly (putEvents 0 (ascii "foo-1-1.iso") (ascii "b"))) := by
  apply alwaysSigned
  refine ⟨signatureKept_of_other ?_, ?_, signatureKept_of_other ?_, trivial⟩
  · intro id req
    exact ServerEvent.noConfusion
  · apply signatureKept_of_put (slash :: ascii "foo-1-1.iso") rfl rfl
    · decide +kernel
    · intro _
      exact ⟨ascii "foo-1-1.iso", List.replicate 64 97, by decide +kernel, by decide +kernel⟩
  · intro id req same
    exact absurd (ServerEvent.input.inj same).2 (by simp)

end CixCache
