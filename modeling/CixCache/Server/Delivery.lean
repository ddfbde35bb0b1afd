import CixCache.Server.Reactor

/-!
Contract: an upload is all or nothing.

Owns: what staging, hashing and committing leave when the calls succeed; the
bytes an upload received, as a function of its events; `UploadPhase`, how far an
upload has come and what the store owes to it; and the theorem on every run of
one connection's events.

Does not own: other connections (`Server.Immutability`, `Server.Signed`).
-/

namespace CixCache

open CixCache.Lib

/-! ## Steps whose calls succeed -/

section Succeeding

variable {sha : Sha256sum} {sys : Sys} {st : Store} {conn : Conn} {req : HttpRequest}
  {name digest : Bytes} {tmp : TmpName} {content : Bytes}

theorem hashWhenComplete_of_succeeds (succeeds : sys.Succeeds) (conn : Conn) :
    hashWhenComplete sys conn =
      if conn.upExpect ≤ conn.upReceived then
        { conn with upFd := false, child := .watched, state := .hashing }
      else conn := by
  unfold hashWhenComplete
  rw [startHashChild_of_succeeds succeeds]

/-- The staged file holds the body bytes that came with the headers. -/
theorem stageUpload_of_succeeds (succeeds : sys.Succeeds) (st : Store) (conn : Conn)
    (req : HttpRequest) (name digest : Bytes) :
    stageUpload sys st conn req name digest =
      ({ st with
          tmpCounter := st.tmpCounter + 1
          files := Function.update st.files (.tmp (.up st.pid st.tmpCounter))
            (some (.regular req.body)) },
        hashWhenComplete sys
          { conn with
            state := .recvBody, upFd := true
            upPath := some (.tmp (.up st.pid st.tmpCounter)), upDigest := digest, upName := name
            upExpect := req.contentLength, upReceived := req.body.length }) := by
  have created : create sys st.files (.tmp (.up st.pid st.tmpCounter)) =
      some (Function.update st.files (.tmp (.up st.pid st.tmpCounter)) (some (.regular []))) := by
    unfold create
    rw [if_pos (succeeds _)]
  unfold stageUpload storeTmpPath
  dsimp only
  rw [created]
  dsimp only
  cases body : req.body with
  | nil => rfl
  | cons head rest =>
      have written : append sys
          (Function.update st.files (.tmp (.up st.pid st.tmpCounter)) (some (.regular [])))
          (.tmp (.up st.pid st.tmpCounter)) (head :: rest) =
          some (Function.update st.files (.tmp (.up st.pid st.tmpCounter))
            (some (.regular (head :: rest)))) := by
        unfold append
        rw [Function.update_self]
        dsimp only
        rw [if_pos (succeeds _), Function.update_idem]
        rfl
      dsimp only
      rw [written]
      rfl

/-- Received bytes go to the end of the staged file. -/
theorem recvBody_of_succeeds (succeeds : sys.Succeeds) (owned : conn.upPath = some (.tmp tmp))
    (staged : st.files (.tmp tmp) = some (.regular content)) (bytes : Bytes) :
    recvBody sys st conn bytes =
      (st.withFiles (Function.update st.files (.tmp tmp)
          (some (.regular (content ++ bytes.take (conn.upExpect - conn.upReceived))))),
        hashWhenComplete sys
          { conn with
            upReceived := conn.upReceived +
              (bytes.take (conn.upExpect - conn.upReceived)).length }) := by
  unfold recvBody
  rw [owned]
  dsimp only
  unfold append
  rw [staged]
  dsimp only
  rw [if_pos (succeeds _)]

theorem storeHashFile_of_succeeds (succeeds : sys.Succeeds)
    (staged : st.files (.tmp tmp) = some (.regular content)) :
    storeHashFile sha sys st (.tmp tmp) = some (sha.digest content) := by
  unfold storeHashFile
  rw [if_pos (succeeds _), stat_of_regular staged]
  dsimp only
  rw [if_pos (sha.valid content)]

/-- Adopting takes the staged file away and leaves the blob. -/
theorem storeBlobAdopt_of_succeeds (succeeds : sys.Succeeds)
    (valid : storeDigestIsValid digest = true)
    (staged : st.files (.tmp tmp) = some (.regular content)) :
    (storeBlobAdopt sys st (.tmp tmp) digest).2 = .ok () ∧
      (stat (storeBlobAdopt sys st (.tmp tmp) digest).1.files (.blobs digest)).isSome ∧
      tmpOf (storeBlobAdopt sys st (.tmp tmp) digest).1.files =
        Function.update (tmpOf st.files) tmp none := by
  rw [storeBlobAdopt_of_valid valid]
  split
  next there =>
    have gone := unlink_of_not_failed (unlink_not_failed succeeds st.files (.tmp tmp))
    refine ⟨rfl, ?_, ?_⟩
    · show (stat (unlink sys st.files (.tmp tmp)).1 _).isSome
      rw [stat_blobs_congr (blobsOf_unlink_tmp tmp)]
      exact there
    · show tmpOf (unlink sys st.files (.tmp tmp)).1 = _
      rw [gone, tmpOf_update_tmp]
  next =>
    rw [rename_of_present staged (succeeds _)]
    refine ⟨rfl, ?_, ?_⟩
    · rw [Store.withFiles_files, stat_of_regular (Function.update_self ..)]
      rfl
    · rw [Store.withFiles_files, tmpOf_update_blobs, tmpOf_update_tmp]

/-- A name that resolves to the digest or to nothing is published. -/
theorem adoptUpload_of_succeeds (succeeds : sys.Succeeds)
    (valid : storeDigestIsValid digest = true)
    (staged : st.files (.tmp tmp) = some (.regular content))
    (accepted : storeResolve st name = .ok digest ∨ storeResolve st name = .error .notFound) :
    (adoptUpload sys st (.tmp tmp) name digest).2.status = 201 ∧
      (stat (adoptUpload sys st (.tmp tmp) name digest).1.files (.blobs digest)).isSome ∧
      Shrinks (Function.update (tmpOf st.files) tmp none)
        (tmpOf (adoptUpload sys st (.tmp tmp) name digest).1.files) := by
  obtain ⟨ok, present, left⟩ := storeBlobAdopt_of_succeeds succeeds valid staged
  have untouched := storeBlobAdopt_tmp_packages sys st tmp digest
  have blobs := storePublish_blobs sys (storeBlobAdopt sys st (.tmp tmp) digest).1 name digest
  rw [← left]
  unfold adoptUpload
  generalize storeBlobAdopt sys st (.tmp tmp) digest = adopted at *
  obtain ⟨after, result⟩ := adopted
  dsimp only at *
  rw [ok]
  dsimp only
  have resolves := storeResolve_congr untouched name
  cases form : canonicalForm name with
  | none =>
      rw [storeResolve_of_none form] at accepted
      simp at accepted
  | some canonical =>
      rw [stat_blobs_congr blobs, storePublish_eq sys form valid present, resolves]
      rcases accepted with same | free
      · rw [same]
        dsimp only
        rw [if_pos rfl]
        exact ⟨rfl, present, Shrinks.refl _⟩
      · rw [free]
        dsimp only
        obtain ⟨linked, cleared⟩ := publishLink_of_succeeds succeeds after canonical valid
        refine ⟨publishReply_created.mpr linked, present, ?_⟩
        rw [cleared]
        exact shrinks_update_none _ _

/-- A commit publishes, or leaves entries and blobs as they were; either way
the staged file is gone and nothing is added under tmp/. -/
structure CommitEffect (st : Store) (tmp : TmpName) (digest : Bytes) (out : Store × Reply) :
    Prop where
  created : out.2.status = 201 → (storeBlobExists out.1 digest).isSome
  refused : out.2.status ≠ 201 →
    packagesOf out.1.files = packagesOf st.files ∧ blobsOf out.1.files = blobsOf st.files
  left : Shrinks (Function.update (tmpOf st.files) tmp none) (tmpOf out.1.files)

theorem commitEffect_discard (succeeds : sys.Succeeds) (st : Store) (tmp : TmpName)
    (digest : Bytes) {reply : Reply} (other : reply.status ≠ 201) :
    CommitEffect st tmp digest (st.withFiles (unlink sys st.files (.tmp tmp)).1, reply) where
  created := fun same => absurd same other
  refused := fun _ => ⟨packagesOf_unlink_tmp tmp, blobsOf_unlink_tmp tmp⟩
  left := by
    have gone := unlink_of_not_failed (unlink_not_failed succeeds st.files (.tmp tmp))
    rw [Store.withFiles_files, gone, tmpOf_update_tmp]
    exact Shrinks.refl _

theorem commitEffect_commit (succeeds : sys.Succeeds) (valid : storeDigestIsValid digest = true)
    (staged : st.files (.tmp tmp) = some (.regular content)) (name : Bytes) :
    CommitEffect st tmp digest (commitUpload sys st (.tmp tmp) name digest) := by
  have adopted : storeResolve st name = .ok digest ∨ storeResolve st name = .error .notFound →
      CommitEffect st tmp digest (adoptUpload sys st (.tmp tmp) name digest) := by
    intro accepted
    obtain ⟨status, present, left⟩ := adoptUpload_of_succeeds succeeds valid staged accepted
    refine ⟨fun _ => ?_, fun other => absurd status other, left⟩
    rw [storeBlobExists_of_valid valid, Option.isSome_map]
    exact present
  unfold commitUpload
  split
  next existing resolved =>
    split
    next => exact commitEffect_discard succeeds st tmp digest (by simp [Reply.error])
    next same =>
      rw [not_not] at same
      exact adopted (Or.inl (same ▸ resolved))
  next free => exact adopted (Or.inr free)
  next =>
    apply commitEffect_discard succeeds
    show (if _ then 409 else 500) ≠ 201
    split <;> simp

end Succeeding

/-! ## The events of one upload -/

def Input.bytes : Input → Bytes
  | .chunk bytes => bytes
  | _ => []

/-- The body an upload has received: what came with the headers, and the chunks
up to the declared length. -/
def receivedBody (req : HttpRequest) (inputs : List Input) : Bytes :=
  req.body ++ (inputs.flatMap Input.bytes).take (req.contentLength - req.body.length)

/-- What a 201 delivers. -/
structure Delivered (sha : Sha256sum) (req : HttpRequest) (name : Bytes) (inputs : List Input)
    (st : Store) : Prop where
  complete : req.contentLength ≤ (receivedBody req inputs).length
  declared : declaredDigest req = some (sha.digest (receivedBody req inputs))
  resolved : storeResolve st name = .ok (sha.digest (receivedBody req inputs))
  present : (storeBlobExists st (sha.digest (receivedBody req inputs))).isSome

/-- How far an upload has come: its bytes are staged under one name of tmp/ and
nothing else has changed, or it was answered. -/
inductive UploadPhase (sha : Sha256sum) (start : Store) (req : HttpRequest) (name : Bytes)
    (inputs : List Input) (st : Store) (conn : Conn) : Prop
  | flying (tmp : TmpName) (owned : conn.upPath = some (.tmp tmp))
      (named : conn.upName = name) (declared : declaredDigest req = some conn.upDigest)
      (valid : storeDigestIsValid conn.upDigest = true)
      (expect : conn.upExpect = req.contentLength)
      (received : conn.upReceived = (receivedBody req inputs).length)
      (packages : packagesOf st.files = packagesOf start.files)
      (blobs : blobsOf st.files = blobsOf start.files)
      (staged : tmpOf st.files = Function.update (tmpOf start.files) tmp
        (some (.regular (receivedBody req inputs))))
      (state : conn.state = .recvBody ∧ conn.upReceived < conn.upExpect ∨
        conn.state = .hashing ∧ conn.child = .watched ∧ conn.upExpect ≤ conn.upReceived)
  | answered (sound : conn.Sound) (status : conn.status.isSome)
      (created : conn.status = some 201 → Delivered sha req name inputs st)
      (refused : conn.status ≠ some 201 → packagesOf st.files = packagesOf start.files ∧
        blobsOf st.files = blobsOf start.files)
      (left : ∀ tmp, conn.upPath ≠ some (.tmp tmp) →
        tmpOf st.files tmp = tmpOf start.files tmp ∨ tmpOf st.files tmp = none)

/-- Bytes beyond the declared length change nothing. -/
theorem receivedBody_complete {req : HttpRequest} {inputs : List Input}
    (complete : req.contentLength ≤ (receivedBody req inputs).length) (input : Input) :
    receivedBody req (inputs ++ [input]) = receivedBody req inputs := by
  unfold receivedBody at *
  rw [List.length_append, List.length_take] at complete
  rw [List.flatMap_append, List.take_append_of_le_length (by omega)]

theorem receivedBody_append (req : HttpRequest) (inputs : List Input) (input : Input) :
    receivedBody req (inputs ++ [input]) =
      receivedBody req inputs ++
        input.bytes.take (req.contentLength - (receivedBody req inputs).length) := by
  unfold receivedBody
  rw [List.flatMap_append, List.take_append, List.append_assoc]
  congr 2
  simp only [List.flatMap_cons, List.flatMap_nil, List.append_nil, List.length_append,
    List.length_take]
  by_cases short : (inputs.flatMap Input.bytes).length ≤ req.contentLength - req.body.length
  · rw [Nat.min_eq_right short]
    congr 1
    omega
  · rw [Nat.min_eq_left (by omega)]
    have none : req.contentLength - req.body.length - (inputs.flatMap Input.bytes).length = 0 := by
      omega
    have nothing : req.contentLength -
        (req.body.length + (req.contentLength - req.body.length)) = 0 := by
      omega
    rw [none, nothing]

/-! ## Steps of one upload -/

section Steps

variable {conf : Conf} {sha : Sha256sum} {sys : Sys} {start st : Store} {importRunning : Bool}
  {conn : Conn} {req : HttpRequest} {name : Bytes} {inputs : List Input} {input : Input}

/-- A request that is answered at once has changed nothing. -/
theorem Answered.phase {before after : Conn} (answered : Answered before after)
    (sound : before.Sound) : UploadPhase sha st req name [] st after := by
  have refused := answered.not_created
  have afterSound := answered.sound sound
  obtain ⟨reply, _, rfl⟩ := answered
  refine .answered afterSound rfl (fun same => absurd same refused) (fun _ => ⟨rfl, rfl⟩) ?_
  intro tmp _
  exact Or.inl rfl

theorem UploadPhase.of_status {status : Nat}
    (phase : UploadPhase sha start req name inputs st conn) (answered : conn.status = some status) :
    (status = 201 → Delivered sha req name inputs st) ∧
      (status ≠ 201 → packagesOf st.files = packagesOf start.files ∧
        blobsOf st.files = blobsOf start.files) := by
  cases phase with
  | flying tmp owned named declared valid expect received packages blobs staged state =>
      -- An upload in flight has no status.
      unfold Conn.status at answered
      rcases state with ⟨awaiting, _⟩ | ⟨hashing, _⟩
      · rw [awaiting] at answered
        contradiction
      · rw [hashing] at answered
        contradiction
  | answered sound some created refused left =>
      rw [answered] at created refused
      constructor
      · intro same
        exact created (congrArg _ same)
      · intro other
        exact refused fun same => other (Option.some.inj same)

/-- When the body is complete it is hashed; else more is awaited. -/
theorem hashWhenComplete_phase (succeeds : sys.Succeeds) {tmp : TmpName}
    (owned : conn.upPath = some (.tmp tmp)) (named : conn.upName = name)
    (declared : declaredDigest req = some conn.upDigest)
    (valid : storeDigestIsValid conn.upDigest = true)
    (expect : conn.upExpect = req.contentLength)
    (received : conn.upReceived = (receivedBody req inputs).length)
    (packages : packagesOf st.files = packagesOf start.files)
    (blobs : blobsOf st.files = blobsOf start.files)
    (staged : tmpOf st.files = Function.update (tmpOf start.files) tmp
      (some (.regular (receivedBody req inputs))))
    (state : conn.state = .recvBody) :
    UploadPhase sha start req name inputs st (hashWhenComplete sys conn) := by
  rw [hashWhenComplete_of_succeeds succeeds]
  split
  next complete =>
    exact .flying tmp owned named declared valid expect received packages blobs staged
      (Or.inr ⟨rfl, rfl, complete⟩)
  next missing =>
    exact .flying tmp owned named declared valid expect received packages blobs staged
      (Or.inl ⟨state, by omega⟩)

theorem uploadPhase_begin (conf : Conf) (succeeds : sys.Succeeds) (st : Store)
    (importRunning : Bool) (method : req.method = ascii "PUT")
    (named : dispatchPath req = some (slash :: name)) :
    UploadPhase sha st req name [] (dispatch conf sys st importRunning .fresh req).store
      (dispatch conf sys st importRunning .fresh req).conn := by
  cases dispatch_outcome conf sys st importRunning .fresh req with
  | answered store answer =>
      rw [store]
      exact answer.phase Conn.sound_fresh
  | withdrawn path _ deletes store answer =>
      rw [method] at deletes
      exact absurd deletes (by decide)
  | collected dryRun asked store answer =>
      rw [method] at asked
      exact absurd asked (by decide)
  | uploaded path namedPath _ store begun =>
      obtain rfl := Option.some.inj (named.symm.trans namedPath)
      have cut : (slash :: name).drop 1 = name := rfl
      rw [cut] at store begun
      rw [store, begun]
      cases beginUpload_outcome conf sys st .fresh req name with
      | refused reply status same =>
          rw [same]
          exact Answered.phase ⟨reply, status, rfl⟩ Conn.sound_fresh
      | staged digest declared digestValid nameValid positive signed same =>
          rw [same, stageUpload_of_succeeds succeeds]
          have body : receivedBody req [] = req.body := by simp [receivedBody]
          dsimp only
          refine hashWhenComplete_phase succeeds rfl rfl declared digestValid rfl ?_ ?_ ?_ ?_ rfl
          · rw [body]
          · exact packagesOf_update_tmp st.files _ _
          · exact blobsOf_update_tmp st.files _ _
          · rw [body]
            exact tmpOf_update_tmp st.files _ _

theorem connStep_of_answered (status : conn.status.isSome) (input : Input) :
    connStep conf sha sys st importRunning conn input = ⟨st, importRunning, conn⟩ := by
  unfold Conn.status at status
  unfold connStep
  split at status
  next reply sending =>
    rw [sending]
  next => contradiction

/-- Only a chunk moves a connection that awaits its body. -/
theorem connStep_of_recvBody (conf : Conf) (sha : Sha256sum) (sys : Sys) (st : Store)
    (importRunning : Bool) (state : conn.state = .recvBody) (input : Input) :
    (∃ bytes, input = .chunk bytes ∧
      connStep conf sha sys st importRunning conn input =
        ⟨(recvBody sys st conn bytes).1, importRunning, (recvBody sys st conn bytes).2⟩) ∨
    input.bytes = [] ∧
      connStep conf sha sys st importRunning conn input = ⟨st, importRunning, conn⟩ := by
  unfold connStep
  rw [state]
  cases input with
  | chunk bytes => exact Or.inl ⟨bytes, rfl, rfl⟩
  | request req => exact Or.inr ⟨rfl, rfl⟩
  | overlong => exact Or.inr ⟨rfl, rfl⟩
  | malformed => exact Or.inr ⟨rfl, rfl⟩
  | hashed => exact Or.inr ⟨rfl, rfl⟩

/-- Only its hash child moves a connection that is being hashed. -/
theorem connStep_of_hashing (conf : Conf) (sha : Sha256sum) (sys : Sys) (st : Store)
    (importRunning : Bool) (state : conn.state = .hashing) (watched : conn.child = .watched)
    (input : Input) :
    connStep conf sha sys st importRunning conn input =
        ⟨(finishUpload sha sys st conn).1, importRunning, (finishUpload sha sys st conn).2⟩ ∨
      connStep conf sha sys st importRunning conn input = ⟨st, importRunning, conn⟩ := by
  unfold connStep
  rw [state]
  cases input with
  | hashed => exact Or.inl (if_pos watched)
  | chunk bytes => exact Or.inr rfl
  | request req => exact Or.inr rfl
  | overlong => exact Or.inr rfl
  | malformed => exact Or.inr rfl

/-- A complete body is refused with nothing changed, or delivered. -/
theorem finishUpload_phase (succeeds : sys.Succeeds) {tmp : TmpName}
    (owned : conn.upPath = some (.tmp tmp)) (named : conn.upName = name)
    (declared : declaredDigest req = some conn.upDigest)
    (valid : storeDigestIsValid conn.upDigest = true)
    (complete : req.contentLength ≤ (receivedBody req inputs).length)
    (packages : packagesOf st.files = packagesOf start.files)
    (blobs : blobsOf st.files = blobsOf start.files)
    (staged : tmpOf st.files = Function.update (tmpOf start.files) tmp
      (some (.regular (receivedBody req inputs)))) :
    UploadPhase sha start req name inputs (finishUpload sha sys st conn).1
      (finishUpload sha sys st conn).2 := by
  have file : st.files (.tmp tmp) = some (.regular (receivedBody req inputs)) := by
    show tmpOf st.files tmp = _
    rw [staged, Function.update_self]
  have sound : conn.Sound := by
    refine ⟨?_, fun _ => valid⟩
    intro path same
    exact ⟨tmp, Option.some.inj (same.symm.trans owned)⟩
  have kept : ∀ other, conn.upPath ≠ some (.tmp other) →
      tmpOf st.files other = tmpOf start.files other := by
    intro other different
    rw [staged, Function.update_of_ne]
    rintro rfl
    exact different owned
  cases finishUpload_outcome sha sys st conn with
  | failed reply status same =>
      rw [same]
      refine .answered ⟨sound.staged, fun _ => valid⟩ rfl ?_ (fun _ => ⟨packages, blobs⟩) ?_
      · intro created
        exact absurd (Option.some.inj created) status
      · exact fun other different => Or.inl (kept other different)
  | committed path digest path_owned hashed matched same =>
      obtain rfl := Option.some.inj (owned.symm.trans path_owned)
      rw [storeHashFile_of_succeeds succeeds file] at hashed
      obtain rfl := Option.some.inj hashed
      have equal := eq_of_strcasecmpEq (sha.valid _) valid matched
      have effect := commitEffect_commit succeeds (sha.valid (receivedBody req inputs)) file
        conn.upName
      rw [same]
      refine .answered ⟨by intro path none; contradiction, fun _ => valid⟩ rfl ?_ ?_ ?_
      · intro created
        have status := Option.some.inj created
        rw [equal] at effect
        refine ⟨complete, ?_, ?_, ?_⟩
        · rw [declared, equal]
        · rw [← named]
          exact (commitUpload_outcome sys st tmp conn.upName _).resolves status
        · rw [equal]
          rw [equal] at status
          exact effect.created status
      · intro refused
        obtain ⟨entries, contents⟩ := effect.refused fun status => refused (congrArg some status)
        exact ⟨entries.trans packages, contents.trans blobs⟩
      · intro other _
        have left := effect.left other
        rw [staged, Function.update_idem] at left
        by_cases own : other = tmp
        · rw [own, Function.update_self] at left
          rw [own]
          exact Or.inr (left.elim id id)
        · rw [Function.update_of_ne own] at left
          exact left

/-- A step keeps what the store owes to an upload. -/
theorem connStep_phase (succeeds : sys.Succeeds) (conf : Conf) (importRunning : Bool)
    (phase : UploadPhase sha start req name inputs st conn) (input : Input) :
    UploadPhase sha start req name (inputs ++ [input])
      (connStep conf sha sys st importRunning conn input).store
      (connStep conf sha sys st importRunning conn input).conn := by
  cases phase with
  | answered sound status created refused left =>
      rw [connStep_of_answered status]
      refine .answered sound status ?_ refused left
      intro same
      have delivered := created same
      have body := receivedBody_complete delivered.complete input
      constructor
      · rw [body]
        exact delivered.complete
      · rw [body]
        exact delivered.declared
      · rw [body]
        exact delivered.resolved
      · rw [body]
        exact delivered.present
  | flying tmp owned named declared valid expect received packages blobs staged state =>
      rcases state with ⟨awaiting, missing⟩ | ⟨hashing, watched, complete⟩
      · rcases connStep_of_recvBody conf sha sys st importRunning awaiting input with
          ⟨bytes, rfl, stepped⟩ | ⟨none, stepped⟩
        · have file : st.files (.tmp tmp) = some (.regular (receivedBody req inputs)) := by
            show tmpOf st.files tmp = _
            rw [staged, Function.update_self]
          have body := receivedBody_append req inputs (.chunk bytes)
          rw [stepped, recvBody_of_succeeds succeeds owned file]
          rw [received, expect]
          refine hashWhenComplete_phase succeeds owned named declared valid rfl ?_ ?_ ?_ ?_ awaiting
          · rw [body, List.length_append]
            rfl
          · exact (packagesOf_update_tmp st.files _ _).trans packages
          · exact (blobsOf_update_tmp st.files _ _).trans blobs
          · rw [body, Store.withFiles_files, tmpOf_update_tmp, staged, Function.update_idem]
            rfl
        · have body := receivedBody_append req inputs input
          rw [none, List.take_nil, List.append_nil] at body
          rw [stepped]
          refine .flying tmp owned named declared valid expect ?_ packages blobs ?_
            (Or.inl ⟨awaiting, missing⟩)
          · rw [body, received]
          · rw [body, staged]
      · rw [expect, received] at complete
        have body := receivedBody_complete complete input
        rcases connStep_of_hashing conf sha sys st importRunning hashing watched input with
          stepped | stepped
        · rw [stepped]
          apply finishUpload_phase succeeds owned named declared valid _ packages blobs
          · rw [body, staged]
          · rw [body]
            exact complete
        · rw [stepped]
          refine .flying tmp owned named declared valid expect ?_ packages blobs ?_
            (Or.inr ⟨hashing, watched, ?_⟩)
          · rw [body, received]
          · rw [body, staged]
          · rw [expect, received]
            exact complete

/-- Closing the connection takes the staged file away. -/
theorem connClose_phase (succeeds : sys.Succeeds)
    (phase : UploadPhase sha start req name inputs st conn) :
    Shrinks (tmpOf start.files) (tmpOf (connClose sys st conn).files) := by
  intro other
  have closes : ∀ tmp, conn.upPath = some (.tmp tmp) →
      tmpOf (connClose sys st conn).files = Function.update (tmpOf st.files) tmp none := by
    intro tmp owned
    have gone := unlink_of_not_failed (unlink_not_failed succeeds st.files (.tmp tmp))
    unfold connClose
    rw [owned]
    dsimp only
    rw [Store.withFiles_files, gone, tmpOf_update_tmp]
  cases phase with
  | flying tmp owned named declared valid expect received packages blobs staged state =>
      rw [closes tmp owned, staged, Function.update_idem]
      exact shrinks_update_none _ _ other
  | answered sound status created refused left =>
      cases owned : conn.upPath with
      | none =>
          unfold connClose
          rw [owned]
          exact left other (by simp [owned])
      | some path =>
          obtain ⟨tmp, rfl⟩ := sound.staged path owned
          rw [closes tmp owned]
          by_cases same : other = tmp
          · rw [same, Function.update_self]
            exact Or.inr rfl
          · rw [Function.update_of_ne same]
            apply left
            rw [owned]
            intro equal
            exact same (Path.tmp.inj (Option.some.inj equal)).symm

end Steps

/-! ## The run of one upload -/

/-- The events of one PUT: it connects, sends its request, and then whatever
else the loop is woken for on its connection. -/
def uploadEvents (id : Nat) (req : HttpRequest) (first second : Sys)
    (body : List (Sys × Input)) : List (Sys × ServerEvent) :=
  (first, .accept id) :: (second, .input id (.request req)) ::
    body.map fun event => (event.1, .input id event.2)

section Runs

variable {conf : Conf} {sha : Sha256sum} {server : Server} {id : Nat} {start : Store}
  {req : HttpRequest} {name : Bytes} {inputs : List Input}

/-- The connection is open and its upload has come as far as its inputs say. -/
def Uploading (sha : Sha256sum) (start : Store) (req : HttpRequest) (name : Bytes) (id : Nat)
    (inputs : List Input) (server : Server) : Prop :=
  ∃ conn, server.conns id = some conn ∧
    UploadPhase sha start req name inputs server.store conn

theorem serverStep_uploading (conf : Conf) {sys : Sys} (succeeds : sys.Succeeds)
    (uploading : Uploading sha start req name id inputs server) (input : Input) :
    Uploading sha start req name id (inputs ++ [input])
      (serverStep conf sha server (sys, .input id input)) := by
  obtain ⟨conn, present, phase⟩ := uploading
  have woken : (sys, ServerEvent.input id input).2 = .input id input := rfl
  rw [serverStep_input conf sha woken present]
  refine ⟨_, Function.update_self .., ?_⟩
  exact connStep_phase succeeds conf server.importRunning phase input

theorem run_uploading (conf : Conf) (body : List (Sys × Input))
    (succeeds : ∀ event ∈ body, event.1.Succeeds)
    (uploading : Uploading sha start req name id inputs server) :
    Uploading sha start req name id (inputs ++ body.map Prod.snd)
      (run (serverStep conf sha) server
        (body.map fun event => (event.1, ServerEvent.input id event.2))) := by
  induction body generalizing inputs server with
  | nil =>
      rw [List.map_nil, List.append_nil]
      exact uploading
  | cons head tail inductionHypothesis =>
      have next := serverStep_uploading conf (succeeds head List.mem_cons_self) uploading head.2
      have rest := inductionHypothesis
        (fun event member => succeeds event (List.mem_cons_of_mem _ member)) next
      rw [List.append_assoc] at rest
      exact rest

theorem uploading_begin (conf : Conf) (sha : Sha256sum) (first : Sys) {second : Sys}
    (succeeds : second.Succeeds) (free : server.conns id = none)
    (method : req.method = ascii "PUT") (named : dispatchPath req = some (slash :: name)) :
    Uploading sha server.store req name id []
      (serverStep conf sha (serverStep conf sha server (first, .accept id))
        (second, .input id (.request req))) := by
  have accepted : serverStep conf sha server (first, .accept id) =
      { server with conns := Function.update server.conns id (some .fresh) } := by
    unfold serverStep
    dsimp only
    rw [free]
  have woken : (second, ServerEvent.input id (.request req)).2 = .input id (.request req) := rfl
  rw [accepted, serverStep_input conf sha woken (Function.update_self ..)]
  refine ⟨_, Function.update_self .., ?_⟩
  exact uploadPhase_begin conf succeeds server.store server.importRunning method named

theorem serverStep_close {conn : Conn} (sys : Sys) (present : server.conns id = some conn) :
    (serverStep conf sha server (sys, .close id)).store = connClose sys server.store conn := by
  unfold serverStep
  dsimp only
  rw [present]

/-- Answered 201, an upload has delivered its bytes under its name; otherwise
entries and blobs are those of before; and closed, it leaves nothing under tmp/. -/
theorem upload_all_or_nothing (conf : Conf) (sha : Sha256sum) (server : Server) (id : Nat)
    (free : server.conns id = none) (req : HttpRequest) (name : Bytes)
    (method : req.method = ascii "PUT") (named : dispatchPath req = some (slash :: name))
    (first second closing : Sys) (body : List (Sys × Input))
    (calls : second.Succeeds ∧ (∀ event ∈ body, event.1.Succeeds) ∧ closing.Succeeds) :
    let final := run (serverStep conf sha) server (uploadEvents id req first second body)
    ∃ conn, final.conns id = some conn ∧
      (conn.status = some 201 → Delivered sha req name (body.map Prod.snd) final.store) ∧
      (∀ status, conn.status = some status → status ≠ 201 →
        packagesOf final.store.files = packagesOf server.store.files ∧
          blobsOf final.store.files = blobsOf server.store.files) ∧
      Shrinks (tmpOf server.store.files)
        (tmpOf (serverStep conf sha final (closing, .close id)).store.files) := by
  obtain ⟨requesting, sending, closes⟩ := calls
  have begun := uploading_begin conf sha first requesting free method named
  intro final
  obtain ⟨conn, present, phase⟩ : Uploading sha server.store req name id (body.map Prod.snd) final :=
    run_uploading conf body sending begun
  refine ⟨conn, present, ?_, ?_, ?_⟩
  · intro created
    exact (phase.of_status created).1 rfl
  · intro status answered
    exact (phase.of_status answered).2
  · rw [serverStep_close closing present]
    exact connClose_phase closes phase

end Runs

/-! ### A body in two chunks -/

/-- A PUT that declares the digest of the one byte it sends after its headers. -/
def laterRequest : HttpRequest :=
  { putRequest (ascii "foo-1-1.tar.gz") (Sha256sum.sample.digest (ascii "a")) [] with
    contentLength := 1 }

/-- The byte arrives with more behind it, the hash child reports, and the last
event finds the connection answered. -/
def laterBody : List (Sys × Input) :=
  [(.succeeding fun _ => none, .chunk (ascii "ab")), (.succeeding fun _ => none, .hashed),
    (.succeeding fun _ => none, .chunk (ascii "c"))]

def laterServer : Server :=
  run (serverStep .sample .sample) (.start (Store.holding [] []))
    (uploadEvents 7 laterRequest (.succeeding fun _ => none) (.succeeding fun _ => none) laterBody)

theorem later_body_delivered :
    (laterServer.conns 7).bind Conn.status = some 201 ∧
      Delivered .sample laterRequest (ascii "foo-1-1.tar.gz") (laterBody.map Prod.snd)
        laterServer.store := by
  have succeeds := Sys.succeeds_succeeding fun _ => none
  have sending : ∀ event ∈ laterBody, event.1.Succeeds := by
    intro event member
    simp only [laterBody, List.mem_cons, List.not_mem_nil, or_false] at member
    rcases member with rfl | rfl | rfl <;> exact succeeds
  obtain ⟨conn, present, created, _⟩ := upload_all_or_nothing .sample .sample
    (.start (Store.holding [] [])) 7 rfl laterRequest (ascii "foo-1-1.tar.gz")
    (by decide +kernel) (by decide +kernel)
    (.succeeding fun _ => none) (.succeeding fun _ => none) (.succeeding fun _ => none)
    laterBody ⟨succeeds, sending, succeeds⟩
  have answered : (laterServer.conns 7).bind Conn.status = some 201 := by
    decide +kernel
  refine ⟨answered, ?_⟩
  have there : laterServer.conns 7 = some conn := present
  rw [there] at answered
  exact created answered

end CixCache
