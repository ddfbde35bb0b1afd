import CixCache.Server.Sending
import CixCache.Server.WebRoot

/-!
Contract: HEAD beside GET.

Owns: `HeadMatches`, that a response to HEAD is the response to GET without its
body; for which requests the handlers begin such responses; and that they begin
the replies of `dispatch`.

Does not own: which artifacts and assets there are.
-/

namespace CixCache

open CixCache.Lib

/-- The response to HEAD has the header of the response to GET, and nothing is
written behind it, whatever the socket takes at a time. -/
structure HeadMatches (get head : Sender) : Prop where
  header : head.hdr = get.hdr
  bodiless : ∀ answers, (run Sender.handleWrite head answers).sent <+: head.hdr

/-- A request for an artifact, or for what GET handles as an asset. -/
structure ContentRequest (req : HttpRequest) (path : Bytes) : Prop where
  decoded : dispatchPath req = some path
  content : isArtifactPath path = true ∨
    path ≠ ascii "/MANIFEST.json" ∧ path.take apiPrefix.length ≠ apiPrefix

/-- A GET and a HEAD of one path with one authorization. -/
structure GetAndHead (conf : Conf) (get head : HttpRequest) (path : Bytes) : Prop where
  getMethod : get.method = ascii "GET"
  headMethod : head.method = ascii "HEAD"
  getContent : ContentRequest get path
  headContent : ContentRequest head path
  authorized : bearerOk head conf.pullToken = bearerOk get conf.pullToken

/-- The artifact may be read and is there, or the asset is there and is read whole. -/
def Found (conf : Conf) (st : Store) (read : AssetRead) (req : HttpRequest) (path : Bytes) : Prop :=
  if isArtifactPath path then
    slash ∉ path.drop 1 ∧ bearerOk req conf.pullToken = true ∧
      ∃ found, storeOpen st (path.drop 1) = .ok found
  else
    ¬ [dot, dot] <:+: path ∧ (assetPath conf path).length < pathMax ∧
      (∃ content, conf.webFiles (assetPath conf path) = some content) ∧ read = .whole

/-! ## Begun responses -/

section Begun

variable {cc : Sender} {status contentLength : Nat} {contentType extra : Bytes}

theorem beginResponse_hdr (same : cc.hdr = []) :
    (cc.beginResponse status contentType extra contentLength).hdr =
      (httpFormatHeader status contentType contentLength extra).getD [] := by
  unfold Sender.beginResponse
  cases httpFormatHeader status contentType contentLength extra with
  | none => exact same
  | some text => rfl

/-- A response that was begun sends its header and what is pending. -/
theorem beginResponse_sends (clean : cc.sent = []) (start : cc.bodyOff = 0 ∧ cc.outOff = 0) :
    Sends (cc.beginResponse status contentType extra contentLength).hdr cc.pending
      (cc.beginResponse status contentType extra contentLength) := by
  unfold Sender.beginResponse
  cases httpFormatHeader status contentType contentLength extra with
  | none => exact .dead rfl (by simp [Sender.connClose, clean])
  | some text => exact .header rfl rfl (by simp [clean]) rfl start

/-- A header without a body is all that is sent. -/
theorem beginResponse_bodiless (clean : cc.sent = []) (start : cc.bodyOff = 0 ∧ cc.outOff = 0)
    (headOnly : cc.headOnly = true) (answers : List Written) :
    (run Sender.handleWrite (cc.beginResponse status contentType extra contentLength)
      answers).sent <+: (cc.beginResponse status contentType extra contentLength).hdr := by
  have nothing : cc.pending = [] := by
    unfold Sender.pending
    rw [if_pos headOnly]
  have sends : Sends (cc.beginResponse status contentType extra contentLength).hdr []
      (cc.beginResponse status contentType extra contentLength) := by
    rw [← nothing]
    exact beginResponse_sends clean start
  have sent := (sends.along_run answers).sent_within
  rwa [List.append_nil] at sent

theorem errorBody_ne_nil (msg : Bytes) : errorBody msg ≠ [] := by
  unfold errorBody jwObjClose jwRaw
  simp

/-- The header of an error. -/
def errorHeader (status : Nat) (msg : Bytes) : Bytes :=
  headerText status (ascii "application/json") (errorBody msg).length []

theorem errorBody_length (msg : Bytes) : (errorBody msg).length ≤ 6 * msg.length + 12 := by
  have text : errorBody msg = (JsonValue.object [(ascii "error", .string msg)]).text :=
    (WritesMembers.object ((writes_str msg).member (ascii "error"))).document
  have key : (quoted (ascii "error")).length = 7 := by decide
  have value := quoted_length msg
  rw [text]
  simp only [JsonValue.text, membersText, List.length_cons, List.length_append, List.length_nil,
    key, Bool.false_eq_true, ↓reduceIte]
  omega

/-- The header of an error with a short text fits its buffer. -/
theorem errorHeader_fits {msg : Bytes} (threeDigits : status < 1000) (short : msg.length ≤ 100) :
    (errorHeader status msg).length < hdrMax := by
  have code : (printed status).length ≤ 3 := printed_length (by omega) threeDigits
  have body := errorBody_length msg
  have length : (printed (errorBody msg).length).length ≤ 3 := printed_length (by omega) (by omega)
  have text := httpStatusText_length status
  have fixed : (ascii "HTTP/1.1 ").length = 9 ∧ (ascii " ").length = 1 ∧
      (ascii "\r\nContent-Type: ").length = 16 ∧ (ascii "application/json").length = 16 ∧
      (ascii "\r\nContent-Length: ").length = 18 ∧
      (ascii "\r\nConnection: close\r\n").length = 21 ∧ (ascii "\r\n").length = 2 := by
    decide
  unfold errorHeader headerText hdrMax
  simp only [List.length_append, fixed, List.length_nil]
  omega

theorem respondError_hdr {msg : Bytes} (fits : (errorHeader status msg).length < hdrMax) :
    Sender.fresh.respondError status msg =
      { Sender.fresh with
        outBuf := some (errorBody msg)
        hdr := errorHeader status msg
        state := .sendHeader } := by
  unfold Sender.respondError Sender.respondBuffer Sender.beginResponse httpFormatHeader
  dsimp only
  rw [if_neg (by unfold errorHeader at fits; omega)]
  rfl

/-- An error sends its body. -/
theorem respondError_bodied {msg : Bytes} (fits : (errorHeader status msg).length < hdrMax) :
    ¬ ∀ answers, (run Sender.handleWrite (Sender.fresh.respondError status msg) answers).sent <+:
      (Sender.fresh.respondError status msg).hdr := by
  intro bodiless
  rw [respondError_hdr fits] at bodiless
  have sent := bodiless [.wrote (errorHeader status msg).length, .wrote (errorBody msg).length]
  rw [buffered_delivered rfl ⟨rfl, rfl⟩ rfl rfl rfl rfl] at sent
  have shorter := sent.length_le
  have nonempty := List.length_pos_of_ne_nil (errorBody_ne_nil msg)
  rw [List.length_append] at shorter
  omega

/-- An error in answer to a HEAD is no match. -/
theorem not_matches_error {get : Sender} {msg : Bytes}
    (fits : (errorHeader status msg).length < hdrMax) :
    ¬ HeadMatches get (Sender.fresh.respondError status msg) :=
  fun matching => respondError_bodied fits matching.bodiless

end Begun

/-! ## The handlers -/

section Handlers

variable {conf : Conf} {st : Store} {read : AssetRead} {get head : HttpRequest} {path : Bytes}

theorem storeError_fits (error : StoreError) :
    (errorHeader (if error = .invalidName then 400 else 404) (storeErrorStr error)).length <
        hdrMax ∧
      (errorHeader 409 (storeErrorStr error)).length < hdrMax := by
  have short : (storeErrorStr error).length ≤ 100 := by cases error <;> decide
  refine ⟨errorHeader_fits ?_ short, errorHeader_fits (by omega) short⟩
  split <;> omega

theorem serveArtifact_matches {name : Bytes}
    (authorized : bearerOk head conf.pullToken = bearerOk get conf.pullToken) :
    HeadMatches (Sender.fresh.serveArtifact conf st get name false)
        (Sender.fresh.serveArtifact conf st head name true) ↔
      bearerOk get conf.pullToken = true ∧ ∃ found, storeOpen st name = .ok found := by
  unfold Sender.serveArtifact
  rw [authorized]
  cases bearerOk get conf.pullToken with
  | false =>
      simp only [↓reduceIte, Bool.false_eq_true, false_and, iff_false]
      exact not_matches_error (errorHeader_fits (by omega) (by decide))
  | true =>
      cases opened : storeOpen st name with
      | error error =>
          simp only [Bool.true_eq_false, ↓reduceIte, reduceCtorEq, exists_false, and_false,
            iff_false]
          by_cases ambiguous : error = .ambiguous
          · simp only [if_pos ambiguous]
            exact not_matches_error (storeError_fits error).2
          · simp only [if_neg ambiguous]
            exact not_matches_error (storeError_fits error).1
      | ok found =>
          simp only [Bool.true_eq_false, ↓reduceIte, Bool.false_eq_true]
          refine ⟨fun _ => ⟨trivial, found, rfl⟩, fun _ => ⟨?_, ?_⟩⟩
          · rw [beginResponse_hdr rfl, beginResponse_hdr rfl]
          · exact beginResponse_bodiless rfl ⟨rfl, rfl⟩ rfl

/-- The status line comes first. -/
theorem headerText_status (status : Nat) (contentType : Bytes) (contentLength : Nat)
    (extra : Bytes) : (ascii "HTTP/1.1 " ++ printed status) <+:
      headerText status contentType contentLength extra := by
  unfold headerText
  simp only [List.append_assoc]
  exact List.prefix_append_right_inj _ |>.mpr (List.prefix_append _ _)

theorem not_matches_broken {cc : Sender} (noHdr : cc.hdr = []) {msg contentType : Bytes}
    {contentLength : Nat} (fits : (errorHeader 500 msg).length < hdrMax) :
    ¬ HeadMatches (Sender.fresh.respondError 500 msg)
      (cc.beginResponse 200 contentType [] contentLength) := by
  intro matching
  have header := matching.header
  rw [respondError_hdr fits, beginResponse_hdr noHdr] at header
  dsimp only at header
  have broken : ascii "HTTP/1.1 500" <+: errorHeader 500 msg := headerText_status 500 _ _ _
  rw [← header] at broken
  unfold httpFormatHeader at broken
  dsimp only at broken
  split at broken
  next => exact absurd broken (by decide)
  next =>
    rw [Option.getD_some] at broken
    have fine : ascii "HTTP/1.1 200" <+: headerText 200 contentType contentLength [] :=
      headerText_status 200 _ _ _
    exact absurd (List.prefix_or_prefix_of_prefix broken fine) (by decide)

theorem serveStatic_matches {headRead : AssetRead} :
    HeadMatches (Sender.fresh.serveStatic conf read path false)
        (Sender.fresh.serveStatic conf headRead path true) ↔
      ¬ [dot, dot] <:+: path ∧ (assetPath conf path).length < pathMax ∧
        (∃ content, conf.webFiles (assetPath conf path) = some content) ∧ read = .whole := by
  unfold Sender.serveStatic assetPath
  dsimp only
  generalize conf.webRoot ++ (if path = [slash] then ascii "/index.html" else path) = asset
  by_cases parent : [dot, dot] <:+: path
  · simp only [parent, ↓reduceIte, not_true_eq_false, false_and, iff_false]
    exact not_matches_error (errorHeader_fits (by omega) (by decide))
  by_cases long : pathMax ≤ asset.length
  · simp only [parent, long, ↓reduceIte, Nat.not_lt.mpr long, false_and, and_false, iff_false]
    exact not_matches_error (errorHeader_fits (by omega) (by decide))
  simp only [parent, long, ↓reduceIte, not_false_eq_true, Nat.not_le.mp long, true_and]
  cases conf.webFiles asset with
  | none =>
      simp only [reduceCtorEq, exists_false, false_and, iff_false]
      exact not_matches_error (errorHeader_fits (by omega) (by decide))
  | some content =>
      simp only [Bool.false_eq_true, ↓reduceIte, Option.some.injEq, exists_eq', true_and]
      cases read with
      | whole =>
          refine ⟨fun _ => rfl, fun _ => ⟨?_, ?_⟩⟩
          · unfold Sender.respondBuffer
            rw [beginResponse_hdr rfl, beginResponse_hdr rfl]
          · exact beginResponse_bodiless rfl ⟨rfl, rfl⟩ rfl
      | noMemory =>
          simp only [reduceCtorEq, iff_false]
          exact not_matches_broken rfl (errorHeader_fits (by omega) (by decide))
      | short =>
          simp only [reduceCtorEq, iff_false]
          exact not_matches_broken rfl (errorHeader_fits (by omega) (by decide))

/-- HEAD answers as GET does exactly when what is asked for is found: every error
sends its body, and only a GET reads an asset. -/
theorem head_matches_iff {headRead : AssetRead} (pair : GetAndHead conf get head path) :
    HeadMatches (Sender.fresh.dispatchContent conf st read get path)
        (Sender.fresh.dispatchContent conf st headRead head path) ↔
      Found conf st read get path := by
  have isGet : decide (get.method = ascii "HEAD") = false := by
    rw [pair.getMethod]
    decide
  unfold Sender.dispatchContent Found
  rw [isGet, decide_eq_true pair.headMethod]
  by_cases artifact : isArtifactPath path = true
  · simp only [if_pos artifact]
    by_cases nested : slash ∈ path.drop 1
    · simp only [nested, ↓reduceIte, not_true_eq_false, false_and, iff_false]
      exact not_matches_error (errorHeader_fits (by omega) (by decide))
    · simp only [nested, ↓reduceIte, not_false_eq_true, true_and]
      exact serveArtifact_matches pair.authorized
  · simp only [if_neg artifact]
    exact serveStatic_matches

end Handlers

/-- A miss in answer to a HEAD sends a body. -/
theorem not_matches_missing {conf : Conf} {st : Store} {read headRead : AssetRead}
    {get head : HttpRequest} {path : Bytes} (pair : GetAndHead conf get head path)
    (artifact : isArtifactPath path = true) {error : StoreError}
    (missing : storeOpen st (path.drop 1) = .error error) :
    ¬ HeadMatches (Sender.fresh.dispatchContent conf st read get path)
      (Sender.fresh.dispatchContent conf st headRead head path) := by
  have isHead : decide (head.method = ascii "HEAD") = true := decide_eq_true pair.headMethod
  unfold Sender.dispatchContent
  rw [isHead, if_pos artifact, if_pos artifact]
  split
  next => exact not_matches_error (errorHeader_fits (by omega) (by decide))
  next =>
    unfold Sender.serveArtifact
    by_cases refused : bearerOk head conf.pullToken = false
    · simp only [if_pos refused]
      exact not_matches_error (errorHeader_fits (by omega) (by decide))
    · simp only [if_neg refused, missing]
      by_cases ambiguous : error = .ambiguous
      · rw [if_pos ambiguous]
        exact not_matches_error (storeError_fits error).2
      · rw [if_neg ambiguous]
        exact not_matches_error (storeError_fits error).1

/-! ## The replies of dispatch -/

/-- The bytes of a body that a handler of GET or HEAD begins. -/
def ReplyBody.bytes : ReplyBody → Bytes
  | .error message => errorBody message
  | .blob content => content
  | _ => []

/-- A connection that begins a reply. -/
def Carries (reply : Reply) (cc : Sender) : Prop :=
  cc.hdr = (httpFormatHeader reply.status reply.contentType
      (reply.contentLength.getD reply.body.bytes.length) reply.extra).getD [] ∧
    Sends cc.hdr reply.body.bytes cc

/-- A connection with the body pending begins the reply. -/
theorem carries_begun {cc : Sender} {status contentLength : Nat} {contentType extra : Bytes}
    {stated : Option Nat} {body : ReplyBody} (clean : cc.sent = [])
    (start : cc.bodyOff = 0 ∧ cc.outOff = 0) (noHdr : cc.hdr = []) (pending : cc.pending = body.bytes)
    (length : stated.getD body.bytes.length = contentLength) :
    Carries ⟨status, contentType, extra, stated, body⟩
      (cc.beginResponse status contentType extra contentLength) := by
  constructor
  · rw [beginResponse_hdr noHdr, length]
  · rw [← pending]
    exact beginResponse_sends clean start

theorem carries_error (status : Nat) (msg : Bytes) :
    Carries (.error status msg) (Sender.fresh.respondError status msg) := by
  unfold Reply.error Sender.respondError Sender.respondBuffer
  exact carries_begun rfl ⟨rfl, rfl⟩ rfl rfl rfl

theorem error_carried (conn : Conn) (status : Nat) (msg : Bytes) :
    ∃ reply, conn.respond (.error status msg) = conn.respond reply ∧
      Carries reply (Sender.fresh.respondError status msg) :=
  ⟨.error status msg, rfl, carries_error status msg⟩

section Replies

variable {conf : Conf} {sys : Sys} {st : Store} {importRunning : Bool} {conn : Conn}
  {req : HttpRequest} {path : Bytes}

theorem serveArtifact_carries (conn : Conn) (req : HttpRequest) (name : Bytes) (headOnly : Bool) :
    ∃ reply, serveArtifact conf st conn req name headOnly = conn.respond reply ∧
      Carries reply (Sender.fresh.serveArtifact conf st req name headOnly) := by
  unfold serveArtifact Sender.serveArtifact
  by_cases refused : bearerOk req conf.pullToken = false
  · rw [if_pos refused, if_pos refused]
    exact error_carried conn _ _
  rw [if_neg refused, if_neg refused]
  cases storeOpen st name with
  | error error =>
      dsimp only
      by_cases ambiguous : error = .ambiguous
      · rw [if_pos ambiguous, if_pos ambiguous]
        exact error_carried conn _ _
      · rw [if_neg ambiguous, if_neg ambiguous]
        exact error_carried conn _ _
  | ok opened =>
      obtain ⟨content, resolved⟩ := opened
      dsimp only
      generalize artifactContentType resolved.name = contentType
      generalize ascii "X-Cix-Sha256: " ++ resolved.digest ++ [carriageReturn, lineFeed] = extra
      refine ⟨⟨200, contentType, extra, some content.length, _⟩, rfl, ?_⟩
      cases headOnly with
      | true =>
          rw [if_pos rfl, if_pos rfl]
          exact carries_begun rfl ⟨rfl, rfl⟩ rfl rfl rfl
      | false =>
          rw [if_neg Bool.false_ne_true, if_neg Bool.false_ne_true]
          exact carries_begun rfl ⟨rfl, rfl⟩ rfl rfl rfl

theorem serveStatic_carries (conn : Conn) (reqPath : Bytes) (headOnly : Bool) :
    ∃ reply, serveStatic conf conn reqPath headOnly = conn.respond reply ∧
      Carries reply (Sender.fresh.serveStatic conf .whole reqPath headOnly) := by
  unfold serveStatic Sender.serveStatic
  by_cases parent : [dot, dot] <:+: reqPath
  · rw [if_pos parent, if_pos parent]
    exact error_carried conn _ _
  rw [if_neg parent, if_neg parent]
  dsimp only
  generalize conf.webRoot ++ (if reqPath = [slash] then ascii "/index.html" else reqPath) = path
  by_cases long : pathMax ≤ path.length
  · rw [if_pos long, if_pos long]
    exact error_carried conn _ _
  rw [if_neg long, if_neg long]
  cases conf.webFiles path with
  | none => exact error_carried conn _ _
  | some content =>
      dsimp only
      generalize contentTypeFor path = contentType
      refine ⟨⟨200, contentType, [], some content.length, _⟩, rfl, ?_⟩
      cases headOnly with
      | true =>
          rw [if_pos rfl, if_pos rfl]
          exact carries_begun rfl ⟨rfl, rfl⟩ rfl rfl rfl
      | false =>
          rw [if_neg Bool.false_ne_true, if_neg Bool.false_ne_true]
          exact carries_begun rfl ⟨rfl, rfl⟩ rfl rfl rfl

/-- What `dispatch` answers to a GET or HEAD of content is what is sent. -/
theorem dispatch_carries (request : ContentRequest req path)
    (method : req.method = ascii "GET" ∨ req.method = ascii "HEAD") :
    ∃ reply, (dispatch conf sys st importRunning conn req).conn = conn.respond reply ∧
      Carries reply (Sender.fresh.dispatchContent conf st .whole req path) := by
  unfold dispatch Sender.dispatchContent
  rw [request.decoded]
  dsimp only
  split
  next =>
    unfold dispatchArtifact
    split
    next => exact error_carried conn _ _
    next => exact serveArtifact_carries conn req _ _
  next other =>
    obtain ⟨noManifest, noApi⟩ := request.content.resolve_left other
    rw [if_neg (fun manifest => noManifest manifest.2), if_neg noApi]
    exact serveStatic_carries conn path _

end Replies

/-! ### A present asset and a missing artifact -/

/-- A request for a path by a method. -/
def contentRequest (method path : Bytes) : HttpRequest :=
  ⟨method, path, 0, method ++ ascii " " ++ path ++ ascii " HTTP/1.1", []⟩

/-- A configuration whose web root holds a style sheet. -/
def Conf.styled : Conf := { Conf.sample with webFiles := fun _ => some (ascii "body {}") }

theorem style_sheet_matches :
    HeadMatches
      (Sender.fresh.dispatchContent .styled (Store.holding [] []) .whole
        (contentRequest (ascii "GET") (ascii "/style.css")) (ascii "/style.css"))
      (Sender.fresh.dispatchContent .styled (Store.holding [] []) .whole
        (contentRequest (ascii "HEAD") (ascii "/style.css")) (ascii "/style.css")) := by
  obtain ⟨other, asset, getPath, headPath, plain, fits⟩ :
      isArtifactPath (ascii "/style.css") = false ∧
        (ascii "/style.css" ≠ ascii "/MANIFEST.json" ∧
          (ascii "/style.css").take apiPrefix.length ≠ apiPrefix) ∧
        dispatchPath (contentRequest (ascii "GET") (ascii "/style.css")) =
          some (ascii "/style.css") ∧
        dispatchPath (contentRequest (ascii "HEAD") (ascii "/style.css")) =
          some (ascii "/style.css") ∧
        ¬ [dot, dot] <:+: ascii "/style.css" ∧
        (assetPath .styled (ascii "/style.css")).length < pathMax := by
    decide +kernel
  have pair : GetAndHead .styled (contentRequest (ascii "GET") (ascii "/style.css"))
      (contentRequest (ascii "HEAD") (ascii "/style.css")) (ascii "/style.css") :=
    ⟨rfl, rfl, ⟨getPath, Or.inr asset⟩, ⟨headPath, Or.inr asset⟩, rfl⟩
  have found : Found .styled (Store.holding [] []) .whole
      (contentRequest (ascii "GET") (ascii "/style.css")) (ascii "/style.css") := by
    unfold Found
    rw [if_neg (by simp [other])]
    exact ⟨plain, fits, ⟨ascii "body {}", rfl⟩, rfl⟩
  exact (head_matches_iff pair).mpr found

/-- A HEAD of an artifact that is not there sends a body. -/
theorem missing_head_has_body :
    GetAndHead .sample (contentRequest (ascii "GET") (ascii "/foo-1-1.tar.gz"))
        (contentRequest (ascii "HEAD") (ascii "/foo-1-1.tar.gz")) (ascii "/foo-1-1.tar.gz") ∧
      ¬ HeadMatches
        (Sender.fresh.dispatchContent .sample (Store.holding [] []) .whole
          (contentRequest (ascii "GET") (ascii "/foo-1-1.tar.gz")) (ascii "/foo-1-1.tar.gz"))
        (Sender.fresh.dispatchContent .sample (Store.holding [] []) .whole
          (contentRequest (ascii "HEAD") (ascii "/foo-1-1.tar.gz")) (ascii "/foo-1-1.tar.gz")) := by
  obtain ⟨artifact, getPath, headPath, missing⟩ :
      isArtifactPath (ascii "/foo-1-1.tar.gz") = true ∧
        dispatchPath (contentRequest (ascii "GET") (ascii "/foo-1-1.tar.gz")) =
          some (ascii "/foo-1-1.tar.gz") ∧
        dispatchPath (contentRequest (ascii "HEAD") (ascii "/foo-1-1.tar.gz")) =
          some (ascii "/foo-1-1.tar.gz") ∧
        storeOpen (Store.holding [] []) ((ascii "/foo-1-1.tar.gz").drop 1) = .error .notFound := by
    decide +kernel
  have pair : GetAndHead .sample (contentRequest (ascii "GET") (ascii "/foo-1-1.tar.gz"))
      (contentRequest (ascii "HEAD") (ascii "/foo-1-1.tar.gz")) (ascii "/foo-1-1.tar.gz") :=
    ⟨rfl, rfl, ⟨getPath, Or.inl artifact⟩, ⟨headPath, Or.inl artifact⟩, rfl⟩
  exact ⟨pair, not_matches_missing pair artifact missing⟩

end CixCache
