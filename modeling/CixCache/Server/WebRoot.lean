import CixCache.Lib.PathWalk
import CixCache.Server.Handlers
import CixCache.Server.Parse

/-!
Contract: the files that dashboard requests open.

Owns: `serveStatic` and `dispatch` with the paths they open under the web root; what
it is for such a path to stay below the web root; and for which requests it does.

Links are not followed: a path leads where its components lead.

Does not own: which regular file a path is (`Conf.webFiles`).
-/

namespace CixCache

open CixCache.Lib

/-! ## Functions of the source -/

/-- `serve_static` with the path it passes to `open`. -/
def serveStaticOpens (conf : Conf) (conn : Conn) (reqPath : Bytes) (headOnly : Bool) :
    Traced Bytes Conn :=
  if [dot, dot] <:+: reqPath then pure (conn.respond (.error 400 (ascii "bad path")))
  else
    let asset := if reqPath = [slash] then ascii "/index.html" else reqPath
    let path := conf.webRoot ++ asset
    if pathMax ≤ path.length then pure (conn.respond (.error 400 (ascii "bad path")))
    else do
      match ← Traced.perform path (conf.webFiles path) with
      | none => pure (conn.respond (.error 404 (ascii "no such endpoint")))
      | some content =>
          pure (conn.respond
            { status := 200
              contentType := contentTypeFor path
              extra := []
              contentLength := some content.length
              body := if headOnly then .empty else .blob content })

section Values

variable {conf : Conf} {sys : Sys} {st : Store} {importRunning : Bool} {conn : Conn}
  {req : HttpRequest}

theorem serveStaticOpens_value (conf : Conf) (conn : Conn) (reqPath : Bytes) (headOnly : Bool) :
    (serveStaticOpens conf conn reqPath headOnly).value = serveStatic conf conn reqPath headOnly := by
  unfold serveStaticOpens serveStatic
  split
  next => rfl
  next =>
    dsimp only
    generalize conf.webRoot ++ (if reqPath = [slash] then ascii "/index.html" else reqPath) = path
    split
    next => rfl
    next =>
      rw [Traced.value_bind, Traced.value_perform]
      cases conf.webFiles path <;> rfl

/-- The handlers with the paths opened under the web root. -/
def assetHandlers : Handlers Bytes where
  serveStatic := serveStaticOpens
  serveStatic_value := serveStaticOpens_value

def dispatchOpens (conf : Conf) (sys : Sys) (st : Store) (importRunning : Bool) (conn : Conn)
    (req : HttpRequest) : Traced Bytes Dispatched :=
  assetHandlers.dispatch conf sys st importRunning conn req

/-- Without the paths it opens, the request is answered as `dispatch` answers it. -/
theorem dispatchOpens_value (conf : Conf) (sys : Sys) (st : Store) (importRunning : Bool)
    (conn : Conn) (req : HttpRequest) :
    (dispatchOpens conf sys st importRunning conn req).value =
      dispatch conf sys st importRunning conn req :=
  assetHandlers.dispatch_value

/-! ## What is opened -/

/-- The file behind a path under the web root, `/` standing for its index. -/
def assetPath (conf : Conf) (path : Bytes) : Bytes :=
  conf.webRoot ++ if path = [slash] then ascii "/index.html" else path

/-- A request whose decoded path `serve_static` opens a file for. -/
structure OpensAsset (conf : Conf) (req : HttpRequest) (path : Bytes) : Prop where
  decoded : dispatchPath req = some path
  noArtifact : isArtifactPath path = false
  noManifest : ¬ (req.method = ascii "GET" ∧ path = ascii "/MANIFEST.json")
  noApi : path.take apiPrefix.length ≠ apiPrefix
  method : req.method = ascii "GET" ∨ req.method = ascii "HEAD"
  noParent : ¬ [dot, dot] <:+: path
  fits : (assetPath conf path).length < pathMax

theorem mem_serveStaticOpens {reqPath text : Bytes} {headOnly : Bool} :
    text ∈ (serveStaticOpens conf conn reqPath headOnly).events ↔
      ¬ [dot, dot] <:+: reqPath ∧ (assetPath conf reqPath).length < pathMax ∧
        text = assetPath conf reqPath := by
  unfold serveStaticOpens assetPath
  split
  next parent => simp [parent, pure]
  next noParent =>
    dsimp only
    generalize conf.webRoot ++ (if reqPath = [slash] then ascii "/index.html" else reqPath) = path
    split
    next long =>
      have notShort : ¬ path.length < pathMax := by omega
      simp [notShort, pure]
    next fits =>
      have short : path.length < pathMax := by omega
      have events : ∀ answer : Option Bytes → Traced Bytes Conn,
          (∀ read, (answer read).events = []) →
            (Traced.perform path (conf.webFiles path) >>= answer).events = [path] := by
        intro answer silent
        rw [Traced.events_bind, silent]
        rfl
      rw [events _ (by intro read; cases read <;> rfl), List.mem_singleton]
      simp [noParent, short]

theorem dispatchArtifact_opens_nothing (name : Bytes) :
    Traced.Only (fun _ => False)
      (assetHandlers.dispatchArtifact conf sys st importRunning conn req name) := by
  apply Handlers.dispatchArtifact_only <;> intros <;> exact Traced.only_pure _

theorem dispatchApi_opens_nothing (endpoint : Bytes) :
    Traced.Only (fun _ => False)
      (assetHandlers.dispatchApi conf sys st importRunning conn req endpoint) := by
  apply Handlers.dispatchApi_only
  constructor <;> intros <;> exact Traced.only_pure _

/-- The one path a request opens under the web root, and when it does. -/
theorem mem_dispatchOpens {text : Bytes} :
    text ∈ (dispatchOpens conf sys st importRunning conn req).events ↔
      ∃ path, OpensAsset conf req path ∧ text = assetPath conf path := by
  unfold dispatchOpens Handlers.dispatch
  constructor
  · intro member
    split at member
    next => contradiction
    next path decoded =>
      split at member
      next => exact (dispatchArtifact_opens_nothing _ _ member).elim
      next noArtifact =>
        split at member
        next => contradiction
        next noManifest =>
          split at member
          next => exact (dispatchApi_opens_nothing _ _ member).elim
          next noApi =>
            split at member
            next method =>
              rw [Traced.events_bind, List.mem_append] at member
              rcases member with opened | none
              · obtain ⟨noParent, fits, same⟩ := mem_serveStaticOpens.mp opened
                exact ⟨path, ⟨decoded, by simpa using noArtifact, noManifest, noApi, method,
                  noParent, fits⟩, same⟩
              · contradiction
            next => contradiction
  · intro opened
    obtain ⟨path, opens, same⟩ := opened
    rw [opens.decoded]
    dsimp only
    rw [if_neg (by simp [opens.noArtifact]), if_neg opens.noManifest, if_neg opens.noApi,
      if_pos opens.method, Traced.events_bind]
    apply List.mem_append_left
    exact mem_serveStaticOpens.mpr ⟨opens.noParent, opens.fits, same⟩

end Values

/-! ## Below the web root -/

/-- Where the components of a path lead, links aside. -/
def place (text : Bytes) : List Bytes := walk [dot] [dot, dot] [] (text.splitOn slash)

/-- A path below a directory: the directory, a slash and components none of which
goes up, so that it leads to a place below the directory's. -/
structure Below (directory text : Bytes) : Prop where
  relative : ∃ rel, text = directory ++ slash :: rel ∧ [dot, dot] ∉ rel.splitOn slash
  inside : place directory <+: place text

theorem below_of_plain {directory rel : Bytes} (plain : ¬ [dot, dot] <:+: rel) :
    Below directory (directory ++ slash :: rel) := by
  have never : [dot, dot] ∉ rel.splitOn slash := fun member => plain (infix_of_mem_splitOn member)
  constructor
  · exact ⟨rel, rfl, never⟩
  · unfold place
    rw [List.splitOn_append_cons_self, walk_append]
    exact walk_below never _

/-- A request for an asset by a path without its leading slash. -/
structure OpensSlashless (conf : Conf) (req : HttpRequest) (path : Bytes) : Prop where
  decoded : dispatchPath req = some path
  slashless : path.head? ≠ some slash
  method : req.method = ascii "GET" ∨ req.method = ascii "HEAD"
  noArtifact : isArtifactPath path = false
  noParent : ¬ [dot, dot] <:+: path
  fits : (conf.webRoot ++ path).length < pathMax

section Confinement

variable {conf : Conf} {sys : Sys} {st : Store} {importRunning : Bool} {conn : Conn}
  {req : HttpRequest}

theorem OpensSlashless.opens {path : Bytes} (slashless : OpensSlashless conf req path) :
    OpensAsset conf req path ∧ assetPath conf path = conf.webRoot ++ path := by
  have same : assetPath conf path = conf.webRoot ++ path := by
    have noRoot : path ≠ [slash] := by
      intro root
      exact slashless.slashless (by rw [root]; rfl)
    rw [assetPath, if_neg noRoot]
  refine ⟨⟨slashless.decoded, slashless.noArtifact, ?_, ?_, slashless.method, slashless.noParent,
    ?_⟩, same⟩
  · intro manifest
    exact slashless.slashless (by rw [manifest.2]; rfl)
  · intro api
    have first : (path.take apiPrefix.length).head? = some slash := by rw [api]; rfl
    rw [List.head?_take, if_neg (by decide)] at first
    exact slashless.slashless first
  · rw [same]
    exact slashless.fits

/-- An asset whose path starts with a slash is opened below the web root. -/
theorem OpensAsset.below {path : Bytes} (opens : OpensAsset conf req path)
    (leading : path.head? = some slash) : Below conf.webRoot (assetPath conf path) := by
  unfold assetPath
  split
  next =>
    have index : ascii "/index.html" = slash :: ascii "index.html" := by decide
    rw [index]
    exact below_of_plain (by decide)
  next =>
    obtain ⟨rest, rfl⟩ := List.head?_eq_some_iff.mp leading
    apply below_of_plain
    intro inside
    exact opens.noParent (inside.trans (List.suffix_cons slash rest).isInfix)

/-- Every path a request opens is below the web root exactly when the request is
not for an asset by a path without a leading slash. -/
theorem opens_below_iff (conf : Conf) (sys : Sys) (st : Store) (importRunning : Bool) (conn : Conn)
    (req : HttpRequest) :
    (∀ text ∈ (dispatchOpens conf sys st importRunning conn req).events,
        Below conf.webRoot text) ↔
      ¬ ∃ path, OpensSlashless conf req path := by
  constructor
  · intro below
    rintro ⟨path, slashless⟩
    obtain ⟨opens, same⟩ := slashless.opens
    obtain ⟨rel, shape, _⟩ :=
      (below _ (mem_dispatchOpens.mpr ⟨path, opens, rfl⟩)).relative
    rw [same] at shape
    have leading := List.append_cancel_left shape
    exact slashless.slashless (by rw [leading]; rfl)
  · intro noSlashless text opened
    obtain ⟨path, opens, rfl⟩ := mem_dispatchOpens.mp opened
    apply opens.below
    by_contra slashless
    apply noSlashless
    refine ⟨path, opens.decoded, slashless, opens.method, opens.noArtifact, opens.noParent, ?_⟩
    have noRoot : path ≠ [slash] := by
      intro root
      exact slashless (by rw [root]; rfl)
    have fits := opens.fits
    rw [assetPath, if_neg noRoot] at fits
    exact fits

end Confinement

/-! ## A target without its slash -/

/-- A configuration beside whose web root there is a file. -/
def Conf.beside : Conf :=
  { Conf.sample with
    webFiles := fun path =>
      if path = ascii "/usr/share/cix-cache/web.conf" then some (ascii "a") else none }

/-- `GET .conf` -/
def slashlessRequest : HttpRequest :=
  ⟨ascii "GET", ascii ".conf", 0, ascii "GET .conf HTTP/1.1", []⟩

/-- A request line without a slash opens, and serves, a file beside the web root. -/
theorem file_beside_served :
    feedChunks .init [ascii "GET .conf HTTP/1.1" ++ blankLine] = .complete slashlessRequest ∧
      (dispatchOpens .beside (Sys.succeeding fun _ => none) (Store.holding [] []) false .fresh
        slashlessRequest).events = [ascii "/usr/share/cix-cache/web.conf"] ∧
      ¬ Below Conf.beside.webRoot (ascii "/usr/share/cix-cache/web.conf") ∧
      (dispatch .beside (Sys.succeeding fun _ => none) (Store.holding [] []) false .fresh
        slashlessRequest).conn.status = some 200 := by
  refine ⟨by decide +kernel, by decide +kernel, ?_, by decide +kernel⟩
  intro below
  have outside : ¬ place Conf.beside.webRoot <+: place (ascii "/usr/share/cix-cache/web.conf") := by
    decide +kernel
  exact outside below.inside

end CixCache
