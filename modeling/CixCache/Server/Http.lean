import CixCache.Name.Bytes

/-!
Contract: what the routing code reads from a parsed request.

Owns: `HttpRequest`, the header lookup, percent decoding, the bearer check and
the path of a request as it is dispatched.

Does not own: accumulating and parsing the header block.
-/

namespace CixCache

abbrev carriageReturn : Byte := 13
abbrev lineFeed : Byte := 10
abbrev space : Byte := 32
abbrev tab : Byte := 9
abbrev colon : Byte := 58
abbrev percent : Byte := 37
abbrev questionMark : Byte := 63

/-- The bytes of a buffer up to its first NUL. -/
def cString (bytes : Bytes) : Bytes := bytes.takeWhile fun c => c ≠ 0

/-- `struct http_request`: the header block without its blank line, and the body
bytes that arrived in the same read. -/
structure HttpRequest where
  method : Bytes
  path : Bytes
  contentLength : Nat
  headers : Bytes
  body : Bytes
deriving DecidableEq, Repr

/-! ## Headers -/

/-- What follows the first CRLF. -/
def skipRequestLine : Bytes → Option Bytes
  | [] => none
  | [_] => none
  | first :: second :: rest =>
      if first = carriageReturn ∧ second = lineFeed then some rest
      else skipRequestLine (second :: rest)

def isBlank (c : Byte) : Bool := c == space || c == tab

/-- A header value without the blanks around it. -/
def trimBlanks (text : Bytes) : Bytes :=
  ((text.dropWhile isBlank).reverse.dropWhile isBlank).reverse

/-- The loop over header lines; each turn consumes at least one byte, so the
length of the block bounds them. -/
def findHeaderLine (name : Bytes) (outSize : Nat) : Nat → Bytes → Option Bytes
  | 0, _ => none
  | _ + 1, [] => none
  | fuel + 1, text =>
      let line := text.takeWhile fun c => c ≠ carriageReturn
      let next := (text.dropWhile fun c => c ≠ carriageReturn).drop 2
      if colon ∈ line then
        if strcasecmpEq (line.takeWhile fun c => c ≠ colon) name then
          let value := trimBlanks ((line.dropWhile fun c => c ≠ colon).drop 1)
          if outSize ≤ value.length then none else some value
        else findHeaderLine name outSize fuel next
      else findHeaderLine name outSize fuel next

/-- `none` for -1: absent, or too long for the caller's buffer. -/
def httpFindHeader (headers name : Bytes) (outSize : Nat) : Option Bytes :=
  match skipRequestLine headers with
  | none => none
  | some lines => findHeaderLine name outSize lines.length lines

/-! ## Paths -/

def hexval (c : Byte) : Option Byte :=
  if isDigit c then some (c - 48)
  else if decide (97 ≤ c) && decide (c ≤ 102) then some (c - 97 + 10)
  else if decide (65 ≤ c) && decide (c ≤ 70) then some (c - 65 + 10)
  else none

/-- `none` for a bad escape. -/
def httpPathDecode : Bytes → Option Bytes
  | [] => some []
  | c :: rest =>
      if c = percent then
        match rest with
        | high :: low :: tail =>
            match hexval high, hexval low with
            | some hi, some lo => (httpPathDecode tail).map fun decoded => (hi <<< 4 ||| lo) :: decoded
            | _, _ => none
        | _ => none
      else (httpPathDecode rest).map fun decoded => c :: decoded

/-- The target of a request without its query, decoded in place. -/
def dispatchPath (req : HttpRequest) : Option Bytes :=
  (httpPathDecode (req.path.takeWhile fun c => c ≠ questionMark)).map cString

/-! ## Authorization -/

/-- CONF_TOKEN_MAX -/
def confTokenMax : Nat := 256

def bearerPrefix : Bytes := ascii "Bearer "

/-- An unset token is an open door. -/
def bearerOk (req : HttpRequest) (expect : Bytes) : Bool :=
  if expect = [] then true
  else
    match httpFindHeader req.headers (ascii "Authorization") (confTokenMax + 32) with
    | none => false
    | some header =>
        let text := cString header
        let got := if text.take bearerPrefix.length = bearerPrefix then text.drop bearerPrefix.length
          else text
        got == expect

example :
    httpFindHeader (ascii "PUT /a HTTP/1.1\r\nHost: x\r\nx-cix-sha256:  abc \r\n") (ascii "X-Cix-Sha256")
      73 = some (ascii "abc") := by
  decide

end CixCache
