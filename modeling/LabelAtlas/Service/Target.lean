import LabelAtlas.Json.Reader
import LabelAtlas.Numeral

/-! What a request is addressed to. A target may be a whole address or only its path; of both only
the path counts, without dot segments and with its escapes undone. -/
namespace LabelAtlas.Service

/-- The parts of a target that its path depends on. -/
structure Target where
  scheme : Text := []
  authority : Text := []
  path : Text := []
  deriving DecidableEq, Repr

namespace Target

/-- The greatest number of characters of a target. -/
def maxLength : Nat := 65536

def isSchemeChar (c : CodePoint) : Bool :=
  c.isAlpha || c.isDigit || c = '+' || c = '.' || c = '-'

/-- The scheme in front of a colon, which may be empty, and the rest. -/
def splitScheme (t : Text) : Text × Text :=
  let scheme := t.takeWhile isSchemeChar
  match t.drop scheme.length with
  | .scalar ':' :: rest =>
    if scheme.isEmpty || scheme.head?.any CodePoint.isAlpha then (scheme, rest) else ([], t)
  | _ => ([], t)

def isPathEnd (c : CodePoint) : Bool :=
  c = '?' || c = '#'

/-- The authority behind two slashes, and the rest. -/
def splitAuthority : Text → Text × Text
  | .scalar '/' :: .scalar '/' :: t =>
    let inside := fun c => !isPathEnd c && c ≠ .scalar '/'
    (t.takeWhile inside, t.dropWhile inside)
  | t => ([], t)

def ofText (t : Text) : Target :=
  let (scheme, rest) := splitScheme t
  let (authority, rest) := splitAuthority rest
  ⟨scheme, authority, rest.takeWhile (!isPathEnd ·)⟩

/-- The user in front of the last at sign of an authority. -/
def user (t : Target) : Text :=
  Text.join "@" (Text.splitAt '@' t.authority).dropLast

def site (t : Target) : Text :=
  (Text.splitAt '@' t.authority).getLast?.getD []

/-- A host ends at a colon, or at the last bracket if it stands in brackets. -/
def splitSite (t : Text) : Text × Text :=
  let inBrackets : Text := match t with
    | .scalar '[' :: _ => Text.dropEndWhile (· ≠ .scalar ']') t
    | _ => []
  let host : Text := if inBrackets.isEmpty then t.takeWhile (· ≠ .scalar ':') else inBrackets
  (host, t.drop host.length)

def host (t : Target) : Text :=
  (splitSite t.site).1

/-- What stands behind a host and a colon. -/
def siteNumber (t : Target) : Text :=
  match (splitSite t.site).2 with
  | .scalar ':' :: u => u
  | u => u

/-- Whether a target names a user, a host or a number behind it. -/
def hasAuthority (t : Target) : Bool :=
  !(t.user.isEmpty && t.host.isEmpty && t.siteNumber.isEmpty)

def isAsciiNumber (t : Text) : Bool :=
  !t.isEmpty && t.all CodePoint.isDigit

/-- A number of an address in four parts: it has no leading zero, and eight bits hold it. -/
def isOctet (t : Text) : Bool :=
  (t.length = 1 || t.head? ≠ some (.scalar '0'))
    && (Numeral.natOf? .ten t).any (· < 256)

/-- A host of four numbers must be an address. -/
def isHost (t : Text) : Bool :=
  let parts := Text.splitAt '.' t
  parts.length ≠ 4 || !parts.all isAsciiNumber || parts.all isOctet

/-- What stands behind a host must be a number. The path of a target with neither a scheme nor an
authority must not look as if it had one. -/
def isWellFormed (t : Target) : Bool :=
  (t.siteNumber.isEmpty || (Numeral.groupedInt? t.siteNumber).isSome) && isHost t.host
    && (!t.scheme.isEmpty || t.hasAuthority
      || !(t.path.head? = some (.scalar ':') || t.path.take 2 = "//"))

/-- A target with both a scheme and a host leads there by itself; any other is a path from the
root of the service. -/
def isAbsolute (t : Target) : Bool :=
  !t.scheme.isEmpty && !t.host.isEmpty

def fullPath (t : Target) : Text :=
  if t.isAbsolute then t.path else .scalar '/' :: t.path.dropWhile (· = .scalar '/')

/-- How far a request to a target gets. -/
inductive Access where
  | served
  | malformed
  /-- The scheme asks for a lasting connection, which is not offered. -/
  | lasting
  | unknownScheme
  deriving DecidableEq, Repr

def schemeAccess (scheme : Text) : Access :=
  let name := scheme.map CodePoint.toLower
  if name = "http" || name = "https" then .served
  else if name = "ws" || name = "wss" then .lasting
  else .unknownScheme

/-- A target has no control characters and a limited length. -/
def access (t : Text) : Access :=
  let target := ofText t
  if maxLength < t.length || t.any (fun c => c.toNat < 0x20 || c.toNat = 0x7F)
    || !target.isWellFormed then .malformed
  else if target.isAbsolute then schemeAccess target.scheme
  else .served

end Target

/-- Takes the next segment of a path: one dot stays where it is, and two go back, but not beyond
the root. -/
def followSegment (segments : List Text) (segment : Text) : List Text :=
  if segment = "." then segments
  else if segment = ".." then
    if segments = [[]] then segments else segments.dropLast
  else segments ++ [segment]

def removeDots (path : Text) : Text :=
  Text.join "/" ((Text.splitAt '/' path).foldl followSegment [])

/-- Undoes the escapes that stand for ASCII characters. No path of the service has others. -/
def unescape : Text → Text
  | .scalar '%' :: a :: b :: t =>
    match Json.hexDigit? a, Json.hexDigit? b with
    | some high, some low =>
      if high < 8 then .ofNat (high * 16 + low) :: unescape t
      else .scalar '%' :: unescape (a :: b :: t)
    | _, _ => .scalar '%' :: unescape (a :: b :: t)
  | c :: t => c :: unescape t
  | [] => []

/-- The path of a target. Escapes are undone twice, so an escaped percent sign can start one. -/
def pathOf (target : Text) : Text :=
  unescape (unescape (removeDots (Target.ofText target).fullPath))

end LabelAtlas.Service
