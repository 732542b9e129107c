import LabelAtlas.Text.Basic

/-!
Paths in normal form: no empty and no `.` components. Components `..` stay, because what they
mean depends on the files.
-/

namespace LabelAtlas

/-- What a path starts from. Exactly two leading slashes are a root of their own. -/
inductive Path.Root where
  | here
  | slash
  | doubleSlash
  deriving DecidableEq, Repr

structure Path where
  root : Path.Root := .here
  parts : List Text := []
  deriving DecidableEq, Repr

namespace Path

def rootOf : Text → Root
  | .scalar '/' :: .scalar '/' :: .scalar '/' :: _ => .slash
  | .scalar '/' :: .scalar '/' :: _ => .doubleSlash
  | .scalar '/' :: _ => .slash
  | _ => .here

def ofText (t : Text) : Path where
  root := rootOf t
  parts := (Text.splitAt '/' t).filter fun part => !part.isEmpty && part ≠ "."

def Root.text : Root → Text
  | here => []
  | slash => "/"
  | doubleSlash => "//"

/-- The path of the working directory is written as a dot. -/
def toText (p : Path) : Text :=
  if p.root = .here ∧ p.parts = [] then "." else p.root.text ++ Text.join "/" p.parts

def isAbsolute (p : Path) : Bool :=
  p.root ≠ .here

def parent (p : Path) : Path :=
  { p with parts := p.parts.dropLast }

/-- The last component. -/
def name (p : Path) : Text :=
  p.parts.getLast?.getD []

/-- A path taken relative to a directory. An absolute path stays as it is. -/
def under (dir p : Path) : Path :=
  if p.isAbsolute then p else { dir with parts := dir.parts ++ p.parts }

def child (dir : Path) (name : Text) : Path :=
  { dir with parts := dir.parts ++ [name] }

end Path

/-- The value of a setting that is to be a path. A flag with two hyphens joined to it gives an empty
list, which counts as given and leads nowhere. -/
inductive GivenPath where
  | path (p : Path)
  | emptyList
  deriving DecidableEq, Repr

namespace GivenPath

def ofText (t : Text) : GivenPath :=
  .path (.ofText t)

def path? : GivenPath → Option Path
  | path p => some p
  | emptyList => none

def under (dir : Path) : GivenPath → GivenPath
  | path p => .path (dir.under p)
  | emptyList => .emptyList

end GivenPath

end LabelAtlas
