import LabelAtlas.Encoding.Utf8
import LabelAtlas.Path

/-! The files a run sees: those below the working directory, and nothing else but the directories
above it and the root. -/
namespace LabelAtlas

/-- A place that path components lead to: names below the working directory, below one of the
directories above it, or below the root. -/
structure Location where
  absolute : Bool := false
  up : Nat := 0
  names : List Text := []
  deriving DecidableEq, Repr

namespace Location

def parent (l : Location) : Location :=
  if l.names.isEmpty then (if l.absolute then l else { l with up := l.up + 1 })
  else { l with names := l.names.dropLast }

def child (l : Location) (name : Text) : Location :=
  { l with names := l.names ++ [name] }

end Location

inductive Node where
  | file (content : Utf8.Bytes)
  /-- A file that exists and cannot be read. -/
  | locked
  | directory
  deriving DecidableEq, Repr

/-- Why a path leads nowhere. -/
inductive Blocked where
  | missing
  /-- The path goes on below a file. -/
  | throughFile
  /-- A name, or the path as a whole, has too many bytes. -/
  | tooLong
  /-- A path cannot hold the character with code zero. -/
  | zero
  | unencodable (e : Utf8.Unencodable)
  deriving DecidableEq, Repr

structure Store where
  nodes : List (Location × Node) := []
  deriving DecidableEq, Repr

namespace Store

/-- The working directory, the directories above it and the root are always there. -/
def node? (s : Store) (l : Location) : Option Node :=
  if l.names.isEmpty then some .directory else (s.nodes.find? (·.1 = l)).map (·.2)

def put (s : Store) (l : Location) (n : Node) : Store :=
  if s.nodes.any (·.1 = l) then
    ⟨s.nodes.map fun p => if p.1 = l then (l, n) else p⟩
  else ⟨s.nodes ++ [(l, n)]⟩

/-- The greatest number of bytes of a name. -/
def maxNameBytes : Nat := 255

/-- The greatest number of bytes of a path. -/
def maxPathBytes : Nat := 4095

def isLongName (part : Text) : Bool :=
  match Utf8.encodeName part with
  | .ok bytes => maxNameBytes < bytes.length
  | .error _ => false

/-- One component further; only directories can be passed. -/
def enter (s : Store) (l : Location) (part : Text) : Except Blocked Location :=
  match s.node? l with
  | some .directory =>
    if isLongName part then .error .tooLong
    else .ok (if part = ".." then l.parent else l.child part)
  | some _ => .error .throughFile
  | none => .error .missing

/-- The bytes of a path, if the system can be asked for it at all. -/
def pathBytes (p : Path) : Except Blocked Utf8.Bytes := do
  let bytes ← (Utf8.encodeName p.toText).mapError .unencodable
  if bytes.contains 0 then .error .zero
  else if maxPathBytes < bytes.length then .error .tooLong
  else .ok bytes

def resolve (s : Store) (p : Path) : Except Blocked Location := do
  let _ ← pathBytes p
  p.parts.foldlM s.enter { absolute := p.isAbsolute }

/-- Why there is nothing to read at a path. -/
inductive Unreadable where
  | blocked (why : Blocked)
  | directory
  | locked
  deriving DecidableEq, Repr

def read (s : Store) (p : Path) : Except Unreadable Utf8.Bytes :=
  match s.resolve p with
  | .error why => .error (.blocked why)
  | .ok l => match s.node? l with
    | some (.file content) => .ok content
    | some .locked => .error .locked
    | some .directory => .error .directory
    | none => .error (.blocked .missing)

/-- Why a directory cannot be made or a file cannot be written. -/
inductive Unwritable where
  | blocked (why : Blocked)
  /-- A file stands where a directory is to be. -/
  | fileInPlace
  /-- A directory stands where a file is to be. -/
  | directoryInPlace
  deriving DecidableEq, Repr

/-- Makes one directory. One that is there already is left as it is. -/
def makeDirectory (s : Store) (p : Path) : Except Unwritable Store :=
  match s.resolve p with
  | .error why => .error (.blocked why)
  | .ok l => match s.node? l with
    | some .directory => .ok s
    | some _ => .error .fileInPlace
    | none => .ok (s.put l .directory)

/-- Makes a directory and, if it needs them, those above it. The components come in reverse. -/
def makeDirectoriesFrom (root : Path.Root) : List Text → Store → Except Unwritable Store
  | [], s => .ok s
  | part :: above, s =>
    let p : Path := ⟨root, (part :: above).reverse⟩
    match s.makeDirectory p with
    | .error (.blocked .missing) => do
      let s ← makeDirectoriesFrom root above s
      s.makeDirectory p
    | result => result

def makeDirectories (s : Store) (p : Path) : Except Unwritable Store :=
  makeDirectoriesFrom p.root p.parts.reverse s

def write (s : Store) (p : Path) (content : Utf8.Bytes) : Except Unwritable Store :=
  match s.resolve p with
  | .error why => .error (.blocked why)
  | .ok l => match s.node? l with
    | some .directory => .error .directoryInPlace
    | _ => .ok (s.put l (.file content))

/-- Puts a node below the working directory, with the directories it needs. -/
def place (s : Store) (p : Path) (n : Node) : Store :=
  let above := (List.range p.parts.length).drop 1 |>.map fun k => p.parts.take k
  let s := above.foldl (fun s names => s.put { names := names } .directory) s
  s.put { names := p.parts } n

/-- The files that are in `after` and not, or with other content, in `before`. -/
def changes (before after : Store) : List (Location × Utf8.Bytes) :=
  after.nodes.filterMap fun
    | (l, .file content) =>
      if before.node? l = some (.file content) then none else some (l, content)
    | _ => none

end Store

end LabelAtlas
