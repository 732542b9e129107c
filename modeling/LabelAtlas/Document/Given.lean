import LabelAtlas.Amount
import LabelAtlas.Document.Build
import LabelAtlas.Document.Depth

/-! What a document is built from is taken as it is given. A value that a step cannot work with is
a fault only if the step gets to use it. -/
namespace LabelAtlas

namespace Listing

/-- The source text of a line for a given column. A missing column cuts nothing off. -/
def cut (column : Json) (line : Text) : Except Fault Text :=
  if isBanner line then .ok []
  else match column, Amount.ofJson? column with
    | _, some (.whole n) => .ok (sourceText n line)
    | _, some (.real _) => .error .fractionalColumn
    | .null, none => .ok (sourceText 0 line)
    | _, none => .error (.notNumber "source_column")

/-- The column a listing is cut at. A fraction is a fault as soon as there is a line to cut. -/
def columnFor (column : Amount) (lines : List Text) : Except Fault Nat :=
  match column with
  | .whole n => .ok n.toNat
  | .real _ => if lines.all isBanner then .ok 0 else .error .fractionalColumn

end Listing

/-- How the lines above a label are read: the column their source text starts in, if they are cut
at all, and the number of blank lines tolerated, if it is one. -/
structure Reading where
  column : Option Amount := none
  blankLines : Option Amount := some (.whole Description.defaultTolerance)
  deriving DecidableEq, Repr

namespace Reading

def view (r : Reading) (line : Text) : Text :=
  match r.column with
  | none => line
  | some (.whole n) => Listing.sourceText n line
  | some (.real _) => Listing.sourceText 0 line

/-- The blank lines tolerated in a list of lines of a given length. -/
def tolerance (r : Reading) (size : Nat) : Int :=
  (r.blankLines.map (·.limit size)).getD 0

def describe (r : Reading) (lines : List Text) (line : Option Int) : Option Text :=
  Description.describe lines r.view (r.tolerance lines.length) line

/-- Whether the search above a line comes to a line that has to be cut: banners are blank, and any
other line ends the search for a comment. -/
def cutsLine (r : Reading) (lines : List Text) (line : Option Int) : Bool :=
  let marked := fun (t : Text) => if Listing.isBanner t then [] else ("x" : Text)
  (Description.describe lines marked (r.tolerance lines.length) line).isSome

/-- Whether there is a blank line directly above a line. -/
def countsBlanks (r : Reading) (lines : List Text) (line : Option Int) : Bool :=
  match line with
  | some (.ofNat (n + 1)) => lines[n]?.any fun t => Source.isBlankLine (r.view t)
  | _ => false

/-- A column must be whole if a line is cut, and blank lines need a limit if there are any. -/
def check (r : Reading) (lines : List Text) (line : Option Int) : Except Fault Unit := do
  if let some (.real _) := r.column then
    if r.cutsLine lines line then throw .fractionalColumn
  if r.blankLines.isNone && r.countsBlanks lines line then throw (.notNumber "max_blank_lines")

def checkedDescribe (r : Reading) (lines : List Text) (line : Option Int) :
    Except Fault (Option Text) := do
  r.check lines line
  return r.describe lines line

/-- Whether a number is that of a line with lines above it, or cannot be told from one. -/
def isBelow (lines : List Text) (x : Binary64) : Bool :=
  x = .nan || x.floor?.any fun (n : Int) =>
    1 ≤ n && (n < lines.length || x.whole? = some (lines.length : Int))

/-- The description of the label on a given line, which must be whole if lines are above it. -/
def describeAt (r : Reading) (lines : List Text) (line : Option Amount) :
    Except Fault (Option Text) :=
  match line with
  | some (.whole n) => r.checkedDescribe lines (some n)
  | some (.real x) => if isBelow lines x then .error .fractionalLine else .ok none
  | none => .error (.notNumber "line_number")

/-- Gives an entry its description. -/
def describeEntry (r : Reading) (lines : List Text) (e : Entry) : Except Fault Entry := do
  return { e with description := ← r.checkedDescribe lines e.line }

/-- Whether every entry of a tree can get its description. -/
def checkTree (r : Reading) (lines : List Text) (t : Tree) : Except Fault Unit :=
  (t.updateWithin fun e => do
    r.check lines e.line
    return e).2

end Reading

namespace Source

/-- Whether a line is there and has no statement. -/
def standsAlone (lines : List Text) (n : Nat) : Bool :=
  lines[n]?.any fun line => (statement line).isEmpty

/-- The number of lines to be searched behind labels on given lines. It is used only for a label
that stands alone. A fraction cannot end a search before the last line. -/
def scanFor (scan : Option Amount) (lines : List Text) (places : List Nat) : Except Fault Int :=
  match scan with
  | some (.whole n) => .ok n
  | some (.real x) =>
    if places.any fun n => standsAlone lines n && x.addStaysBelow (n + 1) lines.length then
      .error .fractionalScan
    else .ok lines.length
  | none =>
    if places.any (standsAlone lines) then .error (.notNumber "kind_scan_lines") else .ok 0

/-- The kind of the label on a given line, which must be whole if it is inside the list. -/
def checkedKind (lines : List Text) (line scan : Option Amount) : Except Fault Kind := do
  match line with
  | some (.whole (.ofNat n)) => return kindAt lines n (← scanFor scan lines [n])
  | some (.whole _) => return .unknown
  | some (.real x) =>
    if x.floor?.any fun (n : Int) => 0 ≤ n && n < lines.length then throw .fractionalLine
    else return .unknown
  | none => throw (.notNumber "line_number")

end Source

namespace Document

/-- What a key is compared by: truth values and whole fractions are the numbers they equal. -/
def keyForm : Json → Json
  | .bool b => .int (if b then 1 else 0)
  | .real x => (x.whole?.map .int).getD (.real x)
  | v => v

def keyText : Json → Text
  | .str t => t
  | v => v.writeAt 0

/-- A key given again in any form keeps its place and its form and takes the later value. -/
def putPair (key value : Json) (pairs : List (Json × Json)) : List (Json × Json) :=
  if pairs.any fun p => keyForm p.1 = keyForm key then
    pairs.map fun p => if keyForm p.1 = keyForm key then (p.1, value) else p
  else pairs ++ [(key, value)]

/-- The parts of an item that is to name a member and its value. -/
def partsOf : Json → Except Fault (List Json)
  | .arr items => .ok items
  | .str t => .ok (t.map fun c => .str [c])
  | .obj members => .ok (members.map fun m => .str m.1)
  | _ => .error .notMembers

/-- Adds pairs, the first of which stands at a position. Arrays and objects cannot be keys. -/
def addPairs (pairs : List (Json × Json)) (position : Nat) :
    List Json → Except Fault (List (Json × Json))
  | [] => .ok pairs
  | item :: rest => do
    match ← partsOf item with
    | [.arr _, _] | [.obj _, _] => .error .notMembers
    | [key, value] => addPairs (putPair key value pairs) (position + 1) rest
    | parts => .error (.notPair position parts.length)

def membersOf (pairs : List (Json × Json)) : Json.Object :=
  pairs.foldl (fun members p => Json.put (keyText p.1) p.2 members) []

/-- The metadata that a value stands for: an object, or an array of pairs. An empty value has no
members. -/
def metadataOf (v : Json) : Except Fault Json := do
  match v with
  | .obj members => return .obj members
  | v =>
    if v.isTruthy then return .obj (membersOf (← addPairs [] 0 (← partsOf v)))
    else return .obj []

/-- The document of labels with their lines. -/
def ofLabels (title metadata : Json) (labels : List (Text × Option Int)) (lines : List Text)
    (r : Reading) : Except Fault Document := do
  let metadata ← metadataOf metadata
  r.checkTree lines (plant labels)
  let root := treeOf labels lines r.view (r.tolerance lines.length)
  return { title := title, metadata := metadata, root := root }

end Document

end LabelAtlas
