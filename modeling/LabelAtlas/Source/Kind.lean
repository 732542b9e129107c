import LabelAtlas.Source.Statement

/-!
What a label stands for is decided by the first word of the first statement at or behind it.
-/

namespace LabelAtlas

inductive Kind where
  | code
  | data
  | constant
  | unknown
  deriving DecidableEq, Repr

namespace Kind

def name : Kind → Text
  | code => "code"
  | data => "data"
  | constant => "constant"
  | unknown => "unknown"

def ofName? (t : Text) : Option Kind :=
  [code, data, constant, unknown].find? (·.name = t)

end Kind

namespace Source

open Text

/-- Words that give a label a value instead of a place. -/
def constantWords : List Text := ["equ", "=", "defl"]

/-- Words that lay down data. -/
def dataWords : List Text := [
  "db", "defb", "dw", "defw", "dd", "defd", "dword", "ds", "defs", "dm", "defm", "dz", "dc", "d24",
  "byte", "word", "block", "abyte", "abytec", "abytez", "incbin", "dg", "defg", "dh", "defh"]

/-- Lower case as far as ASCII words can tell: beside the ASCII letters only the Kelvin sign has
an ASCII letter as its lower case. -/
def foldCase (c : CodePoint) : CodePoint :=
  if c = '\u212A' then 'k' else c.toLower

def firstWord? (statement : Text) : Option Text :=
  match stripStart statement with
  | [] => none
  | t => some (t.takeWhile (!isBlank ·))

def wordKind (word : Text) : Kind :=
  if constantWords.contains word || word.head? = some (.scalar '=') then .constant
  else if dataWords.contains word || dataWords.contains (word.dropWhile (· = '.')) then .data
  else .code

/-- A blank statement has no kind. -/
def statementKind? (statement : Text) : Option Kind :=
  (firstWord? statement).map fun word => wordKind (word.map foldCase)

/-- The kind of the first line that has a statement. -/
def firstKind (lines : List Text) : Kind :=
  (lines.findSome? fun line => statementKind? (statement line)).getD .unknown

/-- Where a scan of `scan` lines behind line `n` stops. A place before the first line is counted
from the end of the list. -/
def scanStop (size n : Nat) (scan : Int) : Nat :=
  let stop : Int := min size (n + 1 + scan)
  (if stop < 0 then size + stop else stop).toNat

def following (lines : List Text) (n : Nat) (scan : Int) : List Text :=
  (lines.take (scanStop lines.length n scan)).drop (n + 1)

/-- The kind of the label on line `n`: its own statement decides, or else the first of the
`scan` lines behind it that has one. -/
def kindAt (lines : List Text) (n : Nat) (scan : Int) : Kind :=
  match lines[n]? with
  | none => .unknown
  | some line => firstKind (line :: following lines n scan)

/-- A label without a line, or with one outside the list, is of unknown kind. -/
def kindOf (lines : List Text) (line : Option Int) (scan : Int) : Kind :=
  match line with
  | some (.ofNat n) => kindAt lines n scan
  | _ => .unknown

end Source

end LabelAtlas
