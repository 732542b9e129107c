import LabelAtlas.Source.Statement

/-!
One line of a labels file: a name, a colon or none, `EQU` or an equals sign, and a value that ends
at a comment.
-/

namespace LabelAtlas.Export

open Text Source

/-- The letters of a first character are compared without regard to case, and four letters
outside ASCII have an ASCII letter as a case of their own. -/
def isNameStart (c : CodePoint) : Bool :=
  isLabelStart c || c = '\u0130' || c = '\u0131' || c = '\u017F' || c = '\u212A'

def startsWithWord (t : Text) : Bool :=
  t.head?.any isWord

/-- What follows `EQU`, as a whole word in any case, or an equals sign. -/
def afterAssign? (t : Text) : Option Text :=
  match t with
  | .scalar '=' :: u => some u
  | _ => (afterWord? "equ" t).filter (!startsWithWord ·)

/-- The value in what follows a name. -/
def valueText? (t : Text) : Option Text :=
  (afterAssign? (stripStart (dropColon (stripStart t)))).map fun u =>
    stripEnd ((stripStart u).takeWhile (· ≠ ';'))

def startsWithNameChar (t : Text) : Bool :=
  t.head?.any isNameChar

/-- The longest name from the first character on that leaves an assignment, and the value. -/
def longest? : Text → Option (Text × Text)
  | [] => none
  | c :: t =>
    match if startsWithNameChar t then longest? t else none with
    | some (name, value) => some (c :: name, value)
    | none => (valueText? t).map ([c], ·)

/-- The name and the value text of a line that exports a label. -/
def line? (line : Text) : Option (Text × Text) :=
  match stripStart line with
  | [] => none
  | c :: t =>
    if isNameStart c then longest? (c :: t) else none

end LabelAtlas.Export
