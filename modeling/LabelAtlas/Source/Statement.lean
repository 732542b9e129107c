import LabelAtlas.Source.Comment

/-!
A line of code holds a label, a statement, both or neither. A label starts in the first column.
-/

namespace LabelAtlas.Source

open Text

def isLabelStart (c : CodePoint) : Bool :=
  c.isAlpha || c = '_' || c = '.' || c = '@'

/-- The characters a label or a module name goes on with. -/
def isNameChar (c : CodePoint) : Bool :=
  isWord c || c = '.' || c = '@' || c = '!' || c = '?' || c = '#'

def dropColon : Text → Text
  | .scalar ':' :: t => t
  | t => t

structure Parts where
  label : Option Text
  statement : Text
  deriving DecidableEq, Repr

/-- Splits code into its label, with or without a colon, and its statement. -/
def split : Text → Parts
  | [] => ⟨none, []⟩
  | c :: t =>
    if isLabelStart c then
      ⟨some (c :: t.takeWhile isNameChar), strip (dropColon (t.dropWhile isNameChar))⟩
    else ⟨none, strip (c :: t)⟩

def label? (line : Text) : Option Text :=
  (split (code line)).label

def statement (line : Text) : Text :=
  (split (code line)).statement

end LabelAtlas.Source
