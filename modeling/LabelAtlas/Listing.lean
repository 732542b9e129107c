import LabelAtlas.Json.Value
import LabelAtlas.Text.Lines

/-! List files. A line of a list file carries a line number, an address and opcode bytes in front
of the source text, which starts in a fixed column. -/
namespace LabelAtlas

/-- A name is a text or missing; any other value is kept as it is given. -/
structure Listing where
  lines : List Text
  column : Nat := 24
  name : Json := .null
  deriving DecidableEq, Repr

namespace Listing

open Text

/-- Banner lines of the assembler have no source text. -/
def isBanner (line : Text) : Bool :=
  line.head? = some (.scalar '#')

/-- Where a column lies in a line of a given length. A negative column counts from the end. -/
def columnIn (length : Nat) (column : Int) : Nat :=
  (if column < 0 then length + column else column).toNat

/-- The source text of a line of a list file. -/
def sourceText (column : Int) (line : Text) : Text :=
  if isBanner line then [] else stripEnd (line.drop (columnIn line.length column))

def ofText (t : Text) (column : Nat) (name : Json) : Listing :=
  ⟨Text.lines t, column, name⟩

def sourceOf (l : Listing) (line : Text) : Text :=
  sourceText l.column line

/-- The source text of every line, at the same place as the line. -/
def sourceLines (l : Listing) : List Text :=
  l.lines.map l.sourceOf

/-- A listing in one line. Its column is shown as it was given, and a question mark stands for a
missing or empty name. -/
def summaryOf (name : Json) (lines : Nat) (column : Json) : Text :=
  "<ListFile " ++ name.shownOr "?" ++ " lines=" ++ Numeral.decimal lines ++ " column="
    ++ column.literal ++ ">"

def summary (l : Listing) : Text :=
  summaryOf l.name l.lines.length (.int l.column)

end Listing

end LabelAtlas
