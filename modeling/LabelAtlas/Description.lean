import LabelAtlas.Source.Comment

/-! A label is described by the comment lines directly above it. -/
namespace LabelAtlas.Description

open Text Source

/-- Blank lines allowed between the comment and the label unless a limit is given. -/
def defaultTolerance : Int := 2

/-- The bodies of the comment lines that a list of lines starts with. -/
def commentRun : List Text → List Text
  | [] => []
  | line :: rest =>
    match commentBody? line with
    | some body => body :: commentRun rest
    | none => []

def blankCount (lines : List Text) : Nat :=
  (lines.takeWhile isBlankLine).length

/-- Reads upwards: `above` holds the lines above the label, the nearest first. Only blank lines,
or more of them than are tolerated, give no description. -/
def ofAbove (tolerance : Int) (above : List Text) : Option Text :=
  let blanks := blankCount above
  if blanks = above.length || (0 < blanks && tolerance < blanks) then none
  else some (join "\n" (commentRun (above.drop blanks)).reverse)

/-- The description of the label on a line. `view` gives the source text of a line. A label
without a line, or with one outside the list, has none; an uncommented label has an empty one. -/
def describe (lines : List Text) (view : Text → Text) (tolerance : Int) (line : Option Int) :
    Option Text :=
  match line with
  | some (.ofNat n) =>
    if n ≤ lines.length then ofAbove tolerance ((lines.take n).reverse.map view) else none
  | _ => none

end LabelAtlas.Description
