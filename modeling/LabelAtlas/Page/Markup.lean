import LabelAtlas.Text.Basic

/-! Markup as a list of pieces. Texts are escaped when they are written; attribute values are
written as they are. -/
namespace LabelAtlas

abbrev Attributes := List (Text × Text)

inductive Piece where
  | doctype
  | opening (tag : Text) (attributes : Attributes)
  | closing (tag : Text)
  /-- A tag that is never closed. -/
  | void (tag : Text) (attributes : Attributes)
  | text (t : Text)
  deriving DecidableEq, Repr

namespace Piece

def escapeChar (c : CodePoint) : Text :=
  if c = '&' then "&amp;"
  else if c = '<' then "&lt;"
  else if c = '>' then "&gt;"
  else if c = '"' then "&quot;"
  else if c = '\'' then "&#x27;"
  else [c]

def escape (t : Text) : Text :=
  t.flatMap escapeChar

def writeAttributes (attributes : Attributes) : Text :=
  attributes.flatMap fun a => " " ++ a.1 ++ "=\"" ++ a.2 ++ "\""

def write : Piece → Text
  | doctype => "<!DOCTYPE html>"
  | opening tag attributes | void tag attributes =>
    .scalar '<' :: tag ++ writeAttributes attributes ++ ">"
  | closing tag => "</" ++ tag ++ ">"
  | text t => escape t

def newLine : Piece := .text "\n"

end Piece

/-- Lines of pieces, one below the other. -/
def joinLines (lines : List (List Piece)) : List Piece :=
  [Piece.newLine].intercalate lines

def writePieces (pieces : List Piece) : Text :=
  pieces.flatMap Piece.write

end LabelAtlas
