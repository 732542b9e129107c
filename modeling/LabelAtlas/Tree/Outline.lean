import LabelAtlas.Json.Value
import LabelAtlas.Tree.Walk

/-! A tree as JSON. -/
namespace LabelAtlas

open Json

def entryMembers (label : Json) (e : Entry) (children : List Json) : Json :=
  .obj [
    ("label", label),
    ("line_number", .int e.lineNumber),
    ("description", ofText? e.description),
    ("kind", ofText? (e.kind.map Kind.name)),
    ("value", ofInt? e.value),
    ("children", .arr children)]

def Forest.outline (label : Text) : Forest → List Json
  | nil => []
  | cons s e below next =>
    entryMembers (.str (extend label s)) e (outline (extend label s) below) :: outline label next

/-- A label is a text; any other value stands as it is given, and as it is shown in the labels
below. -/
def Tree.outline (t : Tree) (label : Json) : Json :=
  entryMembers label t.entry (t.below.outline (label.shownOr []))

end LabelAtlas
