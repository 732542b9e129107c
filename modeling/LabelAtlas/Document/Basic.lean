import LabelAtlas.Json.Value
import LabelAtlas.Tree.Walk

/-! A document: a tree of labels with a title, the name of its source and further metadata. The
root of the tree is never shown. -/
namespace LabelAtlas

/-- Title and source name are texts and metadata is an object; any other value is kept as it is
given and looked at only when the document is shown. -/
structure Document where
  title : Json := .str "Assembler Documentation"
  sourceName : Json := .null
  metadata : Json := .obj []
  root : Tree := {}
  deriving DecidableEq, Repr

/-- Why a document cannot be shown. -/
inductive Flaw where
  /-- A number has too many decimal digits. -/
  | longInteger
  | titleNotText
  | sourceNotText
  | metadataNotObject
  /-- The unresolved labels of the metadata are no set of names. -/
  | namesNotSet
  deriving DecidableEq, Repr

namespace Document

/-- The labels and trees in the order in which they are shown. -/
def entered (d : Document) : List (Text × Tree) :=
  d.root.entered []

def size (d : Document) : Nat :=
  d.root.below.size

def depthOf (label : Text) : Nat :=
  label.count (.scalar '.') + 1

/-- The greatest number of segments of a label. -/
def maxDepth (d : Document) : Nat :=
  d.entered.foldl (fun depth p => max depth (depthOf p.1)) 0

def summary (d : Document) : Text :=
  "<HierarchyTree title=" ++ d.title.literal ++ " entries=" ++ Numeral.decimal d.size ++ " depth="
    ++ Numeral.decimal d.maxDepth ++ ">"

end Document

end LabelAtlas
