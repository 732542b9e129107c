import LabelAtlas.Definition
import LabelAtlas.Description
import LabelAtlas.Document.Basic
import LabelAtlas.Export.Labels
import LabelAtlas.Listing

/-! Building a document from labels and the lines they are defined on. -/
namespace LabelAtlas.Document

/-- How a document is built: the blank lines tolerated above a label, whether labels get a kind,
and how many lines behind a label on a line of its own are searched for it. -/
structure Options where
  title : Json := .str "Assembler Documentation"
  tolerance : Int := Description.defaultTolerance
  classify : Bool := true
  scan : Int := 8
  deriving DecidableEq, Repr

/-- The tree of labels with their lines, entered in the order given. -/
def plant (labels : List (Text × Option Int)) : Tree :=
  labels.foldl (fun t p => t.insert p.1 p.2) {}

/-- The tree of labels, with the description of every entry. -/
def treeOf (labels : List (Text × Option Int)) (lines : List Text) (view : Text → Text)
    (tolerance : Int) : Tree :=
  (plant labels).mapEntries fun e =>
    { e with description := Description.describe lines view tolerance e.line }

/-- The line of a name among the definitions, if it has one. -/
def lineOf (defs : List (Text × Nat)) (name : Text) : Option Int :=
  (Definition.locate defs name).map Int.ofNat

/-- The exported names with their lines. -/
def placed (defs : List (Text × Nat)) (exported : List Export) : List (Text × Option Int) :=
  exported.map fun e => (e.name, lineOf defs e.name)

/-- The exported names that are not defined, in the order of export. -/
def unresolved (defs : List (Text × Nat)) (exported : List Export) : List Text :=
  (exported.map (·.name)).filter fun name => (Definition.locate defs name).isNone

/-- Gives the entry of an export its value and, if asked for, its kind. -/
def complete (lines : List Text) (options : Options) (t : Tree) (e : Export) : Tree :=
  t.modify e.name fun u => { u with entry := { u.entry with
    value := e.value
    kind := if options.classify then some (Source.kindOf lines u.entry.line options.scan)
      else u.entry.kind } }

/-- The document of a listing and its exported labels. Labels that are not defined in the listing
are kept, without a line. -/
def ofListing (listing : Listing) (exported : List Export) (options : Options) : Document :=
  let lines := listing.sourceLines
  let defs := Definition.definitions lines
  let tree := treeOf (placed defs exported) listing.lines listing.sourceOf options.tolerance
  { title := options.title
    sourceName := listing.name
    metadata := .obj [("unresolved_labels", .arr ((unresolved defs exported).map .str))]
    root := exported.foldl (complete lines options) tree }

/-- What is reported while the exports are searched for in a listing. -/
def searchEvents (listing : Listing) (exported : List Export) : List Event :=
  let lines := listing.sourceLines
  let missing := unresolved (Definition.definitions lines) exported
  Definition.events lines
    ++ (if missing.isEmpty then [] else [.labelsNotFound missing listing.name])

end LabelAtlas.Document
