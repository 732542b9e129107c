import LabelAtlas.Amount
import LabelAtlas.Fault

/-! The settings of a run. Values come from JSON as they are and are looked at only when they are
checked or used. -/
namespace LabelAtlas

structure Settings where
  listFile : Option GivenPath := none
  labelsFile : Option GivenPath := none
  outputDir : GivenPath := .ofText "docs"
  format : Json := .str "html"
  title : Json := .str "Assembler Documentation"
  sourceColumn : Json := .int 24
  maxBlankLines : Json := .int 2
  classifyKinds : Json := .bool true
  kindScanLines : Json := .int 8
  deriving DecidableEq, Repr

/-- A number that must not be negative. -/
def Amount.ofSetting (name : Text) (v : Json) : Except Fault Amount :=
  match ofJson? v with
  | none => .error (.notNumber name)
  | some a => if a.isNegative then .error (.negative name v) else .ok a

namespace Settings

/-- The numbers of checked settings. -/
structure Amounts where
  column : Amount
  blankLines : Amount
  scanLines : Amount
  deriving DecidableEq, Repr

/-- Numbers must not be negative, and the format must not be empty. -/
def check (s : Settings) : Except Fault Amounts := do
  let column ← Amount.ofSetting "source_column" s.sourceColumn
  let blankLines ← Amount.ofSetting "max_blank_lines" s.maxBlankLines
  let scanLines ← Amount.ofSetting "kind_scan_lines" s.kindScanLines
  if s.format.isTruthy then .ok ⟨column, blankLines, scanLines⟩ else .error .emptyFormat

/-- A path that may be missing; an empty value is a missing one. -/
def optionalPath (name : Text) : Option Json → Except Fault (Option GivenPath)
  | none => .ok none
  | some v =>
    if v.isTruthy then match v with
      | .str t => .ok (some (.ofText t))
      | _ => .error (.notPath name)
    else .ok none

def requiredPath (name : Text) : Json → Except Fault GivenPath
  | .str t => .ok (.ofText t)
  | _ => .error (.notPath name)

def ofJson (members : Json.Object) : Except Fault Settings := do
  let default : Settings := {}
  let get (key : Text) (v : Json) : Json := (Json.get? key members).getD v
  let listFile ← optionalPath "list_path" (Json.get? "list_path" members)
  let labelsFile ← optionalPath "labels_path" (Json.get? "labels_path" members)
  let outputDir ← requiredPath "output_dir" (get "output_dir" (.str "docs"))
  return {
    listFile, labelsFile, outputDir
    format := get "format" default.format
    title := get "title" default.title
    sourceColumn := get "source_column" default.sourceColumn
    maxBlankLines := get "max_blank_lines" default.maxBlankLines
    classifyKinds := get "classify_kinds" default.classifyKinds
    kindScanLines := get "kind_scan_lines" default.kindScanLines }

/-- Settings can only be looked up in an object. -/
def ofValue : Json → Except Fault Settings
  | .obj members => ofJson members
  | _ => .error .settingsNotMembers

def pathJson : GivenPath → Json
  | .path p => .str p.toText
  | .emptyList => .arr []

def optionalPathJson (p : Option GivenPath) : Json :=
  (p.map pathJson).getD .null

def toObject (s : Settings) : Json.Object := [
  ("list_path", optionalPathJson s.listFile),
  ("labels_path", optionalPathJson s.labelsFile),
  ("output_dir", pathJson s.outputDir),
  ("format", s.format),
  ("title", s.title),
  ("source_column", s.sourceColumn),
  ("max_blank_lines", s.maxBlankLines),
  ("classify_kinds", s.classifyKinds),
  ("kind_scan_lines", s.kindScanLines)]

/-- The settings with their paths taken relative to a directory. -/
def under (dir : Path) (s : Settings) : Settings :=
  { s with
    listFile := s.listFile.map (·.under dir)
    labelsFile := s.labelsFile.map (·.under dir)
    outputDir := s.outputDir.under dir }

/-- The path that is given under a name, if it is one. -/
def pathOf (name : Text) (given : GivenPath) : Except Fault Path :=
  match given.path? with
  | some p => .ok p
  | none => .error (.notPath name)

end Settings

end LabelAtlas
