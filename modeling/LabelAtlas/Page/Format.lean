import LabelAtlas.Document.Statistics
import LabelAtlas.Json.Writer
import LabelAtlas.Page.Html

/-! The formats a document can be rendered in. -/
namespace LabelAtlas

inductive Format where
  | html
  | json
  deriving DecidableEq, Repr

namespace Format

def all : List Format := [html, json]

def name : Format → Text
  | html => "html"
  | json => "json"

def extension : Format → Text
  | html => ".html"
  | json => ".json"

def ofName? (t : Text) : Option Format :=
  all.find? (·.name = t)

/-- Why there is no format for a value of the settings. -/
inductive Refusal where
  | unknown (value : Json)
  /-- Arrays and objects name nothing. -/
  | noName
  deriving DecidableEq, Repr

def ofJson (v : Json) : Except Refusal Format :=
  match v with
  | .arr _ | .obj _ => .error .noName
  | .str t => match ofName? t with
    | some f => .ok f
    | none => .error (.unknown v)
  | _ => .error (.unknown v)

end Format

namespace Document

/-- The source name that a page shows; an empty value is a missing name. -/
def sourceText (d : Document) : Except Flaw Text :=
  match d.sourceName with
  | .str t => .ok t
  | v => if v.isTruthy then .error .sourceNotText else .ok []

def html (d : Document) : Except Flaw Text := do
  unless d.entered.all fun p => Html.isShowable p.2.entry do throw .longInteger
  let .str title := d.title | throw .titleNotText
  return Html.page title (← d.sourceText) (d.root.walk [])

/-- The JSON of a document, wrapped with the version of the format and the time of the export. -/
def exportJson (time : Text) (documentation : Json) : Json :=
  .obj [
    ("version", .str "1.0"),
    ("exported_at", .str time),
    ("exporter", .str "asmdoc 0.1.0"),
    ("documentation", documentation)]

def json (time : Text) (d : Document) : Except Flaw Text := do
  match (exportJson time (← d.toJson)).write? with
  | some t => return t
  | none => throw .longInteger

/-- The content of the main file of a document. -/
def render (time : Text) (f : Format) (d : Document) : Except Flaw Text :=
  match f with
  | .html => d.html
  | .json => d.json time

end Document

end LabelAtlas
