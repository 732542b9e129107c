import LabelAtlas.Document.Basic
import LabelAtlas.Page.Markup

/-! A document as one HTML page: a nested table of contents and a section for every label, both in
the order of a walk over the tree. -/
namespace LabelAtlas.Html

open Piece

def styleFile : Text := "style.css"

def styleLines : List Text := [
  "body \x7b font-family: sans-serif; margin: 2em; color: #222; \x7d",
  "nav ul \x7b list-style: none; padding-left: 1.2em; \x7d",
  "section.label \x7b margin-left: 1.2em; border-left: 1px solid #ccc; padding-left: 0.8em; \x7d",
  "h2.label-name \x7b font-family: monospace; font-size: 1.1em; \x7d",
  "h2.namespace \x7b color: #666; \x7d",
  "pre.description \x7b background: #f6f6f6; padding: 0.5em; \x7d",
  "div.description.empty \x7b display: none; \x7d",
  "span.kind \x7b font-size: 0.75em; border-radius: 3px; padding: 0 0.4em; "
    ++ "margin-left: 0.5em; \x7d",
  "span.kind-code \x7b background: #d9ead3; \x7d",
  "span.kind-data \x7b background: #cfe2f3; \x7d",
  "span.kind-constant \x7b background: #fce5cd; \x7d",
  "span.kind-unknown \x7b background: #eee; \x7d",
  "span.value \x7b font-family: monospace; color: #666; margin-left: 0.5em; \x7d"]

def styleSheet : Text :=
  styleLines.flatMap (· ++ "\n")

/-- The place of a label in the page. -/
def anchor (label : Text) : Text :=
  "label-" ++ label.map fun c => if c = .scalar '.' then .scalar '-' else c

def lastSegment (label : Text) : Text :=
  (segments label).getLast?.getD []

def contentsEnter (label : Text) (t : Tree) : List Piece :=
  [opening "li" [], opening "a" [("href", .scalar '#' :: anchor label)], text (lastSegment label),
    closing "a"] ++ (if t.isLeaf then [] else [newLine, opening "ul" []])

def contentsLeave (t : Tree) : List Piece :=
  if t.isLeaf then [closing "li"] else [closing "ul", newLine, closing "li"]

/-- Hexadecimal with at least four digits; negative values are decimal. -/
def valueText (n : Int) : Text :=
  if n < 0 then Numeral.decimal n else "0x" ++ Numeral.upperHex 4 n.natAbs

def kindBadge : Option Kind → List Piece
  | some k => [opening "span" [("class", "kind kind-" ++ k.name)], text k.name, closing "span"]
  | none => []

def valueBadge : Option Int → List Piece
  | some n => [opening "span" [("class", "value")], text (valueText n), closing "span"]
  | none => []

/-- No description is not shown; an empty one leaves an empty block. -/
def descriptionBlock : Option Text → List Piece
  | none => []
  | some [] => [newLine, opening "div" [("class", "description empty")], closing "div"]
  | some t => [newLine, opening "pre" [("class", "description")], text t, closing "pre"]

def headingClass (e : Entry) : Text :=
  if e.hasLine then "label-name" else "label-name namespace"

def sectionEnter (label : Text) (t : Tree) : List Piece :=
  [opening "section" [("class", "label"), ("id", anchor label)], newLine,
    opening "h2" [("class", headingClass t.entry)], text label]
    ++ kindBadge t.entry.kind ++ valueBadge t.entry.value ++ [closing "h2"]
    ++ descriptionBlock t.entry.description

def contents : Visit → List Piece
  | .enter label t => contentsEnter label t
  | .leave _ t => contentsLeave t

def sections : Visit → List Piece
  | .enter label t => sectionEnter label t
  | .leave .. => [closing "section"]

/-- A document without a source name, or with an empty one, has an empty line in its place. -/
def sourceLine : Text → List Piece
  | [] => []
  | name => [opening "p" [("class", "source")], text ("Source: " ++ name), closing "p"]

def pageLines (title sourceName : Text) (visits : List Visit) : List (List Piece) :=
  [[doctype],
    [opening "html" []],
    [opening "head" []],
    [void "meta" [("charset", "utf-8")]],
    [opening "title" [], text title, closing "title"],
    [void "link" [("rel", "stylesheet"), ("href", styleFile)]],
    [closing "head"],
    [opening "body" []],
    [opening "h1" [], text title, closing "h1"],
    sourceLine sourceName,
    [opening "nav" [("class", "toc")]],
    [opening "ul" []]]
  ++ visits.map contents
  ++ [[closing "ul"],
    [closing "nav"],
    [opening "main" []]]
  ++ visits.map sections
  ++ [[closing "main"],
    [closing "body"],
    [closing "html"],
    []]

def page (title sourceName : Text) (visits : List Visit) : Text :=
  writePieces (joinLines (pageLines title sourceName visits))

/-- Whether the value of an entry can be shown: negative values are decimal, and their length is
limited. -/
def isShowable (e : Entry) : Bool :=
  e.value.all fun n => 0 ≤ n || Numeral.isShort n

end LabelAtlas.Html
