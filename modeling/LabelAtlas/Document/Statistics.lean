import LabelAtlas.Document.Basic
import LabelAtlas.Tree.Outline

/-! Counts over the entries of a document. -/
namespace LabelAtlas

structure Statistics where
  total : Nat
  labelled : Nat
  namespaces : Nat
  unresolved : Nat
  documented : Nat
  undocumented : Nat
  maxDepth : Nat
  kinds : List (Kind × Nat)
  deriving DecidableEq, Repr

namespace Statistics

/-- Adds one to the count of a kind; kinds stand in the order in which they are first met. -/
def countKind (counts : List (Kind × Nat)) (k : Kind) : List (Kind × Nat) :=
  if counts.any (·.1 = k) then counts.map fun p => if p.1 = k then (p.1, p.2 + 1) else p
  else counts ++ [(k, 1)]

def toJson (s : Statistics) : Json :=
  .obj [
    ("total_entries", .int s.total),
    ("labelled_entries", .int s.labelled),
    ("namespace_entries", .int s.namespaces),
    ("unresolved_entries", .int s.unresolved),
    ("documented_entries", .int s.documented),
    ("undocumented_entries", .int s.undocumented),
    ("max_depth", .int s.maxDepth),
    ("kind_distribution", .obj (s.kinds.map fun p => (p.1.name, .int p.2)))]

end Statistics

namespace Document

/-- A value as a set of names, if it can be taken for one: the items of an array that are texts,
the characters of a text, the keys of an object. Arrays and objects cannot be members of a set. -/
def namesIn? : Json → Option (List Text)
  | .str t => some (t.map fun c => [c])
  | .obj members => some (members.map (·.1))
  | .arr items =>
    if items.any fun v => v matches .arr _ | .obj _ then none
    else some (items.filterMap fun v => match v with
      | .str t => some t
      | _ => none)
  | _ => none

/-- The labels that the metadata lists as exported and not found. -/
def unresolvedNames (d : Document) : Except Flaw (List Text) :=
  match d.metadata with
  | .obj members => match Json.get? "unresolved_labels" members with
    | none => .ok []
    | some v => (namesIn? v).elim (.error .namesNotSet) .ok
  | _ => .error .metadataNotObject

def isDocumented (e : Entry) : Bool :=
  e.hasLine && e.description.any (!·.isEmpty)

def statisticsWith (d : Document) (names : List Text) : Statistics :=
  let entries := d.entered
  let labelled := entries.countP fun p => p.2.entry.hasLine
  let unresolved := entries.countP fun p => !p.2.entry.hasLine && names.contains p.1
  let documented := entries.countP fun p => isDocumented p.2.entry
  { total := entries.length
    labelled := labelled
    namespaces := entries.length - labelled - unresolved
    unresolved := unresolved
    documented := documented
    undocumented := labelled - documented
    maxDepth := d.maxDepth
    kinds := (entries.filterMap fun p => p.2.entry.kind).foldl Statistics.countKind [] }

/-- Statistics need the unresolved labels of the metadata. -/
def statistics (d : Document) : Except Flaw Statistics :=
  d.unresolvedNames.map d.statisticsWith

def toJson (d : Document) : Except Flaw Json :=
  d.statistics.map fun s => .obj [
    ("title", d.title),
    ("source_name", d.sourceName),
    ("metadata", d.metadata),
    ("statistics", s.toJson),
    ("entries", .arr (d.root.below.outline []))]

end Document

end LabelAtlas
