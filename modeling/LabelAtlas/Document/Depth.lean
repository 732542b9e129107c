import LabelAtlas.Fault

/-! How deep a document may be. A level of a tree is worked on inside the level above it, and only
so many levels can be open at once. -/
namespace LabelAtlas

namespace Forest

/-- The number of levels. -/
def depth : Forest → Nat
  | nil => 0
  | cons _ _ below next => max (below.depth + 1) next.depth

/-- The number of segments at the start of a path that lead to entries. -/
def reach (f : Forest) : List Text → Nat
  | [] => 0
  | s :: path =>
    match f.find? s with
    | none => 0
    | some t => t.below.reach path + 1

/-- Changes entries in the order of a walk. A fault, or a level with no room left, stops it, and
everything from there on stays as it is. -/
def updateWithin (g : Entry → Except Fault Entry) : Nat → Forest → Forest × Except Fault Unit
  | _, nil => (nil, .ok ())
  | 0, f => (f, .error .tooDeep)
  | room + 1, cons s e below next =>
    match g e with
    | .error fault => (cons s e below next, .error fault)
    | .ok e =>
      match updateWithin g room below with
      | (below, .error fault) => (cons s e below next, .error fault)
      | (below, .ok _) =>
        let (next, ending) := updateWithin g (room + 1) next
        (cons s e below next, ending)

end Forest

namespace Tree

/-- The number of levels that can be walked through. -/
def maxWalkDepth : Nat := 990

/-- The number of levels that can be outlined: every level is an object with an array in it. -/
def maxOutlineDepth : Nat := maxWalkDepth / 2

def checkWalk (t : Tree) : Except Fault Unit :=
  if t.below.depth ≤ maxWalkDepth then .ok () else .error .tooDeep

def checkOutline (t : Tree) : Except Fault Unit :=
  if t.below.depth ≤ maxOutlineDepth then .ok () else .error .tooDeep

/-- Changes the entry and then those below it, up to the first fault. -/
def updateWithin (g : Entry → Except Fault Entry) (t : Tree) : Tree × Except Fault Unit :=
  match g t.entry with
  | .error fault => (t, .error fault)
  | .ok e =>
    let (below, ending) := t.below.updateWithin g maxWalkDepth
    (⟨e, below⟩, ending)

/-- The tree of a label, looked up segment by segment. -/
def checkedGet (t : Tree) (label : Text) : Except Fault (Option Tree) :=
  if t.below.reach (segments label) ≤ maxWalkDepth then .ok (t.get? label) else .error .tooDeep

end Tree

/-- Arrays and objects can be written only so deep in each other. -/
def Json.checkRoom (v : Json) : Except Fault Unit :=
  if v.depth ≤ maxRoom then .ok () else .error .tooDeep

namespace Document

/-- The unresolved labels are looked up before the tree is walked. -/
def checkedStatistics (d : Document) : Except Fault Statistics := do
  let _ ← d.unresolvedNames.mapError Fault.ofFlaw
  d.root.checkWalk
  d.statistics.mapError Fault.ofFlaw

def checkedJson (d : Document) : Except Fault Json := do
  let _ ← d.checkedStatistics
  d.root.checkOutline
  d.toJson.mapError Fault.ofFlaw

/-- A JSON text is nested no deeper than can be read again. -/
def checkedRender (time : Text) (f : Format) (d : Document) : Except Fault Text := do
  match f with
  | .html => d.root.checkWalk
  | .json => (exportJson time (← d.checkedJson)).checkRoom
  (d.render time f).mapError Fault.ofFlaw

end Document

end LabelAtlas
