import LabelAtlas.Numeral
import LabelAtlas.Source.Kind
import LabelAtlas.Text.Quoted

/-! Dotted labels arranged as a tree. The segments below an entry stand in the order in which they
were first mentioned. -/
namespace LabelAtlas

/-- What is known of one label. An entry without a line is only a namespace, or a label that was
not found. -/
structure Entry where
  line : Option Int := none
  description : Option Text := none
  kind : Option Kind := none
  value : Option Int := none
  deriving DecidableEq, Repr

namespace Entry

/-- The line as a number; minus one stands for none. -/
def lineNumber (e : Entry) : Int :=
  e.line.getD (-1)

def hasLine (e : Entry) : Bool :=
  e.line.isSome

end Entry

/-- The entries side by side below one entry: a segment, its entry, what lies below it, and the
segments that follow. -/
inductive Forest where
  | nil
  | cons (segment : Text) (entry : Entry) (below next : Forest)
  deriving DecidableEq, Repr

/-- An entry and what lies below it. -/
structure Tree where
  entry : Entry := {}
  below : Forest := .nil
  deriving DecidableEq, Repr

/-- The segments of a dotted label. -/
def segments (label : Text) : List Text :=
  Text.splitAt '.' label

namespace Forest

def keys : Forest → List Text
  | nil => []
  | cons s _ _ next => s :: next.keys

def isEmpty : Forest → Bool
  | nil => true
  | cons .. => false

/-- The number of entries in the levels below the first one. Each entry counts the segments
directly below it and what lies deeper. -/
def deeper : Forest → Nat
  | nil => 0
  | cons _ _ below next => below.keys.length + below.deeper + next.deeper

/-- The number of entries. -/
def size (f : Forest) : Nat :=
  f.keys.length + f.deeper

def find? (s : Text) : Forest → Option Tree
  | nil => none
  | cons t e below next => if t = s then some ⟨e, below⟩ else next.find? s

/-- The tree at the end of a path of segments. -/
def get? (f : Forest) : List Text → Option Tree
  | [] => none
  | [s] => f.find? s
  | s :: path =>
    match f.find? s with
    | none => none
    | some t => t.below.get? path

/-- A path by itself, with `g` applied to the entry at its end. -/
def chain (g : Entry → Entry) : List Text → Forest
  | [] => nil
  | [s] => cons s (g {}) nil nil
  | s :: path => cons s {} (chain g path) nil

/-- Applies `g` to the entry at the end of a path. Entries on the way are made as needed, behind
those that are there already. -/
def insert (g : Entry → Entry) : Forest → List Text → Forest
  | f, [] => f
  | nil, path => chain g path
  | cons t e below next, s :: path =>
    if t = s then cons t (if path.isEmpty then g e else e) (insert g below path) next
    else cons t e below (insert g next (s :: path))

/-- Applies `g` to the tree at the end of a path, if there is one. -/
def modify (g : Tree → Tree) : Forest → List Text → Forest
  | f, [] => f
  | nil, _ => nil
  | cons t e below next, s :: path =>
    if t = s then
      if path.isEmpty then cons t (g ⟨e, below⟩).entry (g ⟨e, below⟩).below next
      else cons t e (modify g below path) next
    else cons t e below (modify g next (s :: path))

def mapEntries (g : Entry → Entry) : Forest → Forest
  | nil => nil
  | cons t e below next => cons t (g e) (mapEntries g below) (mapEntries g next)

end Forest

namespace Tree

def isLeaf (t : Tree) : Bool :=
  t.below.isEmpty

/-- The tree of a label. Up to its first dot the label is looked up among the segments below, and
the rest of it further down. -/
def get? (t : Tree) (label : Text) : Option Tree :=
  match _ : Text.cutAt? '.' label with
  | none => t.below.find? label
  | some (first, rest) => (t.below.find? first).bind fun u => u.get? rest
termination_by label.length
decreasing_by exact Text.length_cutAt? ‹_›

/-- Gives the entry of a label its line. Entries on the way keep theirs. -/
def insert (t : Tree) (label : Text) (line : Option Int) : Tree :=
  { t with below := t.below.insert (fun e => { e with line := line }) (segments label) }

def modify (t : Tree) (label : Text) (g : Tree → Tree) : Tree :=
  { t with below := t.below.modify g (segments label) }

def mapEntries (g : Entry → Entry) (t : Tree) : Tree :=
  ⟨g t.entry, t.below.mapEntries g⟩

def summary (t : Tree) : Text :=
  "<HierarchyEntry line=" ++ Numeral.decimal t.entry.lineNumber ++ " elements=["
    ++ Text.join ", " (t.below.keys.map Text.quoted) ++ "]>"

end Tree

end LabelAtlas
