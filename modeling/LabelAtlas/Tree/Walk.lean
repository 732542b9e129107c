import LabelAtlas.Tree.Basic

/-! Walking a tree: every entry is entered before what lies below it and left after it. -/
namespace LabelAtlas

inductive Visit where
  | enter (label : Text) (tree : Tree)
  | leave (label : Text) (tree : Tree)
  deriving DecidableEq, Repr

/-- The label of a segment below another label. Below the empty label a segment stands alone. -/
def extend (label segment : Text) : Text :=
  if label.isEmpty then segment else label ++ .scalar '.' :: segment

/-- The label and the tree of a visit that enters. -/
def Visit.entered? : Visit → Option (Text × Tree)
  | enter label tree => some (label, tree)
  | leave .. => none

namespace Forest

def walk (label : Text) : Forest → List Visit
  | nil => []
  | cons s e below next =>
    .enter (extend label s) ⟨e, below⟩ ::
      (walk (extend label s) below ++ .leave (extend label s) ⟨e, below⟩ :: walk label next)

/-- The labels and trees in the order in which a walk enters them. -/
def entered (label : Text) (f : Forest) : List (Text × Tree) :=
  (f.walk label).filterMap Visit.entered?

/-- Passes a state through the handlers of a walk, one called on entering and one on leaving. -/
def iterate {σ : Type} (enter leave : Text → Tree → σ → σ) (label : Text) : Forest → σ → σ
  | nil, s => s
  | cons t e below next, s =>
    iterate enter leave label next
      (leave (extend label t) ⟨e, below⟩
        (iterate enter leave (extend label t) below (enter (extend label t) ⟨e, below⟩ s)))

end Forest

namespace Tree

/-- The walk over what lies below an entry whose label is given. -/
def walk (t : Tree) (label : Text) : List Visit :=
  t.below.walk label

def entered (t : Tree) (label : Text) : List (Text × Tree) :=
  t.below.entered label

/-- Without a handler for leaving, leaving changes nothing. -/
def iterate {σ : Type} (t : Tree) (label : Text) (enter : Text → Tree → σ → σ)
    (leave : Option (Text → Tree → σ → σ)) (s : σ) : σ :=
  t.below.iterate enter (leave.getD fun _ _ s => s) label s

end Tree

end LabelAtlas
