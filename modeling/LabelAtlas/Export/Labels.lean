import LabelAtlas.Export.Line
import LabelAtlas.Export.Value
import LabelAtlas.Log
import LabelAtlas.Text.Lines

/-!
A labels file as a list of exports in declaration order. A name given again keeps its place and
takes the later value.
-/

namespace LabelAtlas

structure Export where
  name : Text
  value : Option Int
  deriving DecidableEq, Repr

namespace Export

open Text

/-- The exports read so far and what was reported on the way. -/
structure Reading where
  labels : List Export := []
  events : List Event := []
  deriving DecidableEq, Repr

def isExported (name : Text) (labels : List Export) : Bool :=
  labels.any (·.name = name)

def put (e : Export) (labels : List Export) : List Export :=
  if isExported e.name labels then labels.map fun old => if old.name = e.name then e else old
  else labels ++ [e]

/-- Blank lines and lines that hold only a comment export nothing and are not reported. -/
def isIgnored (line : Text) : Bool :=
  (strip line).isEmpty || (strip line).head? = some (.scalar ';')

def lineEvents (labels : List Export) (name raw : Text) : List Event :=
  (if (value? raw).isNone && !raw.isEmpty then [.notNumeric name raw] else [])
    ++ (if isExported name labels then [.exportedTwice name] else [])

/-- Takes the next line, numbered from one. -/
def Reading.step (r : Reading) (numbered : Text × Nat) : Reading :=
  let (line, number) := numbered
  if isIgnored line then r
  else match line? line with
    | none => { r with events := r.events ++ [.malformedLine number line] }
    | some (name, raw) =>
      { labels := put ⟨name, value? raw⟩ r.labels
        events := r.events ++ lineEvents r.labels name raw }

def read (t : Text) : Reading :=
  ((lines t).zipIdx 1).foldl Reading.step {}

end Export

end LabelAtlas
