import LabelAtlas.Export.Line
import LabelAtlas.Log

/-!
Where labels are defined. A module block puts its name before the labels in it, a local label
(`.loop`) is appended to the last label that is not local, and a label with an at sign ignores the
module.
-/

namespace LabelAtlas.Definition

open Text Source

inductive Directive where
  | openModule (name : Text)
  | closeModule
  deriving DecidableEq, Repr

/-- The name behind `MODULE`. -/
def moduleName? (code : Text) : Option Text :=
  match afterWord? "module" (stripStart code) with
  | some (c :: t) =>
    if isBlank c then
      let name := (stripStart t).takeWhile isNameChar
      if name.isEmpty then none else some name
    else none
  | _ => none

def endsModule (code : Text) : Bool :=
  ((afterWord? "endmodule" (stripStart code)).filter (!Export.startsWithWord ·)).isSome

def directive? (line : Text) : Option Directive :=
  match moduleName? (code line) with
  | some name => some (.openModule name)
  | none => if endsModule (code line) then some .closeModule else none

/-- The open modules, outermost first, and the last label that was not local. -/
structure Scope where
  modules : List Text := []
  anchor : Text := []
  deriving DecidableEq, Repr

namespace Scope

def path (s : Scope) : Text :=
  join "." s.modules

/-- The full name of a label in a scope. -/
def qualify (s : Scope) (label : Text) : Text :=
  match label with
  | .scalar '.' :: rest =>
    let base := if s.anchor.isEmpty then s.path else s.anchor
    if base.isEmpty then rest else base ++ label
  | .scalar '@' :: global => global
  | _ => join "." (s.modules ++ [label])

/-- A label that is not local becomes the one that local labels are appended to. -/
def afterLabel (s : Scope) (label : Text) : Scope :=
  if label.head? = some (.scalar '.') then s else { s with anchor := s.qualify label }

def afterDirective (s : Scope) : Directive → Scope
  | .openModule name => ⟨s.modules ++ [name], []⟩
  | .closeModule => ⟨s.modules.dropLast, []⟩

def next (s : Scope) (line : Text) : Scope :=
  match directive? line with
  | some d => s.afterDirective d
  | none => match label? line with
    | some label => s.afterLabel label
    | none => s

/-- The full name of the label a line defines. -/
def defined? (s : Scope) (line : Text) : Option Text :=
  match directive? line with
  | some _ => none
  | none => (label? line).map s.qualify

end Scope

/-- All definitions from line `n` on, in line order, repeated names included. -/
def namings (s : Scope) (n : Nat) : List Text → List (Text × Nat)
  | [] => []
  | line :: rest =>
    match s.defined? line with
    | some name => (name, n) :: namings (s.next line) (n + 1) rest
    | none => namings (s.next line) (n + 1) rest

/-- The lines that end a module where none is open. -/
def strayEnds (s : Scope) (n : Nat) : List Text → List Event
  | [] => []
  | line :: rest =>
    if directive? line = some .closeModule && s.modules.isEmpty then
      .strayModuleEnd n :: strayEnds (s.next line) (n + 1) rest
    else strayEnds (s.next line) (n + 1) rest

/-- The first of the pairs with each name. -/
def firstOfEach (pairs : List (Text × Nat)) : List (Text × Nat) :=
  pairs.foldl (fun seen p => if seen.any (·.1 = p.1) then seen else seen ++ [p]) []

/-- The line of each name that is defined, in order of definition. The first definition counts. -/
def definitions (lines : List Text) : List (Text × Nat) :=
  firstOfEach (namings {} 0 lines)

def events (lines : List Text) : List Event :=
  strayEnds {} 0 lines

def locate (defs : List (Text × Nat)) (name : Text) : Option Nat :=
  (defs.find? (·.1 = name)).map (·.2)

end LabelAtlas.Definition
