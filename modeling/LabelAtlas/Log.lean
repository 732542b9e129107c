import LabelAtlas.Json.Value
import LabelAtlas.Path

/-!
What a run reports while it works, as events. Their texts are written only when they are shown.
-/

namespace LabelAtlas

inductive Level where
  | debug
  | info
  | warning
  | error
  deriving DecidableEq, Repr

inductive Event where
  /-- A file was not UTF-8 and was read in another encoding. -/
  | fallbackEncoding (encoding : Text) (path : Path)
  /-- A line of a labels file, counted from one, exports nothing. -/
  | malformedLine (number : Nat) (line : Text)
  | notNumeric (name value : Text)
  | exportedTwice (name : Text)
  | labelsRead (count : Nat) (path : Path)
  /-- A module is ended on a line, counted from zero, where none is open. -/
  | strayModuleEnd (line : Nat)
  /-- Exported names are not defined in the listing of a given name. -/
  | labelsNotFound (names : List Text) (listing : Json)
  | hierarchyBuilt (entries labels : Nat)
  | listingRead (lines : Nat) (path : Path)
  | documentWritten (path : Path) (entries documented : Nat)
  | buildRefused (message : Text)
  | runFailed (message : Text)
  deriving DecidableEq, Repr

namespace Level

def name : Level → Text
  | debug => "DEBUG"
  | info => "INFO"
  | warning => "WARNING"
  | error => "ERROR"

end Level

namespace Event

open Numeral

def level : Event → Level
  | notNumeric .. | strayModuleEnd .. => .debug
  | labelsRead .. | hierarchyBuilt .. | listingRead .. | documentWritten .. => .info
  | fallbackEncoding .. | malformedLine .. | exportedTwice .. | labelsNotFound ..
  | buildRefused .. => .warning
  | runFailed .. => .error

/-- The part of the program an event comes from. -/
def origin : Event → Text
  | fallbackEncoding .. => "asmdoc.listing.base"
  | malformedLine .. | notNumeric .. | exportedTwice .. | labelsRead .. | strayModuleEnd .. =>
    "asmdoc.listing.labels"
  | labelsNotFound .. | hierarchyBuilt .. => "asmdoc.hierarchy.builder"
  | listingRead .. | documentWritten .. => "asmdoc.pipeline"
  | buildRefused .. => "asmdoc.server"
  | runFailed .. => "asmdoc"

def message : Event → Text
  | fallbackEncoding encoding path =>
    "Used fallback encoding " ++ encoding ++ " for " ++ path.toText
  | malformedLine number line =>
    "Skipping malformed label line " ++ decimal number ++ ": " ++ Text.quoted line
  | notNumeric name value =>
    "Label " ++ name ++ " has non-numeric value " ++ Text.quoted value
  | exportedTwice name => "Label " ++ name ++ " exported twice, using the later value"
  | labelsRead count path =>
    "Read " ++ decimal count ++ " exported labels from " ++ path.toText
  | strayModuleEnd line => "ENDMODULE without MODULE at line " ++ decimal line
  | labelsNotFound names listing =>
    decimal names.length ++ " exported labels not found in " ++ listing.shownOr "list file" ++ ": "
      ++ Text.join ", " names
  | hierarchyBuilt entries labels =>
    "Built hierarchy with " ++ decimal entries ++ " entries from " ++ decimal labels ++ " labels"
  | listingRead lines path => "Read " ++ decimal lines ++ " lines from " ++ path.toText
  | documentWritten path entries documented =>
    "Wrote " ++ path.toText ++ " (" ++ decimal entries ++ " entries, " ++ decimal documented
      ++ " documented)"
  | buildRefused message => "Failed to build documentation: " ++ message
  | runFailed message => message

def line (e : Event) : Text :=
  "[" ++ e.origin ++ "] " ++ e.level.name ++ ": " ++ e.message

end Event

end LabelAtlas
