import LabelAtlas.Json.Value

/-!
Writing JSON over several lines, two blanks deeper for every level. Characters stand for themselves
wherever JSON lets them.
-/

namespace LabelAtlas.Json

def escapeChar (c : CodePoint) : Text :=
  if c = '"' then "\\\""
  else if c = '\\' then "\\\\"
  else if c = '\n' then "\\n"
  else if c = '\r' then "\\r"
  else if c = '\t' then "\\t"
  else if c = '\x08' then "\\b"
  else if c = '\x0C' then "\\f"
  else if c.toNat < 0x20 then "\\u" ++ Text.lowerHex 4 c.toNat
  else [c]

def writeString (t : Text) : Text :=
  .scalar '"' :: t.flatMap escapeChar ++ "\""

def newLine (depth : Nat) : Text :=
  .scalar '\n' :: List.replicate (2 * depth) (.scalar ' ')

/-- What stands between two brackets, one part on each line; no parts, no lines. -/
def block (depth : Nat) (parts : List Text) : Text :=
  if parts.isEmpty then []
  else newLine (depth + 1) ++ Text.join (.scalar ',' :: newLine (depth + 1)) parts ++ newLine depth

mutual

def writeAt (depth : Nat) : Json → Text
  | null => "null"
  | bool b => if b then "true" else "false"
  | int n => Numeral.decimal n
  | real x => x.text "NaN" "Infinity"
  | str t => writeString t
  | arr items => .scalar '[' :: block depth (writeItems (depth + 1) items) ++ "]"
  | obj members => .scalar '\x7b' :: block depth (writeMembers (depth + 1) members) ++ "\x7d"

def writeItems (depth : Nat) : List Json → List Text
  | [] => []
  | x :: xs => writeAt depth x :: writeItems depth xs

def writeMembers (depth : Nat) : List (Text × Json) → List Text
  | [] => []
  | (k, x) :: xs => (writeString k ++ ": " ++ writeAt depth x) :: writeMembers depth xs

end

/-- Whether every whole number in a value can be written. -/
def isWritable (v : Json) : Bool :=
  v.allScalars fun x => match x with
    | int n => Numeral.isShort n
    | _ => true

/-- The text of a value, unless it holds a whole number with too many digits. -/
def write? (v : Json) : Option Text :=
  if isWritable v then some (writeAt 0 v) else none

end LabelAtlas.Json
