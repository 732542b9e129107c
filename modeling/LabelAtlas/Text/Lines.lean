import LabelAtlas.Text.Basic

/-!
Lines of a text. A carriage return with a line feed behind it is one break, and a break at the
very end starts no further line.
-/

namespace LabelAtlas.Text

/-- The characters that end a line. -/
def isBreak (c : CodePoint) : Bool :=
  inRanges [(0x0A, 0x0D), (0x1C, 0x1E), (0x85, 0x85), (0x2028, 0x2029)] c.toNat

def lines : Text → List Text
  | [] => []
  | .scalar '\r' :: .scalar '\n' :: t => [] :: lines t
  | c :: t =>
    if isBreak c then [] :: lines t
    else match lines t with
      | [] => [[c]]
      | line :: rest => (c :: line) :: rest

/-- Every carriage return, with or without a line feed behind it, as one line feed. -/
def unifyBreaks : Text → Text
  | [] => []
  | .scalar '\r' :: .scalar '\n' :: t => .scalar '\n' :: unifyBreaks t
  | c :: t => (if c = '\r' then '\n' else c) :: unifyBreaks t

end LabelAtlas.Text
