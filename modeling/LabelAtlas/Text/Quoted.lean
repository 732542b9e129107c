import LabelAtlas.Text.Digits
import LabelAtlas.Text.Printable

/-!
The quoted form of a text, as log lines and summaries show it: on one line, between quotes, with
everything unprintable written by its code point.
-/

namespace LabelAtlas.Text

def lowerHex (width n : Nat) : Text :=
  let written := digits 16 n
  List.replicate (width - written.length) (.scalar '0') ++ written

/-- Single quotes, unless the text has one and no double quote. -/
def quoteMark (t : Text) : CodePoint :=
  if t.contains '\'' && !t.contains '"' then '"' else '\''

def quoteChar (mark c : CodePoint) : Text :=
  if c = mark || c = '\\' then [.scalar '\\', c]
  else if c = '\n' then "\\n"
  else if c = '\r' then "\\r"
  else if c = '\t' then "\\t"
  else if isPrintable c then [c]
  else if c.toNat < 0x100 then "\\x" ++ lowerHex 2 c.toNat
  else if c.toNat < 0x10000 then "\\u" ++ lowerHex 4 c.toNat
  else "\\U" ++ lowerHex 8 c.toNat

def quoted (t : Text) : Text :=
  let mark := quoteMark t
  mark :: t.flatMap (quoteChar mark) ++ [mark]

end LabelAtlas.Text
