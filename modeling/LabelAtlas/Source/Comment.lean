import LabelAtlas.Text.Letters

/-!
The code of a source line is what stands before its comment. A semicolon starts a comment unless
it stands in quotes.
-/

namespace LabelAtlas.Source

open Text

/-- An apostrophe behind a letter or digit, as in the register `af'`, opens no quotation. -/
def opensQuote (afterAlnum : Bool) (c : CodePoint) : Bool :=
  c = '"' || (c = '\'' && !afterAlnum)

/-- Reads on with the quotation that is open, if any, and whether the character before was a
letter or digit. -/
def codeFrom (quote : Option CodePoint) (afterAlnum : Bool) : Text → Text
  | [] => []
  | c :: t =>
    match quote with
    | some q => c :: codeFrom (if c = q then none else some q) (isAlnum c) t
    | none =>
      if opensQuote afterAlnum c then c :: codeFrom (some c) (isAlnum c) t
      else if c = ';' then []
      else c :: codeFrom none (isAlnum c) t

def code (line : Text) : Text :=
  codeFrom none false line

/-- The text behind the semicolon of a line that holds only a comment, up to a line feed. -/
def commentBody? (line : Text) : Option Text :=
  match stripStart line with
  | .scalar ';' :: t => some (t.takeWhile (· ≠ '\n'))
  | _ => none

def isBlankLine (line : Text) : Bool :=
  line.all isBlank

end LabelAtlas.Source
