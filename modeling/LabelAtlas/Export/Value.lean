import LabelAtlas.Numeral

/-!
The value of an exported label, in one of the usual assembler notations.
-/

namespace LabelAtlas.Export

open Text

/-- The text of a value without margins, underscores and upper case. -/
def normalize (t : Text) : Text :=
  ((strip t).filter fun c => c ≠ .scalar '_').map CodePoint.toLower

def endsWithH (t : Text) : Bool :=
  t.getLast? = some (.scalar 'h')

def startsWithDigit (t : Text) : Bool :=
  (t.head?.bind decimalValue?).isSome

/-- A normalized value: `0x`, `$` or `#` in front, or `h` behind a first digit, for base sixteen,
`0b` or `%` for base two, and decimal otherwise. -/
def numeralOf? (t : Text) : Option Int :=
  match t with
  | .scalar '0' :: .scalar 'x' :: u => Numeral.intOf? .sixteen u
  | .scalar '$' :: u => Numeral.intOf? .sixteen u
  | .scalar '#' :: u => Numeral.intOf? .sixteen u
  | _ =>
    if endsWithH t && startsWithDigit t then Numeral.intOf? .sixteen t.dropLast
    else match t with
      | .scalar '0' :: .scalar 'b' :: u => Numeral.intOf? .two u
      | .scalar '%' :: u => Numeral.intOf? .two u
      | _ => Numeral.intOf? .ten t

def value? (t : Text) : Option Int :=
  numeralOf? (normalize t)

end LabelAtlas.Export
