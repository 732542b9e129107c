import LabelAtlas.Text.Digits

/-!
Whole numbers in text. Reading takes the digits of every script; writing uses ASCII digits.
Decimal numerals are limited to `maxDigits` digits in both directions.
-/

namespace LabelAtlas

inductive Base where
  | two
  | ten
  | sixteen
  deriving DecidableEq, Repr

namespace Base

def value : Base → Nat
  | two => 2
  | ten => 10
  | sixteen => 16

/-- The letter that may stand behind a leading zero to name the base. -/
def marker : Base → Text
  | two => "bB"
  | ten => []
  | sixteen => "xX"

end Base

namespace Numeral

open Text

def maxDigits : Nat := 4300

/-- Blanks that may stand around a numeral. The four separators may not. -/
def isMargin (c : CodePoint) : Bool :=
  isBlank c && !inRanges [(0x1C, 0x1F)] c.toNat

def letterValue? (c : CodePoint) : Option Nat :=
  if 'a'.toNat ≤ c.toNat ∧ c.toNat ≤ 'f'.toNat then some (c.toNat - 'a'.toNat + 10)
  else if 'A'.toNat ≤ c.toNat ∧ c.toNat ≤ 'F'.toNat then some (c.toNat - 'A'.toNat + 10)
  else none

def digit? (b : Base) (c : CodePoint) : Option Nat :=
  ((decimalValue? c).or (letterValue? c)).filter (· < b.value)

def ofDigits (b : Base) (ds : List Nat) : Nat :=
  ds.foldl (fun n d => n * b.value + d) 0

/-- One or more digits and nothing else. -/
def natOf? (b : Base) (t : Text) : Option Nat :=
  if t.isEmpty || (b = .ten && maxDigits < t.length) then none
  else (t.mapM (digit? b)).map (ofDigits b)

/-- Drops a zero and the base's letter from the front, if both are there. -/
def dropMarker (b : Base) : Text → Text
  | z :: m :: t => if decimalValue? z = some 0 && b.marker.contains m then t else z :: m :: t
  | t => t

/-- Margins and a sign around what `read` takes for a natural number. -/
def signed? (read : Text → Option Nat) (t : Text) : Option Int :=
  match dropEndWhile isMargin (t.dropWhile isMargin) with
  | .scalar '-' :: u => (read u).map fun n => -(n : Int)
  | .scalar '+' :: u => (read u).map fun n => (n : Int)
  | u => (read u).map fun n => (n : Int)

/-- Margins, a sign, the base's marker and digits; all but the digits may be missing. -/
def intOf? (b : Base) : Text → Option Int :=
  signed? fun u => natOf? b (dropMarker b u)

/-- Takes out single underscores between digits. -/
def ungroup? (t : Text) : Option Text :=
  let groups := splitAt '_' t
  if groups.any List.isEmpty then none else some groups.flatten

/-- A decimal numeral whose digits may be grouped by underscores. -/
def groupedInt? : Text → Option Int :=
  signed? fun u => (ungroup? u).bind (natOf? .ten)

def decimal (n : Int) : Text :=
  if n < 0 then .scalar '-' :: digits 10 n.natAbs else digits 10 n.natAbs

/-- Whether a number's decimal numeral keeps to the limit. -/
def isShort (n : Int) : Bool :=
  n.natAbs < Nat.pow 10 maxDigits

/-- Upper-case hexadecimal, filled with zeros to a width. -/
def upperHex (width n : Nat) : Text :=
  let written := (digits 16 n).map CodePoint.toUpper
  List.replicate (width - written.length) (.scalar '0') ++ written

end Numeral

end LabelAtlas
