import LabelAtlas.Numeral

/-!
Binary fractions of 53 significant bits, as settings may hold them: read from a decimal by rounding
to the nearest, with ties to even, and written with the fewest digits that read back.
-/

namespace LabelAtlas

/-- A finite number is `mantissa * 2 ^ exponent`, with a mantissa below `2 ^ 53` that is at least
`2 ^ 52` unless the exponent is the least one. -/
inductive Binary64 where
  | finite (negative : Bool) (mantissa : Nat) (exponent : Int)
  | infinite (negative : Bool)
  | nan
  deriving DecidableEq, Repr

namespace Binary64

def minExponent : Int := -1074

def maxExponent : Int := 971

/-- A fraction of natural numbers. -/
structure Ratio where
  num : Nat
  den : Nat

namespace Ratio

/-- The fraction times a power of a base, which may be negative. -/
def scale (r : Ratio) (base : Nat) (power : Int) : Ratio :=
  if power < 0 then ⟨r.num, r.den * Nat.pow base power.natAbs⟩
  else ⟨r.num * Nat.pow base power.natAbs, r.den⟩

def floor (r : Ratio) : Nat :=
  r.num / r.den

def less (r s : Ratio) : Bool :=
  r.num * s.den < s.num * r.den

def distance (r s : Ratio) : Ratio :=
  ⟨max (r.num * s.den - s.num * r.den) (s.num * r.den - r.num * s.den), r.den * s.den⟩

/-- The nearest natural number, the even one of two. -/
def roundEven (r : Ratio) : Nat :=
  let down := r.num / r.den
  let twice := 2 * (r.num % r.den)
  if twice < r.den || (twice = r.den && down % 2 = 0) then down else down + 1

end Ratio

/-- The exponent at which a fraction has 53 significant bits, or the least exponent. -/
def exponentOf (r : Ratio) : Int :=
  let guess : Int := (r.num.log2 : Int) - r.den.log2 - 53
  let exact := if Nat.pow 2 53 ≤ (r.scale 2 (-guess)).floor then guess + 1 else guess
  max exact minExponent

def ofRatio (negative : Bool) (r : Ratio) : Binary64 :=
  if r.num = 0 then .finite negative 0 minExponent
  else
    let e := exponentOf r
    let m := (r.scale 2 (-e)).roundEven
    let (m, e) := if m = Nat.pow 2 53 then (Nat.pow 2 52, e + 1) else (m, e)
    if maxExponent < e then .infinite negative else .finite negative m e

/-- The number nearest to `digits * 10 ^ power`. A power far beyond the range decides alone. -/
def ofDecimal (negative : Bool) (digits : Nat) (power : Int) : Binary64 :=
  if digits = 0 then .finite negative 0 minExponent
  else
    let size : Int := power + (Nat.toDigits 10 digits).length
    if 400 < size then .infinite negative
    else if size < -400 then .finite negative 0 minExponent
    else ofRatio negative ((Ratio.mk digits 1).scale 10 power)

def magnitude (m : Nat) (e : Int) : Ratio :=
  (Ratio.mk m 1).scale 2 e

def isNegative : Binary64 → Bool
  | finite negative m _ => negative && m ≠ 0
  | infinite negative => negative
  | nan => false

def isZero : Binary64 → Bool
  | finite _ m _ => m = 0
  | _ => false

/-- The greatest whole number that is not above a finite number. -/
def floor? : Binary64 → Option Int
  | finite negative m e =>
    let r := magnitude m e
    if negative then some (-((r.num + r.den - 1) / r.den : Nat)) else some r.floor
  | _ => none

/-- The whole number that a finite number equals, if there is one. -/
def whole? : Binary64 → Option Int
  | finite negative m e =>
    let r := magnitude m e
    if r.num % r.den = 0 then some (if negative then -(r.floor : Int) else r.floor) else none
  | _ => none

/-- Whether a number, with `n` added to it and rounded, stays below a limit that is not zero. A
sum that is not positive does. -/
def addStaysBelow (x : Binary64) (n limit : Nat) : Bool :=
  match x with
  | finite negative m e =>
    let r := magnitude m e
    let sum : Ratio := ⟨if negative then n * r.den - r.num else n * r.den + r.num, r.den⟩
    match ofRatio false sum with
    | finite _ m' e' => (magnitude m' e').less ⟨limit, 1⟩
    | _ => false
  | infinite negative => negative
  | nan => false

/-- The fractions that round to a number: those between the two, the ends included for an even
mantissa. -/
structure Interval where
  low : Ratio
  high : Ratio
  closed : Bool

def Interval.has (i : Interval) (r : Ratio) : Bool :=
  if i.closed then !r.less i.low && !i.high.less r else i.low.less r && r.less i.high

def interval (m : Nat) (e : Int) : Interval where
  low := if m = Nat.pow 2 52 && minExponent < e then magnitude (4 * m - 1) (e - 2)
    else magnitude (2 * m - 1) (e - 1)
  high := magnitude (2 * m + 1) (e - 1)
  closed := m % 2 = 0

/-- The decimal exponent of the first significant digit. -/
def leadingPower (r : Ratio) : Int :=
  let guess : Int := ((Nat.toDigits 10 r.num).length : Int) - (Nat.toDigits 10 r.den).length
  if (r.scale 10 (-guess)).floor = 0 then guess - 1 else guess

/-- The decimal with its last digit at `10 ^ power` that rounds back and is nearest. Of two equally
near ones the last digit is even. -/
def nearestOn (r : Ratio) (i : Interval) (power : Int) : Option Nat :=
  let down := (r.scale 10 (-power)).floor
  let downR := (Ratio.mk down 1).scale 10 power
  let upR := (Ratio.mk (down + 1) 1).scale 10 power
  match i.has downR, i.has upR with
  | true, true =>
    if (r.distance downR).less (r.distance upR) then some down
    else if (r.distance upR).less (r.distance downR) then some (down + 1)
    else some (if down % 2 = 0 then down else down + 1)
  | true, false => some down
  | false, true => some (down + 1)
  | false, false => none

/-- The digits, and the power of the last, of the shortest decimal on the grids from `count`
digits on. -/
def shortestFrom (r : Ratio) (i : Interval) (lead : Int) : Nat → Nat → Nat × Int
  | 0, count => ((r.scale 10 (count - 1 - lead)).floor, lead - count + 1)
  | fuel + 1, count =>
    match nearestOn r i (lead - count + 1) with
    | some digits => (digits, lead - count + 1)
    | none => shortestFrom r i lead fuel (count + 1)

def shortest (m : Nat) (e : Int) : Nat × Int :=
  let r := magnitude m e
  shortestFrom r (interval m e) (leadingPower r) 17 1

def zeros (n : Nat) : Text :=
  List.replicate n (.scalar '0')

def dropZeros (digits : Text) : Text :=
  Text.dropEndWhile (· = '0') digits

/-- Positional from `10 ^ -4` up to `10 ^ 16`, with at least one place behind the point, and
with an exponent of at least two digits otherwise. -/
def layout (digits : Text) (lead : Int) : Text :=
  if -4 ≤ lead && lead < 0 then
    "0." ++ zeros (lead.natAbs - 1) ++ digits
  else if 0 ≤ lead && lead < 16 then
    let places := lead.toNat + 1
    let whole := digits.take places ++ zeros (places - digits.length)
    let fraction := digits.drop places
    whole ++ "." ++ (if fraction.isEmpty then zeros 1 else fraction)
  else
    let exponent := Text.digits 10 lead.natAbs
    let exponent := zeros (2 - exponent.length) ++ exponent
    let fraction := digits.drop 1
    digits.take 1 ++ (if fraction.isEmpty then [] else .scalar '.' :: fraction)
      ++ (if lead < 0 then "e-" else "e+") ++ exponent

def signText (negative : Bool) : Text :=
  if negative then "-" else []

/-- The shortest decimal text of a finite number; the other numbers have names. -/
def text (nameOfNan nameOfInfinity : Text) : Binary64 → Text
  | finite negative m e =>
    if m = 0 then signText negative ++ "0.0"
    else
      let (digits, power) := shortest m e
      let digits := Text.digits 10 digits
      signText negative ++ layout (dropZeros digits) (power + digits.length - 1)
  | infinite negative => signText negative ++ nameOfInfinity
  | nan => nameOfNan

end Binary64

end LabelAtlas
