import LabelAtlas.Json.Value

/-!
Reading JSON. Inside the reader a place in the text is told by how much of the text is left there,
so no position has to be carried along; `read` turns it into a position.
-/

namespace LabelAtlas.Json

/-- What can be wrong with a text. -/
inductive Complaint where
  | expectingValue
  | expectingKey
  | expectingColon
  | expectingComma
  | extraData
  | unterminatedString
  | controlCharacter
  | badEscape
  | badUnicodeEscape
  | byteOrderMark
  deriving DecidableEq, Repr

/-- Reading stops at a place, given by the number of characters left, at a whole number with too
many digits, or at the start of a value that lies too deep. -/
inductive Stop where
  | at (complaint : Complaint) (left : Nat)
  | longInteger (digits : Nat)
  | tooDeep
  deriving DecidableEq, Repr

def isSpace (c : CodePoint) : Bool :=
  c = ' ' || c = '\t' || c = '\n' || c = '\r'

def skipSpaces (t : Text) : Text :=
  t.dropWhile isSpace

def hexDigit? (c : CodePoint) : Option Nat :=
  if c.isDigit then some (c.toNat - '0'.toNat) else Numeral.letterValue? c

/-- Four hexadecimal digits. -/
def hex4? : Text → Option Nat
  | a :: b :: c :: d :: _ => do
    return (((← hexDigit? a) * 16 + (← hexDigit? b)) * 16 + (← hexDigit? c)) * 16 + (← hexDigit? d)
  | _ => none

/-- The code point written behind `\u`, and the rest. The text must go on behind the digits, and a
high unit is joined with a low unit that is written behind it in the same way. -/
def unicodeEscape (t : Text) : Except Stop (CodePoint × Text) :=
  match hex4? t with
  | none => .error (.at .badUnicodeEscape (t.length + 1))
  | some n =>
    let rest := t.drop 4
    if rest.isEmpty then .error (.at .badUnicodeEscape (t.length + 1))
    else match rest with
      | .scalar '\\' :: .scalar 'u' :: u =>
        if CodePoint.isHighUnit n && 4 < u.length then
          match hex4? u with
          | none => .error (.at .badUnicodeEscape (u.length + 1))
          | some low =>
            if CodePoint.isLowUnit low then .ok (.ofPair n low, u.drop 4)
            else .ok (.ofNat n, rest)
        else .ok (.ofNat n, rest)
      | _ => .ok (.ofNat n, rest)

def simpleEscape? : CodePoint → Option Char
  | .scalar '"' => some '"'
  | .scalar '\\' => some '\\'
  | .scalar '/' => some '/'
  | .scalar 'b' => some '\x08'
  | .scalar 'f' => some '\x0C'
  | .scalar 'n' => some '\n'
  | .scalar 'r' => some '\r'
  | .scalar 't' => some '\t'
  | _ => none

/-- A string from behind its opening quote on, which stands where `start` characters are left.
What is read already comes in reverse. -/
def stringFrom (start : Nat) : Nat → Text → Text → Except Stop (Text × Text)
  | 0, _, _ => .error (.at .unterminatedString start)
  | _ + 1, _, [] => .error (.at .unterminatedString start)
  | fuel + 1, done, c :: t =>
    if c = '"' then .ok (done.reverse, t)
    else if c = '\\' then
      match t with
      | [] => .error (.at .unterminatedString start)
      | .scalar 'u' :: u => do
        let (d, rest) ← unicodeEscape u
        stringFrom start fuel (d :: done) rest
      | e :: u =>
        match simpleEscape? e with
        | some d => stringFrom start fuel (.scalar d :: done) u
        | none => .error (.at .badEscape (t.length + 1))
    else if c.toNat < 0x20 then .error (.at .controlCharacter (t.length + 1))
    else stringFrom start fuel (c :: done) t

/-- A string from behind its opening quote on, and the rest. -/
def string (t : Text) : Except Stop (Text × Text) :=
  stringFrom (t.length + 1) (t.length + 1) [] t

/-- The parts of a number: sign, whole digits, fraction digits and exponent. -/
structure NumberParts where
  negative : Bool
  whole : Text
  fraction : Option Text
  exponent : Option Int

def digitsOf (t : Text) : Text × Text :=
  (t.takeWhile CodePoint.isDigit, t.dropWhile CodePoint.isDigit)

def natOfDigits (ds : Text) : Nat :=
  ds.foldl (fun n d => n * 10 + (d.toNat - '0'.toNat)) 0

/-- A zero stands alone before the point. -/
def wholeDigits? (t : Text) : Option (Text × Text) :=
  match t with
  | .scalar '0' :: u => some ("0", u)
  | _ => if (digitsOf t).1.isEmpty then none else some (digitsOf t)

def fractionDigits (t : Text) : Option Text × Text :=
  match t with
  | .scalar '.' :: u =>
    if (digitsOf u).1.isEmpty then (none, t) else (some (digitsOf u).1, (digitsOf u).2)
  | _ => (none, t)

def exponentSign : Text → Bool × Text
  | .scalar '-' :: t => (true, t)
  | .scalar '+' :: t => (false, t)
  | t => (false, t)

def exponentDigits (t : Text) : Option Int × Text :=
  match t with
  | c :: u =>
    if c = 'e' || c = 'E' then
      let (negative, v) := exponentSign u
      let (digits, rest) := digitsOf v
      if digits.isEmpty then (none, t)
      else (some (if negative then -(natOfDigits digits : Int) else natOfDigits digits), rest)
    else (none, t)
  | [] => (none, t)

def numberParts? (t : Text) : Option (NumberParts × Text) :=
  let (negative, u) := match t with
    | .scalar '-' :: u => (true, u)
    | u => (false, u)
  (wholeDigits? u).map fun (whole, v) =>
    let (fraction, w) := fractionDigits v
    let (exponent, rest) := exponentDigits w
    (⟨negative, whole, fraction, exponent⟩, rest)

/-- A number with a point or an exponent is a fraction, and any other is whole. -/
def NumberParts.value (p : NumberParts) : Except Stop Json :=
  if p.fraction.isNone && p.exponent.isNone then
    if Numeral.maxDigits < p.whole.length then .error (.longInteger p.whole.length)
    else .ok (.int (if p.negative then -(natOfDigits p.whole : Int) else natOfDigits p.whole))
  else
    let fraction := p.fraction.getD []
    .ok (.real (.ofDecimal p.negative (natOfDigits (p.whole ++ fraction))
      (p.exponent.getD 0 - fraction.length)))

/-- The words that are values. -/
def words : List (Text × Json) := [
  ("null", .null), ("true", .bool true), ("false", .bool false), ("NaN", .real .nan),
  ("Infinity", .real (.infinite false)), ("-Infinity", .real (.infinite true))]

/-- A word or a number. -/
def scalar (t : Text) : Except Stop (Json × Text) :=
  match words.findSome? fun (word, value) => (Text.after? word t).map (value, ·) with
  | some result => .ok result
  | none =>
    match numberParts? t with
    | none => .error (.at .expectingValue t.length)
    | some (parts, rest) => parts.value.map (·, rest)

/-- The key of a member, the colon and the spaces behind it. -/
def key (t : Text) : Except Stop (Text × Text) :=
  match t with
  | .scalar '"' :: u => do
    let (name, rest) ← string u
    match skipSpaces rest with
    | .scalar ':' :: v => .ok (name, skipSpaces v)
    | v => .error (.at .expectingColon v.length)
  | _ => .error (.at .expectingKey t.length)

mutual

/-- A value at the start of a text, and the rest. Arrays and objects can be opened `room` deep. -/
def value : Nat → Nat → Text → Except Stop (Json × Text)
  | 0, _, t => .error (.at .expectingValue t.length)
  | fuel + 1, room, t =>
    match t with
    | .scalar '"' :: u => (string u).map fun (s, rest) => (.str s, rest)
    | .scalar '\x7b' :: u =>
      match room, skipSpaces u with
      | 0, _ => .error .tooDeep
      | _ + 1, .scalar '\x7d' :: rest => .ok (.obj [], rest)
      | room + 1, v => members fuel room [] v
    | .scalar '[' :: u =>
      match room, skipSpaces u with
      | 0, _ => .error .tooDeep
      | _ + 1, .scalar ']' :: rest => .ok (.arr [], rest)
      | room + 1, v => items fuel room [] v
    | _ => scalar t

/-- The members of an object from a key on, behind those read already. -/
def members : Nat → Nat → Object → Text → Except Stop (Json × Text)
  | 0, _, _, t => .error (.at .expectingValue t.length)
  | fuel + 1, room, done, t => do
    let (name, u) ← key t
    let (v, rest) ← value fuel room u
    let done := put name v done
    match skipSpaces rest with
    | .scalar '\x7d' :: w => .ok (.obj done, w)
    | .scalar ',' :: w => members fuel room done (skipSpaces w)
    | w => .error (.at .expectingComma w.length)

/-- The items of an array from a value on, behind those read already, in reverse. -/
def items : Nat → Nat → List Json → Text → Except Stop (Json × Text)
  | 0, _, _, t => .error (.at .expectingValue t.length)
  | fuel + 1, room, done, t => do
    let (v, rest) ← value fuel room t
    match skipSpaces rest with
    | .scalar ']' :: w => .ok (.arr (v :: done).reverse, w)
    | .scalar ',' :: w => items fuel room (v :: done) (skipSpaces w)
    | w => .error (.at .expectingComma w.length)

end

/-- How deep arrays and objects may lie in each other. -/
def maxRoom : Nat := 990

/-- One value with nothing but spaces around it. -/
def document (t : Text) : Except Stop Json :=
  if t.head? = some (.scalar '\uFEFF') then .error (.at .byteOrderMark t.length)
  else do
    let (v, rest) ← value (2 * t.length + 2) maxRoom (skipSpaces t)
    match skipSpaces rest with
    | [] => .ok v
    | u => .error (.at .extraData u.length)

/-- Why and where a text is no JSON document. -/
inductive Error where
  | malformed (complaint : Complaint) (position line column : Nat)
  | longInteger (digits : Nat)
  /-- Arrays and objects lie too deep in each other. -/
  | tooDeep
  deriving DecidableEq, Repr

/-- Lines and columns are counted from one, positions from zero. -/
def Error.locate (t : Text) : Stop → Error
  | .longInteger digits => .longInteger digits
  | .tooDeep => .tooDeep
  | .at complaint left =>
    let position := t.length - left
    let before := t.take position
    .malformed complaint position (before.count (.scalar '\n') + 1)
      ((before.reverse.takeWhile (· ≠ .scalar '\n')).length + 1)

def read (t : Text) : Except Error Json :=
  (document t).mapError (Error.locate t)

def Complaint.text : Complaint → Text
  | expectingValue => "Expecting value"
  | expectingKey => "Expecting property name enclosed in double quotes"
  | expectingColon => "Expecting ':' delimiter"
  | expectingComma => "Expecting ',' delimiter"
  | extraData => "Extra data"
  | unterminatedString => "Unterminated string starting at"
  | controlCharacter => "Invalid control character at"
  | badEscape => "Invalid \\escape"
  | badUnicodeEscape => "Invalid \\uXXXX escape"
  | byteOrderMark => "Unexpected UTF-8 BOM (decode using utf-8-sig)"

/-- The wording of an error; there is none for a value that lies too deep. -/
def Error.message : Error → Text
  | malformed complaint position line column =>
    complaint.text ++ ": line " ++ Numeral.decimal line ++ " column " ++ Numeral.decimal column
      ++ " (char " ++ Numeral.decimal position ++ ")"
  | longInteger digits =>
    "Exceeds the limit (4300 digits) for integer string conversion: value has "
      ++ Numeral.decimal digits
      ++ " digits; use sys.set_int_max_str_digits() to increase the limit"
  | tooDeep => []

end LabelAtlas.Json
