import LabelAtlas.Json.Reader
import LabelAtlas.Settings.Basic

/-! The request of a document: what a client may send, and what is wrong with what it sent. -/
namespace LabelAtlas.Service

structure Request where
  listing : Text
  labels : Text
  name : Option Text := none
  title : Text := "Assembler Documentation"
  sourceColumn : Int := 24
  maxBlankLines : Int := 2
  classifyKinds : Bool := true
  kindScanLines : Int := 8
  deriving DecidableEq, Repr

def Request.settings (r : Request) : Settings :=
  { title := .str r.title
    sourceColumn := .int r.sourceColumn
    maxBlankLines := .int r.maxBlankLines
    classifyKinds := .bool r.classifyKinds
    kindScanLines := .int r.kindScanLines }

/-- What is wrong with a value. -/
inductive Issue where
  | missing
  | notString
  | notInteger
  | fraction
  | notFinite
  | notNumeral
  | longNumeral
  | belowZero
  | notBoolean
  | notTruthValue
  | notObject
  | invalidJson
  deriving DecidableEq, Repr

def Issue.name : Issue → Text
  | missing => "missing"
  | notString => "string_type"
  | notInteger => "int_type"
  | fraction => "int_from_float"
  | notFinite => "finite_number"
  | notNumeral => "int_parsing"
  | longNumeral => "int_parsing_size"
  | belowZero => "greater_than_equal"
  | notBoolean => "bool_type"
  | notTruthValue => "bool_parsing"
  | notObject => "model_attributes_type"
  | invalidJson => "json_invalid"

def stringOf : Json → Except Issue Text
  | .str t => .ok t
  | _ => .error .notString

/-- A text, or nothing. -/
def optionalStringOf : Json → Except Issue (Option Text)
  | .null => .ok none
  | v => (stringOf v).map some

/-- Digits with a hyphen or nothing in front, as JSON writes whole numbers. Too many digits are
told before anything behind them is looked at. -/
def plainInteger (t : Text) : Except Issue Int :=
  let (negative, u) := match t with
    | .scalar '-' :: u => (true, u)
    | u => (false, u)
  let (digits, rest) := Json.digitsOf u
  let n := Json.natOfDigits digits
  if digits.head? = some (.scalar '0') && 1 < digits.length then .error .notNumeral
  else if Numeral.maxDigits < digits.length then .error .longNumeral
  else if digits.isEmpty || !rest.isEmpty then .error .notNumeral
  else .ok (if negative then -(n : Int) else n)

/-- Skips zeros and underscores in front of the first other digit, a hyphen, or a point, which keeps
what stands before it. If nothing else follows, the last one is left. -/
def skipZeros? (last : CodePoint) : Text → Option Text
  | [] => some [last]
  | c :: t =>
    if c = '0' || c = '_' then skipZeros? c t
    else if c = '.' then some (last :: c :: t)
    else if c.isDigit || c = '-' then some (c :: t)
    else none

/-- A numeral starts with a digit, and leading zeros do not count. -/
def dropLeadingZeros? : Text → Option Text
  | [] => none
  | c :: t =>
    if c = '0' then skipZeros? c t
    else if c.isDigit then some (c :: t)
    else none

/-- Takes away a point and the zeros behind it, if nothing else follows. -/
def dropZeroFraction (t : Text) : Text :=
  match t.dropWhile (· ≠ .scalar '.') with
  | _ :: c :: zeros =>
    if (c :: zeros).all (· = .scalar '0') then t.takeWhile (· ≠ .scalar '.') else t
  | _ => t

/-- A numeral without its sign, in plain digits. -/
def cleanDigits? (t : Text) : Option Text :=
  (dropLeadingZeros? t).map fun u =>
    let u := dropZeroFraction u
    (Numeral.ungroup? u).getD u

/-- A numeral as plain digits: it may have margins, a sign, leading zeros, a fraction of zeros and
single underscores between digits. -/
def clean? (t : Text) : Option Text :=
  match Text.dropEndWhile Numeral.isMargin (t.dropWhile Numeral.isMargin) with
  | .scalar '-' :: u => (cleanDigits? u).map (.scalar '-' :: ·)
  | .scalar '+' :: u => cleanDigits? u
  | u => cleanDigits? u

/-- A plain numeral, or one that becomes plain. Only the former can be too long. -/
def numeralOf (t : Text) : Except Issue Int :=
  match plainInteger t with
  | .error .notNumeral => match clean? t with
    | some u => (plainInteger u).mapError fun _ => .notNumeral
    | none => .error .notNumeral
  | result => result

/-- Whether a number fits into 64 bits. -/
def fits (n : Int) : Bool :=
  -(Nat.pow 2 63 : Int) ≤ n && n < Nat.pow 2 63

/-- The whole number that a fraction equals, if it is one of less than 64 bits. -/
def wholeOf? (x : Binary64) : Option Int :=
  x.whole?.filter fun n => n.natAbs < Nat.pow 2 63

def integerOf : Json → Except Issue Int
  | .int n => .ok n
  | .bool b => .ok (if b then 1 else 0)
  | .real x => match x with
    | .finite .. => match x.whole?, wholeOf? x with
      | some _, some n => .ok n
      | some _, none => .error .longNumeral
      | none, _ => .error .fraction
    | _ => .error .notFinite
  | .str t => numeralOf t
  | _ => .error .notInteger

/-- A whole number that is not negative. -/
def countOf (v : Json) : Except Issue Int := do
  let n ← integerOf v
  if n < 0 then .error .belowZero else .ok n

def trueWords : List Text := ["1", "t", "y", "on", "yes", "true"]

def falseWords : List Text := ["0", "f", "n", "no", "off", "false"]

/-- Zero and one are truth values, and no other number is. -/
def truthOf (n : Int) : Except Issue Bool :=
  if n = 0 then .ok false
  else if n = 1 then .ok true
  else if fits n then .error .notTruthValue
  else .error .notBoolean

def booleanOf : Json → Except Issue Bool
  | .bool b => .ok b
  | .int n => truthOf n
  | .real x => match wholeOf? x with
    | some n => truthOf n
    | none => .error .notBoolean
  | .str t =>
    let word := t.map CodePoint.toLower
    if trueWords.contains word then .ok true
    else if falseWords.contains word then .ok false
    else .error .notTruthValue
  | _ => .error .notBoolean

/-- The places of the issues of a request: the body itself, a place in its text, or a field. -/
inductive Place where
  | body
  | position (n : Nat)
  | field (name : Text)
  deriving DecidableEq, Repr

/-- Reads one field; `fallback` is what a missing one stands for. -/
def field {α : Type} (members : Json.Object) (name : Text) (fallback : Option α)
    (read : Json → Except Issue α) : Except (Place × Issue) α :=
  match Json.get? name members, fallback with
  | some v, _ => (read v).mapError (.field name, ·)
  | none, some a => .ok a
  | none, none => .error (.field name, .missing)

def issueOf {α : Type} : Except (Place × Issue) α → List (Place × Issue)
  | .ok _ => []
  | .error e => [e]

/-- A request from the members of an object, or everything that is wrong with them, field by
field. Other members are not looked at. -/
def Request.ofMembers (members : Json.Object) : Except (List (Place × Issue)) Request :=
  let listing := field members "listing" none stringOf
  let labels := field members "labels" none stringOf
  let name := field members "name" (some none) optionalStringOf
  let title := field members "title" (some ("Assembler Documentation" : Text)) stringOf
  let sourceColumn := field members "source_column" (some 24) countOf
  let maxBlankLines := field members "max_blank_lines" (some 2) countOf
  let classifyKinds := field members "classify_kinds" (some true) booleanOf
  let kindScanLines := field members "kind_scan_lines" (some 8) countOf
  match listing, labels, name, title, sourceColumn, maxBlankLines, classifyKinds,
    kindScanLines with
  | .ok listing, .ok labels, .ok name, .ok title, .ok sourceColumn, .ok maxBlankLines,
    .ok classifyKinds, .ok kindScanLines =>
    .ok { listing, labels, name, title, sourceColumn, maxBlankLines, classifyKinds, kindScanLines }
  | _, _, _, _, _, _, _, _ =>
    .error (issueOf listing ++ issueOf labels ++ issueOf name ++ issueOf title
      ++ issueOf sourceColumn ++ issueOf maxBlankLines ++ issueOf classifyKinds
      ++ issueOf kindScanLines)

end LabelAtlas.Service
