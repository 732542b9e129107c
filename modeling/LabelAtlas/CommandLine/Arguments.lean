import LabelAtlas.CommandLine.Flag
import LabelAtlas.Json.Value

/-! Reading a command line. First every argument is told apart as a flag or a plain word, then the
flags take effect from left to right. -/
namespace LabelAtlas.CommandLine

/-- The values given on a command line. The last of a repeated flag counts. -/
structure Arguments where
  listFile : Option GivenPath := none
  labelsFile : Option GivenPath := none
  outputDir : Option GivenPath := none
  format : Option Json := none
  title : Option Json := none
  config : Option GivenPath := none
  sourceColumn : Option Json := none
  verbose : Bool := false
  deriving DecidableEq, Repr

/-- What an argument is. -/
inductive Word where
  | plain
  /-- Two hyphens: everything behind them is plain. -/
  | separator
  /-- A flag, whether it is spelled with one hyphen, and a value joined to it. -/
  | flag (f : Flag) (short : Bool) (value : Option Text)
  /-- It looks like a flag and is none. -/
  | unknown
  deriving DecidableEq, Repr

/-- The text up to the first equals sign, and the text behind it. -/
def splitEquals (t : Text) : Text × Option Text :=
  match t.dropWhile (· ≠ .scalar '=') with
  | [] => (t, none)
  | _ :: value => (t.takeWhile (· ≠ .scalar '='), some value)

def isShortSpelling (t : Text) : Bool :=
  t[1]? ≠ some (.scalar '-')

def isDecimal (c : CodePoint) : Bool :=
  (Text.decimalValue? c).isSome

def dropFinalLineFeed (t : Text) : Text :=
  if t.getLast? = some (.scalar '\n') then t.dropLast else t

/-- A hyphen and a decimal number, with or without a point; a line feed may follow. -/
def looksNegative (t : Text) : Bool :=
  match dropFinalLineFeed t with
  | .scalar '-' :: number =>
    match number.dropWhile isDecimal with
    | [] => !number.isEmpty
    | .scalar '.' :: fraction => !fraction.isEmpty && fraction.all isDecimal
    | _ => false
  | _ => false

/-- The flags an argument may abbreviate, with their spellings and a joined value: spellings that
go on from a start with two hyphens, or one letter behind a single hyphen. -/
def candidates (t : Text) : List (Text × Word) :=
  if isShortSpelling t then
    (Flag.spellings.filter (·.1 = t.take 2)).map fun (s, f) => (s, .flag f true (some (t.drop 2)))
  else
    let (start, value) := splitEquals t
    (Flag.spellings.filter fun p => start.isPrefixOf p.1).map fun (s, f) =>
      (s, .flag f false value)

/-- A word that could be a flag but is none is plain if it looks like a negative number or holds
a blank. -/
def unmatched (t : Text) : Word :=
  if looksNegative t || t.contains ' ' then .plain else .unknown

/-- An argument with a hyphen in front and more behind it, that is no flag by itself. -/
def abbreviated (t : Text) : Except UsageError Word :=
  let (start, value) := splitEquals t
  match value, Flag.ofSpelling? start with
  | some v, some f => .ok (.flag f (isShortSpelling start) (some v))
  | _, _ => match candidates t with
    | [] => .ok (unmatched t)
    | [(_, word)] => .ok word
    | several => .error (.ambiguous t (several.map (·.1)))

def classify (t : Text) : Except UsageError Word :=
  match t with
  | .scalar '-' :: c :: _ =>
    if c = '-' && t.length = 2 then .ok .separator
    else match Flag.ofSpelling? t with
      | some f => .ok (.flag f (isShortSpelling t) none)
      | none => abbreviated t
  | _ => .ok .plain

def classifyAll : List Text → Except UsageError (List (Text × Word))
  | [] => .ok []
  | t :: rest => do
    match ← classify t with
    | .separator => return (t, .separator) :: rest.map (·, .plain)
    | word => return (t, word) :: (← classifyAll rest)

/-- How reading a command line ends early. -/
inductive Early where
  | help
  | version
  | error (e : UsageError)
  deriving DecidableEq, Repr

def setValue (a : Arguments) (f : Flag) (v : Text) : Except Early Arguments :=
  match f with
  | .list => .ok { a with listFile := some (.ofText v) }
  | .labels => .ok { a with labelsFile := some (.ofText v) }
  | .out => .ok { a with outputDir := some (.ofText v) }
  | .format =>
    if (Format.ofName? v).isSome then .ok { a with format := some (.str v) }
    else .error (.error (.invalidChoice f v))
  | .title => .ok { a with title := some (.str v) }
  | .config => .ok { a with config := some (.ofText v) }
  | .sourceColumn => match Numeral.groupedInt? v with
    | some n => .ok { a with sourceColumn := some (.int n) }
    | none => .error (.error (.invalidInt f v))
  | .help | .verbose | .version => .ok a

/-- Two hyphens joined to a flag are no value, and leave an empty list. -/
def setEmpty (a : Arguments) (f : Flag) : Arguments :=
  match f with
  | .list => { a with listFile := some .emptyList }
  | .labels => { a with labelsFile := some .emptyList }
  | .out => { a with outputDir := some .emptyList }
  | .format => { a with format := some (.arr []) }
  | .title => { a with title := some (.arr []) }
  | .config => { a with config := some .emptyList }
  | .sourceColumn => { a with sourceColumn := some (.arr []) }
  | .help | .verbose | .version => a

/-- A flag without a value takes effect. -/
def setFlag (a : Arguments) (f : Flag) : Except Early Arguments :=
  match f with
  | .help => .error .help
  | .version => .error .version
  | .verbose => .ok { a with verbose := true }
  | _ => .ok a

/-- One-letter flags written behind one hyphen. -/
def cluster (f : Flag) : Text → Except UsageError (List Flag)
  | [] => .ok [f]
  | c :: rest =>
    match Flag.ofSpelling? [.scalar '-', c] with
    | some g => (cluster g rest).map (f :: ·)
    | none => .error (.ignoredArgument f (c :: rest))

/-- The effect of a flag with a value joined to it. -/
def joined (a : Arguments) (f : Flag) (short : Bool) (v : Text) : Except Early Arguments :=
  if f.takesValue then
    if v = "--" then .ok (setEmpty a f) else setValue a f v
  else if short && !v.isEmpty then do
    let flags ← (cluster f v).mapError .error
    flags.foldlM setFlag a
  else .error (.error (.ignoredArgument f v))

/-- Takes words from left to right; `extra` holds those that nothing is known of. -/
def take (a : Arguments) (extra : List Text) : List (Text × Word) → Except Early Arguments
  | [] => if extra.isEmpty then .ok a else .error (.error (.unrecognized extra))
  | (_, .flag f short (some v)) :: rest => do take (← joined a f short v) extra rest
  | (_, .flag f _ none) :: rest =>
    if f.takesValue then
      match rest with
      | (v, .plain) :: rest => do take (← setValue a f v) extra rest
      | _ => .error (.error (.expectedArgument f))
    else do take (← setFlag a f) extra rest
  | (t, _) :: rest => take a (extra ++ [t]) rest

def parse (arguments : List Text) : Except Early Arguments := do
  take {} [] (← (classifyAll arguments).mapError .error)

end LabelAtlas.CommandLine
