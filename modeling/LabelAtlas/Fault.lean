import LabelAtlas.Json.Reader
import LabelAtlas.Page.Format
import LabelAtlas.Store

/-! Why a run ends without a result, and how that is worded. -/
namespace LabelAtlas

inductive Fault where
  /-- There is no such input file. -/
  | fileNotFound (path : Path)
  | fileLocked (path : Path)
  | settingsNotFound (path : Path)
  | settingsUnreadable (path : Path) (why : Store.Unreadable)
  | settingsMalformed (path : Path) (complaint : Json.Complaint) (position line column : Nat)
  /-- The settings file holds a value that is no object. -/
  | settingsNotObject (path : Path)
  | settingsUndecodable (error : Utf8.Error)
  /-- A whole number in the settings file has too many digits. -/
  | settingsLongInteger (digits : Nat)
  | negative (name : Text) (value : Json)
  | emptyFormat
  | noListFile
  | noLabelsFile
  | unknownFormat (value : Json)
  /-- A number has too many digits to be shown. -/
  | longInteger
  /-- An item that is to name a member and its value has another number of parts. -/
  | notPair (position length : Nat)
  | zeroInPath
  /-- A text with a lone surrogate cannot be written, nor name a file. -/
  | unencodable (error : Utf8.Unencodable)
  | notNumber (name : Text)
  | notPath (name : Text)
  | formatNotName
  | namesNotSet
  /-- A value has no members, nor pairs to make them of. -/
  | notMembers
  /-- A column that is a fraction cannot cut a line. -/
  | fractionalColumn
  /-- A number of lines that is a fraction cannot end a search. -/
  | fractionalScan
  /-- There is no line at a fraction. -/
  | fractionalLine
  /-- What is to be read is no text. -/
  | notText
  | titleNotText
  | sourceNotText
  | metadataNotObject
  /-- Settings are given by a value that is no object. -/
  | settingsNotMembers
  | outputBlocked (why : Store.Unwritable)
  /-- The name of an input file has too many bytes. -/
  | nameTooLong
  /-- A settings file or a tree of labels is nested too deep. -/
  | tooDeep
  deriving DecidableEq, Repr

/-- The kinds of faults that callers tell apart. -/
inductive Fault.Category where
  /-- An input file cannot be used. -/
  | input
  /-- A value is out of its range. -/
  | value
  /-- A value is of the wrong shape. -/
  | shape
  /-- A value cannot do what is asked of it. -/
  | ability
  /-- The system refuses a path. -/
  | system
  /-- Something is nested too deep. -/
  | depth
  deriving DecidableEq, Repr

namespace Fault

def category : Fault → Category
  | fileNotFound _ | fileLocked _ | settingsNotFound _ | settingsUnreadable ..
  | settingsMalformed .. | settingsNotObject _ => .input
  | settingsUndecodable _ | settingsLongInteger _ | negative .. | emptyFormat | noListFile
  | noLabelsFile | unknownFormat _ | longInteger | notPair .. | zeroInPath | unencodable _ =>
    .value
  | notNumber _ | notPath _ | formatNotName | namesNotSet | notMembers | fractionalColumn
  | fractionalScan | fractionalLine => .shape
  | notText | titleNotText | sourceNotText | metadataNotObject | settingsNotMembers => .ability
  | outputBlocked _ | nameTooLong => .system
  | tooDeep => .depth

/-- The system's words for a path that cannot be read. -/
def systemMessage (path : Path) : Store.Unreadable → Text
  | .blocked .missing => "[Errno 2] No such file or directory: " ++ Text.quoted path.toText
  | .blocked .throughFile => "[Errno 20] Not a directory: " ++ Text.quoted path.toText
  | .directory => "[Errno 21] Is a directory: " ++ Text.quoted path.toText
  | .locked => "[Errno 13] Permission denied: " ++ Text.quoted path.toText
  | .blocked .tooLong => "[Errno 36] File name too long: " ++ Text.quoted path.toText
  | .blocked .zero => "embedded null byte"
  | .blocked (.unencodable error) => error.message

/-- More on a fault of an input file, as far as there is more. -/
def details? : Fault → Option Text
  | fileLocked path => some (systemMessage path .locked)
  | settingsUnreadable path why => some (systemMessage path why)
  | settingsMalformed _ complaint position line column =>
    some (Json.Error.malformed complaint position line column).message
  | _ => none

/-- The input file that cannot be used. -/
def path? : Fault → Option Path
  | fileNotFound path | fileLocked path | settingsNotFound path | settingsUnreadable path _
  | settingsMalformed path .. | settingsNotObject path => some path
  | _ => none

/-- The wording of faults of an input file or a value; the other categories have none. -/
def message : Fault → Text
  | fileNotFound path => "File not found: " ++ path.toText
  | fileLocked path => "Failed to read file: " ++ systemMessage path .locked
  | settingsNotFound path => "Config file not found: " ++ path.toText
  | settingsUnreadable path why => "Invalid config file: " ++ systemMessage path why
  | settingsMalformed _ complaint position line column =>
    "Invalid config file: " ++ (Json.Error.malformed complaint position line column).message
  | settingsNotObject _ => "Config file must contain a JSON object"
  | settingsUndecodable error => error.message
  | settingsLongInteger digits => (Json.Error.longInteger digits).message
  | negative name value => name ++ " must be >= 0, got " ++ value.shown
  | emptyFormat => "format must not be empty"
  | noListFile => "No list file given"
  | noLabelsFile => "No labels file given"
  | unknownFormat value =>
    "Unknown export format: " ++ value.shown ++ ". Available: "
      ++ Text.join ", " (Format.all.map Format.name)
  | longInteger =>
    "Exceeds the limit (4300 digits) for integer string conversion; "
      ++ "use sys.set_int_max_str_digits() to increase the limit"
  | notPair position length =>
    "dictionary update sequence element #" ++ Numeral.decimal position ++ " has length "
      ++ Numeral.decimal length ++ "; 2 is required"
  | zeroInPath => "embedded null byte"
  | unencodable error => error.message
  | _ => []

def ofRefusal : Format.Refusal → Fault
  | .unknown value => .unknownFormat value
  | .noName => .formatNotName

def ofFlaw : Flaw → Fault
  | .longInteger => .longInteger
  | .titleNotText => .titleNotText
  | .sourceNotText => .sourceNotText
  | .metadataNotObject => .metadataNotObject
  | .namesNotSet => .namesNotSet

def ofUnwritable : Store.Unwritable → Fault
  | .blocked .zero => .zeroInPath
  | .blocked (.unencodable error) => .unencodable error
  | why => .outputBlocked why

end Fault

end LabelAtlas
