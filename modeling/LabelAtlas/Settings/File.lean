import LabelAtlas.Settings.Basic
import LabelAtlas.Text.Lines

/-! Settings files. Paths in a settings file are relative to the file. -/
namespace LabelAtlas.Settings

def faultOfRead (path : Path) : Store.Unreadable → Fault
  | .blocked .missing => .settingsNotFound path
  | .blocked .zero => .zeroInPath
  | .blocked (.unencodable error) => .unencodable error
  | why => .settingsUnreadable path why

def faultOfJson (path : Path) : Json.Error → Fault
  | .malformed complaint position line column =>
    .settingsMalformed path complaint position line column
  | .longInteger digits => .settingsLongInteger digits
  | .tooDeep => .tooDeep

/-- The value a settings file holds. -/
def valueOfFile (store : Store) (path : Path) : Except Fault Json := do
  let bytes ← (store.read path).mapError (faultOfRead path)
  let text ← (Utf8.decode bytes).mapError .settingsUndecodable
  (Json.read (Text.unifyBreaks text)).mapError (faultOfJson path)

def ofFile (store : Store) (path : Path) : Except Fault Settings := do
  match ← valueOfFile store path with
  | .obj members => return (← ofJson members).under path.parent
  | _ => .error (.settingsNotObject path)

end LabelAtlas.Settings
