import LabelAtlas.Document.Given
import LabelAtlas.Encoding.Fallback
import LabelAtlas.Settings.Basic

/-! From a list file and a labels file to a document, and from there to files. -/
namespace LabelAtlas

/-- What a run works on: the files and what it has reported. -/
structure Workspace where
  store : Store := {}
  events : List Event := []
  deriving DecidableEq, Repr

/-- A step of a run. A fault leaves the workspace as it was at the fault. -/
abbrev Job := ExceptT Fault (StateM Workspace)

namespace Job

def report (events : List Event) : Job Unit :=
  modify fun w => { w with events := w.events ++ events }

end Job

namespace Document

/-- How a document is to be built, with numbers as they are given. What is no number is none. -/
structure Plan where
  title : Json := .str "Assembler Documentation"
  blankLines : Option Amount := some (.whole Description.defaultTolerance)
  classify : Bool := true
  scanLines : Option Amount := some (.whole 8)
  deriving DecidableEq, Repr

/-- The document of lines that start their source text at a given column, and its labels. -/
def ofPlan (plan : Plan) (column : Amount) (name : Json) (lines : List Text)
    (exported : List Export) : Job Document := do
  let listing : Listing := ⟨lines, ← Listing.columnFor column lines, name⟩
  Job.report (searchEvents listing exported)
  let reading : Reading := ⟨some (.whole listing.column), plan.blankLines⟩
  let defs := Definition.definitions listing.sourceLines
  reading.checkTree lines (plant (placed defs exported))
  let places := exported.filterMap fun e => Definition.locate defs e.name
  let scan ← if plan.classify then Source.scanFor plan.scanLines listing.sourceLines places
    else pure 0
  let tolerance := reading.tolerance lines.length
  let document := ofListing listing exported ⟨plan.title, tolerance, plan.classify, scan⟩
  Job.report [.hierarchyBuilt document.size exported.length]
  return document

/-- The document of lines and labels under settings, which are checked first. -/
def build (settings : Settings) (column : Amount) (name : Json) (lines : List Text)
    (exported : List Export) : Job Document := do
  let amounts ← settings.check
  ofPlan ⟨settings.title, some amounts.blankLines, settings.classifyKinds.isTruthy,
    some amounts.scanLines⟩ column name lines exported

/-- The document of the texts of a listing and of a labels file. -/
def ofTexts (settings : Settings) (column : Amount) (name : Json) (listing labels : Text) :
    Job Document := do
  let reading := Export.read labels
  Job.report reading.events
  build settings column name (Text.lines listing) reading.labels

/-- The document of a listing and of labels as they are given. The listing and its column are
looked at before the labels. -/
def ofGiven (settings : Settings) (column name listing labels : Json) : Job Document := do
  let .str listing := listing | throw .notText
  let column ← Amount.ofSetting "source_column" column
  let .str labels := labels | throw .notText
  ofTexts settings column name listing labels

end Document

namespace Generate

def faultOfRead (path : Path) : Store.Unreadable → Fault
  | .locked => .fileLocked path
  | .blocked .tooLong => .nameTooLong
  | _ => .fileNotFound path

/-- The text of an input file. Another encoding than UTF-8 is reported. -/
def readText (path : Path) : Job Text := do
  let bytes ← ((← get).store.read path).mapError (faultOfRead path)
  let (charset, text) := Encoding.readText bytes
  if charset ≠ .utf8 then Job.report [.fallbackEncoding charset.name path]
  return text

def readLabels (path : Path) : Job (List Export) := do
  let reading := Export.read (← readText path)
  Job.report (reading.events ++ [.labelsRead reading.labels.length path])
  return reading.labels

def writeBytes (path : Path) (content : Utf8.Bytes) : Job Unit := do
  let w ← get
  let store ← (w.store.write path content).mapError Fault.ofUnwritable
  set { w with store := store }

/-- A file is there, and empty, before it is known whether its content can be encoded. -/
def write (path : Path) (content : Text) : Job Unit := do
  writeBytes path []
  writeBytes path (← (Utf8.encode content).mapError Fault.unencodable)

/-- The name of the main file of a document. -/
def mainFile (format : Format) : Text :=
  "index" ++ format.extension

/-- Writes the main file of a document into a directory, a page with its style sheet. -/
def deposit (dir : Path) (format : Format) (content : Text) : Job Path := do
  write (dir.child (mainFile format)) content
  if format = .html then write (dir.child Html.styleFile) Html.styleSheet
  return dir.child (mainFile format)

/-- Writes a document into a directory and gives the path of its main file. -/
def publish (time : Text) (d : Document) (dir : GivenPath) (format : Json) : Job Path := do
  let format ← (Format.ofJson format).mapError Fault.ofRefusal
  let dir ← Settings.pathOf "output_dir" dir
  let w ← get
  let store ← (w.store.makeDirectories dir).mapError Fault.ofUnwritable
  set { w with store := store }
  deposit dir format (← d.checkedRender time format)

/-- The document of the input files. -/
def documentOf (settings : Settings) : Job Document := do
  let amounts ← settings.check
  let some listFile := settings.listFile | throw .noListFile
  let some labelsFile := settings.labelsFile | throw .noLabelsFile
  let listFile ← Settings.pathOf "list_path" listFile
  let lines := Text.lines (← readText listFile)
  Job.report [.listingRead lines.length listFile]
  let labels ← readLabels (← Settings.pathOf "labels_path" labelsFile)
  Document.build settings amounts.column (.str listFile.name) lines labels

/-- Reads the input files, builds the document and writes it. -/
def run (time : Text) (settings : Settings) : Job Path := do
  let document ← documentOf settings
  let path ← publish time document settings.outputDir settings.format
  let statistics ← document.checkedStatistics
  Job.report [.documentWritten path statistics.total statistics.documented]
  return path

end Generate

end LabelAtlas
