import LabelAtlas.CommandLine.Arguments
import LabelAtlas.Generate
import LabelAtlas.Settings.File

/-! A run from the command line, as a function of the arguments and the files. -/
namespace LabelAtlas.CommandLine

/-- How a run ends: with an exit code, or with a fault that nobody handles. -/
inductive Ending where
  | exit (code : Nat)
  | crash (fault : Fault)
  deriving DecidableEq, Repr

structure Result where
  ending : Ending
  stdout : Text := []
  stderr : Text := []
  store : Store
  deriving DecidableEq, Repr

/-- The time of a run, as an export gives it and as it stands in front of log lines. -/
structure Moment where
  exported : Text
  logged : Text := []
  deriving DecidableEq, Repr

/-- A settings file comes first, and the command line counts more. An empty list names no settings
file. -/
def Arguments.settings (a : Arguments) (store : Store) : Except Fault Settings := do
  let s ← match a.config.bind GivenPath.path? with
    | some path => Settings.ofFile store path
    | none => .ok {}
  return { s with
    listFile := a.listFile.or s.listFile
    labelsFile := a.labelsFile.or s.labelsFile
    outputDir := a.outputDir.getD s.outputDir
    format := a.format.getD s.format
    title := a.title.getD s.title
    sourceColumn := a.sourceColumn.getD s.sourceColumn }

def generate (time : Text) (a : Arguments) : Job Path := do
  Generate.run time (← a.settings (← get).store)

def isShown (verbose : Bool) (e : Event) : Bool :=
  verbose || e.level ≠ .debug

def logText (stamp : Text) (verbose : Bool) (events : List Event) : Text :=
  writeLines ((events.filter (isShown verbose)).map fun e => stamp ++ e.line)

/-- The reports of a fault that ends a run with an exit code. -/
def faultEvents (f : Fault) : List Event :=
  .runFailed f.message :: match f.details? with
    | some (c :: t) => [.runFailed (c :: t)]
    | _ => []

def finish (stamp : Text) (verbose : Bool) (outcome : Except Fault Path) (w : Workspace) : Result :=
  let log := logText stamp verbose
  match outcome with
  | .ok path =>
    { ending := .exit 0, stdout := writeLines [path.toText], stderr := log w.events,
      store := w.store }
  | .error f =>
    if f.category = .input || f.category = .value then
      { ending := .exit 1, stderr := log (w.events ++ faultEvents f), store := w.store }
    else { ending := .crash f, stderr := log w.events, store := w.store }

def run (moment : Moment) (arguments : List Text) (store : Store) : Result :=
  match parse arguments with
  | .error .help => { ending := .exit 0, stdout := help, store := store }
  | .error .version => { ending := .exit 0, stdout := version, store := store }
  | .error (.error e) => { ending := .exit 2, stderr := e.report, store := store }
  | .ok a =>
    let (outcome, w) := (generate moment.exported a).run { store := store }
    finish moment.logged a.verbose outcome w

end LabelAtlas.CommandLine
