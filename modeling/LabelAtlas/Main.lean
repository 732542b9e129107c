import LabelAtlas.CommandLine.Run
import Std.Time

/-! The command line program: the files that a run looks at are loaded, the run is computed, and
what it changed is written back. -/
namespace LabelAtlas.CommandLine

/-- A text for the system. A surrogate is shown by its number. -/
def toSystem (t : Text) : String :=
  String.join (t.map fun
    | .scalar c => c.toString
    | .surrogate n => "\\u" ++ String.ofList (Nat.toDigits 16 (CodePoint.surrogate n).toNat))

def systemPath (l : Location) : String :=
  let start : Text := if l.absolute then "/" else (List.replicate l.up ("../" : Text)).flatten
  toSystem (start ++ Text.join "/" l.names)

def nodeAt? (l : Location) : IO (Option Node) := do
  try
    let content ← IO.FS.readBinFile (systemPath l)
    return some (.file content.toList)
  catch
    | .permissionDenied .. => return some .locked
    | .inappropriateType .. => return some .directory
    | _ => return none

/-- Adds what stands along a path. -/
def load (store : Store) (p : Path) : IO Store := do
  let .ok _ := Store.pathBytes p | return store
  let mut store := store
  let mut place : Location := { absolute := p.isAbsolute }
  for part in p.parts do
    match store.enter place part with
    | .error _ => return store
    | .ok next =>
      place := next
      if (store.node? place).isNone then
        if let some node ← nodeAt? place then
          store := store.put place node
  return store

/-- The paths a run looks at besides its settings file. -/
def pathsOf (s : Settings) : List Path :=
  let files := (s.listFile.toList ++ s.labelsFile.toList).filterMap GivenPath.path?
  files ++ s.outputDir.path?.toList.flatMap fun dir =>
    dir :: dir.child Html.styleFile :: Format.all.map fun f => dir.child ("index" ++ f.extension)

/-- The files that a run with these arguments looks at. -/
def filesFor (arguments : List Text) : IO Store := do
  let .ok a := parse arguments | return {}
  let store ← (a.config.bind GivenPath.path?).toList.foldlM load {}
  let .ok s := a.settings store | return store
  (pathsOf s).foldlM load store

def writeBack (before after : Store) : IO Unit := do
  for (l, node) in after.nodes do
    if before.node? l ≠ some node then
      match node with
      | .directory => IO.FS.createDirAll (systemPath l)
      | .file content => IO.FS.writeBinFile (systemPath l) ⟨content.toArray⟩
      | .locked => pure ()

def momentNow : IO Moment := do
  let now ← Std.Time.PlainDateTime.now
  return {
    exported := now.format "uuuu-MM-dd'T'HH:mm:ss.SSSSSS"
    logged := now.format "uuuu-MM-dd HH:mm:ss,SSS " }

end LabelAtlas.CommandLine

open LabelAtlas CommandLine in
def main (arguments : List String) : IO UInt32 := do
  let arguments := arguments.map fun (argument : String) => (argument : Text)
  let before ← filesFor arguments
  let result := CommandLine.run (← momentNow) arguments before
  writeBack before result.store
  (← IO.getStderr).putStr (toSystem result.stderr)
  (← IO.getStdout).putStr (toSystem result.stdout)
  match result.ending with
  | .exit code => return UInt32.ofNat code
  | .crash _ => return 1
