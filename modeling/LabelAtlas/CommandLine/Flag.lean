import LabelAtlas.Numeral
import LabelAtlas.Page.Format
import LabelAtlas.Path

/-! The flags of the command line and their texts. -/
namespace LabelAtlas.CommandLine

inductive Flag where
  | help
  | list
  | labels
  | out
  | format
  | title
  | config
  | sourceColumn
  | verbose
  | version
  deriving DecidableEq, Repr

namespace Flag

/-- The spellings of all flags, in the order in which they are listed. -/
def spellings : List (Text × Flag) := [
  ("-h", help), ("--help", help), ("--list", list), ("--labels", labels), ("--out", out),
  ("--format", format), ("--title", title), ("--config", config),
  ("--source-column", sourceColumn), ("--verbose", verbose), ("-v", verbose),
  ("--version", version)]

def ofSpelling? (t : Text) : Option Flag :=
  (spellings.find? (·.1 = t)).map (·.2)

def takesValue : Flag → Bool
  | help | verbose | version => false
  | _ => true

/-- A flag as messages name it: all its spellings. -/
def name (f : Flag) : Text :=
  Text.join "/" ((spellings.filter (·.2 = f)).map (·.1))

end Flag

/-- What is wrong with a command line. -/
inductive UsageError where
  | ambiguous (argument : Text) (candidates : List Text)
  | expectedArgument (flag : Flag)
  | ignoredArgument (flag : Flag) (value : Text)
  | invalidInt (flag : Flag) (value : Text)
  | invalidChoice (flag : Flag) (value : Text)
  | unrecognized (arguments : List Text)
  deriving DecidableEq, Repr

def UsageError.message : UsageError → Text
  | ambiguous argument candidates =>
    "ambiguous option: " ++ argument ++ " could match " ++ Text.join ", " candidates
  | expectedArgument flag => "argument " ++ flag.name ++ ": expected one argument"
  | ignoredArgument flag value =>
    "argument " ++ flag.name ++ ": ignored explicit argument " ++ Text.quoted value
  | invalidInt flag value =>
    "argument " ++ flag.name ++ ": invalid int value: " ++ Text.quoted value
  | invalidChoice flag value =>
    "argument " ++ flag.name ++ ": invalid choice: " ++ Text.quoted value ++ " (choose from "
      ++ Text.join ", " (Format.all.map fun f => Text.quoted f.name) ++ ")"
  | unrecognized arguments => "unrecognized arguments: " ++ Text.join " " arguments

def usageLines : List Text := [
  "usage: asmdoc [-h] [--list LIST_PATH] [--labels LABELS_PATH]",
  "              [--out OUTPUT_DIR] [--format \x7bhtml,json\x7d] [--title TITLE]",
  "              [--config CONFIG] [--source-column SOURCE_COLUMN] [--verbose]",
  "              [--version]"]

def optionLines : List Text := [
  "",
  "Generate documentation from an assembler list file and its exported labels.",
  "",
  "options:",
  "  -h, --help            show this help message and exit",
  "  --list LIST_PATH      Assembler list file",
  "  --labels LABELS_PATH  Exported labels file",
  "  --out OUTPUT_DIR      Output directory",
  "  --format \x7bhtml,json\x7d  Output format (default: html)",
  "  --title TITLE         Documentation title",
  "  --config CONFIG       JSON configuration file",
  "  --source-column SOURCE_COLUMN",
  "                        Column of the source text in the list file",
  "  --verbose, -v         Debug logging",
  "  --version             show program's version number and exit"]

def writeLines (lines : List Text) : Text :=
  lines.flatMap (· ++ "\n")

def help : Text := writeLines (usageLines ++ optionLines)

def version : Text := "asmdoc 0.1.0\n"

def UsageError.report (e : UsageError) : Text :=
  writeLines (usageLines ++ [("asmdoc: error: " : Text) ++ e.message])

end LabelAtlas.CommandLine
