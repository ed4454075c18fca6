/-
What a run reports.

Findings about single places in the tree are diagnostics, kept with the run.  They also go to the log
lines of the run, which carry other messages too and are shown from a level of importance on.  What ends
a run is an error.
-/
import VariantFold.Tree.Basic

namespace VariantFold

/-- How serious a diagnostic is. -/
inductive Severity where
  | information
  | warning
  deriving DecidableEq, Repr

/-- The name of a severity. -/
def Severity.name : Severity → String
  | information => "Information"
  | warning => "Warning"

/-- The place a report is about, as far as it is known. -/
structure Location where
  /-- The file of the run. -/
  file : Option String := none
  /-- The source line of the node. -/
  line : Option Int64 := none
  deriving DecidableEq

/-- A place after a message, with a blank before it. -/
def Location.text (l : Location) : String :=
  match l.file, l.line with
  | some file, some line => " (" ++ file ++ ":" ++ intText line.toInt ++ ")"
  | some file, none => " (" ++ file ++ ")"
  | none, some line => " (Line " ++ intText line.toInt ++ ")"
  | none, none => ""

/-- A finding about a place in the tree. -/
structure Diagnostic where
  severity : Severity
  message : String
  location : Location
  deriving DecidableEq

/-- A diagnostic on one line. -/
def Diagnostic.text (d : Diagnostic) : String :=
  d.severity.name ++ ": " ++ d.message ++ d.location.text

/-- The importance of a log line. -/
inductive Level where
  | error
  | warn
  | info
  | debug
  | trace
  deriving DecidableEq, Repr

namespace Level

/-- The rank of a level; less is more important. -/
def rank : Level → Nat
  | error => 1
  | warn => 2
  | info => 3
  | debug => 4
  | trace => 5

/-- The name of a level. -/
def name : Level → String
  | error => "ERROR"
  | warn => "WARN"
  | info => "INFO"
  | debug => "DEBUG"
  | trace => "TRACE"

end Level

/-- A message of the log. -/
structure LogLine where
  level : Level
  message : String
  deriving DecidableEq

/-- A log line with its level in front. -/
def LogLine.text (l : LogLine) : String := l.level.name ++ " " ++ l.message

/-- The reports of a run. -/
structure Log where
  /-- The file that the reports name. -/
  file : Option String := none
  /-- Whether the user wants to know of every change. -/
  verbose : Bool := false
  /-- The diagnostics so far, in order. -/
  diagnostics : List Diagnostic := []
  /-- The log lines so far, in order. -/
  lines : List LogLine := []
  deriving DecidableEq

namespace Log

/-- A log for a file; an empty name is no name. -/
def forFile (file : Option String) (verbose : Bool) : Log :=
  { file := file.filter (· ≠ ""), verbose := verbose }

/-- The place of a node. -/
def location (log : Log) (t : Tree) (id : NodeId) : Location := ⟨log.file, (t.node id).line?⟩

/-- Adds a log line. -/
def note (log : Log) (level : Level) (message : String) : Log :=
  { log with lines := log.lines ++ [⟨level, message⟩] }

/-- Adds a diagnostic, which is a log line too. -/
def report (log : Log) (level : Level) (d : Diagnostic) : Log :=
  let log := log.note level d.text
  { log with diagnostics := log.diagnostics ++ [d] }

/-- Warns about a node. -/
def warn (log : Log) (t : Tree) (id : NodeId) (message : String) : Log :=
  log.report .warn ⟨.warning, message, log.location t id⟩

/-- Tells what was done at a node. -/
def info (log : Log) (t : Tree) (id : NodeId) (message : String) : Log :=
  log.report (if log.verbose then .info else .debug) ⟨.information, message, log.location t id⟩

/-- The diagnostics that are warnings. -/
def warnings (log : Log) : List Diagnostic :=
  log.diagnostics.filter fun d => d.severity = .warning

/-- The log lines of at least the importance of a rank. -/
def shown (log : Log) (rank : Nat) : List LogLine := log.lines.filter fun l => l.level.rank ≤ rank

end Log

/-- What ends a run. -/
inductive VariantError where
  /-- No branch of a selection fits the configured value, and there is no default. -/
  | noMatchingBranch (key value : String) (location : Location)
  /-- A configured value has no literal. -/
  | unsupportedValue (value : String) (location : Location)
  deriving DecidableEq

namespace VariantError

/-- The name of an error. -/
def name : VariantError → String
  | noMatchingBranch .. => "NoMatchingBranch"
  | unsupportedValue .. => "UnsupportedValue"

/-- What is said about an error. -/
def message : VariantError → String
  | noMatchingBranch key value location =>
    "No matching case found for variant (" ++ key ++ ":" ++ value ++ ")" ++ location.text
  | unsupportedValue value location =>
    "Illegal value for JS constant: " ++ value ++ location.text

/-- The code under which an error is documented. -/
def code : VariantError → String
  | noMatchingBranch .. => "vopt::select::no_match"
  | unsupportedValue .. => "vopt::literal::unsupported"

/-- What can be done about an error. -/
def help : VariantError → String
  | noMatchingBranch .. =>
    "add a branch matching the configured value or a \"default\" branch to the select map"
  | unsupportedValue .. => "variant values must be strings, booleans, finite numbers or null"

end VariantError

end VariantFold
