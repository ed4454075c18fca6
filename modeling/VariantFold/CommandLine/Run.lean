/-
Running a command line.

A run reads what it needs, writes to a log, and ends with a text to print or to write to a file, or with
a fault.  The log that was written before a fault stays.
-/
import VariantFold.CommandLine.Listing
import VariantFold.CommandLine.Usage
import VariantFold.Directory
import VariantFold.Step.Pass
import VariantFold.Tree.Json
import VariantFold.Variants.File

namespace VariantFold.CommandLine

/-- What ends a run early. -/
inductive Fault where
  /-- There is no file with the tree. -/
  | noTree (path : String)
  /-- A file cannot be read or written. -/
  | file (e : FileError)
  /-- The file with the tree holds none. -/
  | badTree (problem : Json.Problem)
  /-- A file with variants cannot be used. -/
  | variants (e : Variants.LoadError)
  /-- The tree cannot be worked on. -/
  | failure (e : Failure)

/-- What is said about a fault. -/
def Fault.message : Fault → String
  | noTree path => "File not found: " ++ path
  | file e => e.message
  | badTree problem => problem.message?.getD "malformed JSON"
  | variants e => e.message
  | failure (.variant e) => e.message
  | failure (.misplaced e) => e.message

/-- What a run ends with. -/
inductive Result where
  /-- A text for the standard output. -/
  | print (text : String)
  /-- A text for a file. -/
  | write (path text : String)

/-- What a run can read. -/
structure Input where
  standard : String
  /-- The text of a file. -/
  file : String → Except FileError String

/-- A run, which writes to a log and may end early. -/
abbrev Run := EStateM Fault Log

/-- The tree in a file. -/
def readTree (input : Input) (path : String) : Run Tree := do
  let text ← if path = standardInput then pure input.standard
    else match input.file path with
      | .ok text => pure text
      | .error .isDirectory => throw (.file .isDirectory)
      | .error (.other text) => throw (.file (.other text))
      | .error _ => throw (.noTree path)
  match Tree.ofJson text with
  | .ok t => return t
  | .error problem => throw (.badTree problem)

/-- The configurations in files, in order. -/
def readLayers (input : Input) : List String → Run (List Variants)
  | [] => return []
  | path :: rest => do
    match Variants.ofFile path (input.file path).toOption with
    | .error e => throw (.variants e)
    | .ok layer =>
      modify fun log => log.note .debug (toString layer.size ++ " variant(s) in " ++ path)
      return layer :: (← readLayers input rest)

/-- The configuration that files and single settings make. -/
def readVariants (input : Input) (files : List String) (settings : List (String × Scalar)) :
    Run Variants := do
  let variants := Variants.layered (← readLayers input files) settings
  modify fun log => log.note .debug (toString variants.size ++ " variant(s) loaded")
  return variants

/-- Takes steps on a tree. -/
def work {α : Type} (t : Tree) (step : Step α) : Run (α × Tree) := fun log =>
  match step ⟨t, log⟩ with
  | .ok a w => .ok (a, w.tree) w.log
  | .error e w => .error (.failure e) w.log

/-- The namespaces to search: the given ones, or else the usual ones. -/
def searched (namespaces : List String) : List String :=
  if namespaces = [] then defaultNamespaces else namespaces

/-- The name of a tree in messages: that of its file. -/
def treeName? (path : String) : Option String :=
  if path = standardInput then none else Path.stem? path

/-- Resolves the variants of a tree. -/
def OptimizeCommand.run (c : OptimizeCommand) (input : Input) : Run Result := do
  let t ← readTree input c.tree
  let variants ← readVariants input c.variantFiles c.settings
  let (changed, t) ← work t (Step.optimizeUntilStable (searched c.namespaces) variants c.passes)
  modify fun log => log.note .info
    (toString changed ++ " pass(es) changed the tree, " ++ toString log.warnings.length ++ " warning(s)")
  let text := t.toJson (if c.compact then .compact else .pretty) ++ "\n"
  return match c.output with
    | some path => .write path text
    | none => .print text

/-- Lists the variants of a tree. -/
def KeysCommand.run (c : KeysCommand) (input : Input) : Run Result := do
  let t ← readTree input c.tree
  let (lines, log) := describeAll t (← get) (t.callSites (searched c.namespaces))
  set log
  return .print (listingText lines)

/-- The log at the start of a run.  Changes are told when they would be shown. -/
def Invocation.log (i : Invocation) : Log :=
  match i.command with
  | .optimize c => Log.forFile (c.fileId.or (treeName? c.tree)) (3 ≤ i.rank)
  | .keys c => Log.forFile (treeName? c.tree) false

/-- Runs a command. -/
def Command.run (input : Input) : Command → Run Result
  | .optimize c => c.run input
  | .keys c => c.run input

/-- What comes of a command line: how it ended, and the log. -/
structure Outcome where
  result : Except Fault Result
  /-- The messages that are shown. -/
  log : List LogLine

/-- Runs a command line. -/
def Invocation.run (i : Invocation) (input : Input) : Outcome :=
  match i.command.run input i.log with
  | .ok result log => ⟨.ok result, log.shown i.rank⟩
  | .error e log => ⟨.error e, log.shown i.rank⟩

/-! ### Runs in a directory -/

/-- What a command line leaves behind. -/
structure Effect where
  /-- The fault that it ended with, if any. -/
  fault : Option Fault
  standardOutput : String
  log : List LogLine
  directory : Directory

/-- The exit code of a run. -/
def Effect.exitCode (e : Effect) : Nat := if e.fault.isSome then 1 else 0

/-- Runs a command line in a directory. -/
def Invocation.runIn (i : Invocation) (d : Directory) (standard : String) : Effect :=
  let outcome := i.run ⟨standard, d.read⟩
  match outcome.result with
  | .error e => ⟨some e, "", outcome.log, d⟩
  | .ok (.print text) => ⟨none, text, outcome.log, d⟩
  | .ok (.write path text) =>
    match d.write path text with
    | .ok d => ⟨none, "", outcome.log, d⟩
    | .error e => ⟨some (.file e), "", outcome.log, d⟩

end VariantFold.CommandLine
