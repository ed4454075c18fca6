/-
The program.
-/
import VariantFold.CommandLine.Run

namespace VariantFold.CommandLine

/-- A summary of the command line. -/
def usageText : String :=
  "Usage: vopt [-v|-q] optimize [TREE] [--variants FILE] [--set KEY=VALUE] [--namespace ROOT]\n" ++
  "                     [-c] [-o FILE] [--file-id ID] [--passes N]\n" ++
  "       vopt [-v|-q] keys [TREE] [--namespace ROOT]\n"

/-- The files that a command reads. -/
def Command.files : Command → List String
  | .optimize c => (if c.tree = standardInput then [] else [c.tree]) ++ c.variantFiles
  | .keys c => if c.tree = standardInput then [] else [c.tree]

/-- Whether a command reads the standard input. -/
def Command.readsStandardInput : Command → Bool
  | .optimize c => c.tree = standardInput
  | .keys c => c.tree = standardInput

/-- What a failed access to a file says. -/
def fileError (e : IO.Error) : FileError :=
  match e with
  | .noFileOrDirectory .. => .missing
  | .inappropriateType .. => .isDirectory
  | e => .other (toString e)

/-- Reads files, each with its name. -/
def readFiles (paths : List String) : IO (List (String × Except FileError String)) :=
  paths.mapM fun (path : String) => do
    match ← (IO.FS.readFile path).toBaseIO with
    | .ok text => return (path, .ok text)
    | .error e => return (path, .error (fileError e))

/-- Shows the log and the result of a run, and gives the exit code. -/
def finish (outcome : Outcome) : IO UInt32 := do
  for line in outcome.log do
    IO.eprintln line.text
  match outcome.result with
  | .ok (.print text) =>
    IO.print text
    return 0
  | .ok (.write path text) =>
    match ← (IO.FS.writeFile path text).toBaseIO with
    | .ok _ => return 0
    | .error e =>
      IO.eprintln (fileError e).message
      return 1
  | .error e =>
    IO.eprintln e.message
    return 1

/-- Reads what a command line needs and runs it. -/
def Invocation.perform (i : Invocation) : IO UInt32 := do
  let files ← readFiles i.command.files
  let standard ← if i.command.readsStandardInput then (← IO.getStdin).readToEnd else pure ""
  let file (path : String) : Except FileError String :=
    match files.find? fun f => f.1 = path with
    | some (_, text) => text
    | none => .error .missing
  finish (i.run ⟨standard, file⟩)

/-- Runs a command line, or tells why it is not run. -/
def execute (words : List String) : IO UInt32 := do
  match Invocation.ofWords words with
  | .ok i => i.perform
  | .error .help =>
    IO.print usageText
    return 0
  | .error .version =>
    IO.println "vopt 0.3.0"
    return 0
  | .error refusal =>
    IO.eprint usageText
    return refusal.exitCode.toUInt32

end VariantFold.CommandLine

/-- Runs the program. -/
def main (words : List String) : IO UInt32 := VariantFold.CommandLine.execute words
