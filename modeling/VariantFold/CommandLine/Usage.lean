/-
The words of a command line.

A command line names a command, gives options, and names the file with the tree.  Options have long names
after two dashes and some have letters after one dash; letters can be joined.  The value of an option
follows in the next word, or in the same word after an equals sign or right after the letter.  Two dashes
alone end the options.  A command line that asks for help, or that cannot be read, is not run.
-/
import VariantFold.Variants.Basic

namespace VariantFold.CommandLine

/-- Why a command line is not run. -/
inductive Refusal where
  /-- Help is asked for. -/
  | help
  /-- The version is asked for. -/
  | version
  /-- There is nothing to do. -/
  | empty
  /-- There are options but no command. -/
  | noCommand
  /-- There is no such command. -/
  | unknownCommand
  /-- There is no such option, or there are too many words. -/
  | unknownArgument
  /-- An option has no value, or an empty one where that makes no sense. -/
  | noValue
  /-- The value of an option cannot be read. -/
  | badValue
  /-- An option is given twice, or along with one that it excludes. -/
  | conflict
  /-- An option that has no value is given one. -/
  | needlessValue
  deriving DecidableEq, Repr

/-- The name of a refusal. -/
def Refusal.name : Refusal → String
  | help => "DisplayHelp"
  | version => "DisplayVersion"
  | empty => "DisplayHelpOnMissingArgumentOrSubcommand"
  | noCommand => "MissingSubcommand"
  | unknownCommand => "InvalidSubcommand"
  | unknownArgument => "UnknownArgument"
  | noValue => "InvalidValue"
  | badValue => "ValueValidation"
  | conflict => "ArgumentConflict"
  | needlessValue => "TooManyValues"

/-- The exit code of a refusal: help and version are no mistakes. -/
def Refusal.exitCode : Refusal → Nat
  | help | version => 0
  | _ => 2

/-- The options. -/
inductive Flag where
  | verbose
  | quiet
  | help
  | version
  | compact
  | output
  | variants
  | set
  | namespaces
  | fileId
  | passes
  deriving DecidableEq, Repr

namespace Flag

/-- The long name of an option. -/
def name : Flag → String
  | verbose => "verbose"
  | quiet => "quiet"
  | help => "help"
  | version => "version"
  | compact => "compact"
  | output => "output"
  | variants => "variants"
  | set => "set"
  | namespaces => "namespace"
  | fileId => "file-id"
  | passes => "passes"

/-- The letter of an option. -/
def letter? : Flag → Option Char
  | verbose => some 'v'
  | quiet => some 'q'
  | help => some 'h'
  | version => some 'V'
  | compact => some 'c'
  | output => some 'o'
  | _ => none

/-- Whether an option has a value. -/
def hasValue : Flag → Bool
  | output | variants | set | namespaces | fileId | passes => true
  | _ => false

/-- The options before the command. -/
def general : List Flag := [verbose, quiet, help, version]

/-- The options of the command that resolves variants. -/
def ofOptimize : List Flag :=
  [verbose, quiet, help, compact, output, variants, set, namespaces, fileId, passes]

/-- The options of the command that lists variants. -/
def ofKeys : List Flag := [verbose, quiet, help, namespaces]

end Flag

/-- What a part of a command line says. -/
inductive Use where
  /-- An option without value, or with one in the same word. -/
  | joined (flag : Flag) (value : Option String)
  /-- An option with its value in the next word, if there is one. -/
  | apart (flag : Flag) (value : Option String)
  /-- The name of the file with the tree. -/
  | tree (path : String)
  /-- Something that cannot be read. -/
  | bad (refusal : Refusal)
  deriving DecidableEq, Repr

/-- What a word with options says, and the option that has its value in the next word. -/
abbrev Reading := List Use × Option Flag

/-- Whether a word holds options: it starts with a dash, and is more than that. -/
def isDashed (word : String) : Bool := word.startsWith "-" && word ≠ "-"

/-- Reads what follows two dashes. -/
def readLong (flags : List Flag) (text : String) : Reading :=
  let (name, value) : String × Option String :=
    match Text.cutFirst '=' text with
    | some (name, value) => (name, some value)
    | none => (text, none)
  match flags.find? fun f => f.name = name with
  | none => ([.bad .unknownArgument], none)
  | some f =>
    if f.hasValue then
      match value with
      | some v => ([.joined f (some v)], none)
      | none => ([], some f)
    else if value.isSome then ([.bad .needlessValue], none)
    else ([.joined f none], none)

/-- Reads what follows one dash. -/
def readLetters (flags : List Flag) : List Char → Reading
  | [] => ([], none)
  | c :: rest =>
    match flags.find? fun f => f.letter? = some c with
    | none => ([.bad .unknownArgument], none)
    | some f =>
      if f.hasValue then
        match rest with
        | [] => ([], some f)
        | '=' :: value => ([.joined f (some (String.ofList value))], none)
        | value => ([.joined f (some (String.ofList value))], none)
      else
        let (uses, waiting) := readLetters flags rest
        (.joined f none :: uses, waiting)

/-- Reads a word with options. -/
def readDashed (flags : List Flag) (word : String) : Reading :=
  match word.toList with
  | '-' :: '-' :: text => readLong flags (String.ofList text)
  | _ :: letters => readLetters flags letters
  | [] => ([], none)

/-- Reads words that are no options: one names the tree, and more are too many. -/
def readPlain : (named : Bool) → List String → List Use
  | _, [] => []
  | true, _ :: _ => [.bad .unknownArgument]
  | false, word :: rest => .tree word :: readPlain true rest

/-- Reads the words after a command. -/
def readWords (flags : List Flag) : (named : Bool) → List String → List Use
  | _, [] => []
  | named, word :: rest =>
    if word = "--" then readPlain named rest
    else if isDashed word then
      match readDashed flags word with
      | (uses, none) => uses ++ readWords flags named rest
      | (uses, some f) =>
        match rest with
        | [] => uses ++ [.apart f none]
        | next :: more =>
          if isDashed next then uses ++ .apart f none :: readWords flags named (next :: more)
          else uses ++ .apart f (some next) :: readWords flags named more
    else if named then [.bad .unknownArgument]
    else .tree word :: readWords flags true rest

/-- Whether what a part says is looked at only when the words go on well. -/
def Use.isTentative : Use → Bool
  | apart .. | tree _ => true
  | joined .. | bad _ => false

/-- A word that cannot be read comes before what is wrong with the value right before it. -/
def settle : List Use → List Use
  | [] => []
  | [u] => [u]
  | u :: .bad r :: rest => if u.isTentative then .bad r :: rest else u :: .bad r :: rest
  | u :: v :: rest => u :: settle (v :: rest)

/-! ### What is given -/

/-- What a command line gives. -/
structure Given where
  tree : Option String := none
  /-- The files with variants, in order. -/
  variantFiles : List String := []
  /-- The single settings, in order. -/
  settings : List (String × Scalar) := []
  /-- The namespaces to search, if not the usual ones. -/
  namespaces : List String := []
  compact : Bool := false
  output : Option String := none
  fileId : Option String := none
  passes : Option Nat := none
  /-- How often more messages are asked for. -/
  verbose : Nat := 0
  /-- How often fewer messages are asked for. -/
  quiet : Nat := 0

namespace Given

/-- The most passes that can be asked for. -/
def passesLimit : Nat := UInt32.size - 1

/-- A number of passes. -/
def readPasses? (text : String) : Option Nat :=
  match readInt? text.toList with
  | some n => if 1 ≤ n ∧ n ≤ passesLimit then some n.toNat else none
  | none => none

/-- Fills in an option that is given at most once. -/
def once {α : Type} (present : Option α) (value : Except Refusal α) : Except Refusal (Option α) :=
  if present.isSome then .error .conflict else value.map some

/-- A file has a name. -/
def fileName (path : String) : Except Refusal String :=
  if path = "" then .error .noValue else .ok path

/-- Takes in an option with its value. -/
def addValue (g : Given) (flag : Flag) (value : String) : Except Refusal Given := do
  match flag with
  | .output => return { g with output := ← once g.output (fileName value) }
  | .variants => return { g with variantFiles := g.variantFiles ++ [← fileName value] }
  | .set =>
    match Variants.readAssignment value with
    | .ok setting => return { g with settings := g.settings ++ [setting] }
    | .error _ => .error .badValue
  | .namespaces => return { g with namespaces := g.namespaces ++ [value] }
  | .fileId => return { g with fileId := ← once g.fileId (.ok value) }
  | .passes =>
    let read : Except Refusal Nat := match readPasses? value with
      | some n => .ok n
      | none => .error .badValue
    return { g with passes := ← once g.passes read }
  | .verbose | .quiet | .help | .version | .compact => .error .needlessValue

/-- The most that an option counts for, however often it is given. -/
def countLimit : Nat := 255

/-- Takes in an option without value. -/
def addFlag (g : Given) (flag : Flag) : Except Refusal Given :=
  match flag with
  | .verbose => .ok { g with verbose := min (g.verbose + 1) countLimit }
  | .quiet => .ok { g with quiet := min (g.quiet + 1) countLimit }
  | .help => .error .help
  | .version => .error .version
  | .compact => if g.compact then .error .conflict else .ok { g with compact := true }
  | .output | .variants | .set | .namespaces | .fileId | .passes => .error .noValue

/-- Takes in an option. -/
def addOption (g : Given) (flag : Flag) : Option String → Except Refusal Given
  | some value => g.addValue flag value
  | none => g.addFlag flag

/-- Takes in what a part of a command line says. -/
def add (g : Given) : Use → Except Refusal Given
  | .joined flag value => g.addOption flag value
  | .apart flag value => g.addOption flag value
  | .tree path => do return { g with tree := some (← fileName path) }
  | .bad refusal => .error refusal

/-- More and fewer messages cannot be asked for at once. -/
def check (g : Given) : Except Refusal Given :=
  if 0 < g.verbose ∧ 0 < g.quiet then .error .conflict else .ok g

/-- What the words after a command give. -/
def ofWords (flags : List Flag) (words : List String) : Except Refusal Given := do
  let g ← (settle (readWords flags false words)).foldlM add {}
  g.check

end Given

/-! ### Commands -/

/-- Resolving the variants of a tree. -/
structure OptimizeCommand where
  /-- The file with the tree; a dash is the standard input. -/
  tree : String
  variantFiles : List String
  settings : List (String × Scalar)
  namespaces : List String
  compact : Bool
  /-- The file for the result, if it is not the standard output. -/
  output : Option String
  /-- The name of the tree in messages, if it is not that of the file. -/
  fileId : Option String
  /-- How many passes are made at most. -/
  passes : Nat

/-- Listing the variants of a tree. -/
structure KeysCommand where
  /-- The file with the tree; a dash is the standard input. -/
  tree : String
  namespaces : List String

/-- What is to be done. -/
inductive Command where
  | optimize (c : OptimizeCommand)
  | keys (c : KeysCommand)

/-- A command line that can be run. -/
structure Invocation where
  command : Command
  /-- The least important level of messages that is shown, by rank; zero shows none. -/
  rank : Nat

/-- The name of the standard input. -/
def standardInput : String := "-"

/-- The rank of messages that are shown: from warnings on, and more or less as asked for. -/
def shownRank (verbose quiet : Nat) : Nat := min (2 + verbose - quiet) 5

/-- The commands by name. -/
inductive CommandName where
  | optimize
  | keys
  | help
  deriving DecidableEq, Repr

/-- The command of a name. -/
def CommandName.ofName? (name : String) : Option CommandName :=
  if name = "optimize" then some .optimize
  else if name = "keys" then some .keys
  else if name = "help" then some .help
  else none

/-- What follows a request for help names a command, if anything. -/
def readHelp : List String → Refusal
  | [] => .help
  | [name] => if (CommandName.ofName? name).isSome then .help else .unknownCommand
  | _ => .unknownCommand

/-- Reads the words from a command on, with what is given before it. -/
def readCommand (before : Given) (name : CommandName) (words : List String) :
    Except Refusal Invocation := do
  let finish (g : Given) (command : Command) : Except Refusal Invocation := do
    let before ← before.check
    let verbose := if 0 < g.verbose then g.verbose else before.verbose
    let quiet := if 0 < g.quiet then g.quiet else before.quiet
    return ⟨command, shownRank verbose quiet⟩
  match name with
  | .help => .error (readHelp words)
  | .optimize =>
    let g ← Given.ofWords Flag.ofOptimize words
    finish g (.optimize
      { tree := g.tree.getD standardInput, variantFiles := g.variantFiles, settings := g.settings,
        namespaces := g.namespaces, compact := g.compact, output := g.output, fileId := g.fileId,
        passes := g.passes.getD 1 })
  | .keys =>
    let g ← Given.ofWords Flag.ofKeys words
    finish g (.keys { tree := g.tree.getD standardInput, namespaces := g.namespaces })

/-- Reads the words of a command line, with what is given so far. -/
def readCommandLine (given : Given) : List String → Except Refusal Invocation
  | [] => .error (if given.verbose + given.quiet = 0 then .empty else .noCommand)
  | word :: rest =>
    if word = "--" then
      match rest with
      | [] => .error (if given.verbose + given.quiet = 0 then .empty else .noCommand)
      | next :: _ =>
        .error (if (CommandName.ofName? next).isSome then .unknownArgument else .unknownCommand)
    else if isDashed word then
      match (readDashed Flag.general word).1.foldlM Given.add given with
      | .ok given => readCommandLine given rest
      | .error refusal => .error refusal
    else
      match CommandName.ofName? word with
      | some name => readCommand given name rest
      | none => .error .unknownCommand

/-- Reads a command line. -/
def Invocation.ofWords (words : List String) : Except Refusal Invocation := readCommandLine {} words

end VariantFold.CommandLine
