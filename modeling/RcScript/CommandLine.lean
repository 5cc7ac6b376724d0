import RcScript.Directory
import RcScript.Program.Dump
import RcScript.Program.Layout
import RcScript.Program.Advisory
import RcScript.Text.Quoted

/-!
# Command line

Five subcommands take a list of files. Files are handled in order and one that
fails does not stop the rest. The outcome of a run is what it writes to its two
output channels and whether anything failed; it depends on the file system only
through the answers that reading the files gives.
-/

namespace RcScript

open Text

/-- What to do with each file. -/
inductive Task where
  /-- Report malformed lines, and with `lint` advisories as well. -/
  | validate (lint : Bool)
  /-- Print the canonical text. -/
  | fmt
  /-- Report whether the text is canonical. -/
  | check
  /-- List the tokens. -/
  | tokens
  /-- Print the structured form. -/
  | dump
  deriving DecidableEq, Repr, Inhabited

/-- A task with the files to do it for. -/
structure Invocation where
  /-- What to do with each file. -/
  task : Task
  /-- Paths of the files, in order. -/
  files : List String
  deriving DecidableEq, Repr, Inhabited

/-- Why arguments are no invocation. -/
inductive UsageError where
  | noSubcommand
  | unknownSubcommand (name : String)
  | unknownOption (option : String)
  | repeatedOption (option : String)
  | emptyPath
  | noFiles
  deriving DecidableEq, Repr, Inhabited

/-- The wording of a usage error. -/
def UsageError.message : UsageError → String
  | noSubcommand => "a subcommand is required: validate, fmt, check, tokens or dump"
  | unknownSubcommand name => "unknown subcommand '" ++ name ++ "'"
  | unknownOption option => "unknown option '" ++ option ++ "'"
  | repeatedOption option => "option '" ++ option ++ "' given twice"
  | emptyPath => "a path is empty"
  | noFiles => "no files given"

namespace Invocation

/-- The task of a subcommand. Case matters. -/
def taskOf? (name : String) : Option Task :=
  match name with
  | "validate" => some (.validate false)
  | "fmt" => some .fmt
  | "check" => some .check
  | "tokens" => some .tokens
  | "dump" => some .dump
  | _ => none

/-- The invocation with one more file at the end. -/
def addFile (invocation : Invocation) (path : String) : Except UsageError Invocation :=
  if path.isEmpty then .error .emptyPath
  else .ok { invocation with files := invocation.files ++ [path] }

/-- The invocation with one more option. -/
def addOption (invocation : Invocation) (option : String) : Except UsageError Invocation :=
  match invocation.task, option with
  | .validate false, "--lint" => .ok { invocation with task := .validate true }
  | .validate true, "--lint" => .error (.repeatedOption option)
  | _, _ => .error (.unknownOption option)

/-- Whether an argument is an option. A lone dash is a file. -/
def isOption (argument : String) : Bool := argument.startsWith "-" && argument != "-"

/-- Add arguments that are files whatever they look like. -/
def addFiles (invocation : Invocation) : List String → Except UsageError Invocation
  | [] => .ok invocation
  | path :: paths => do (← invocation.addFile path).addFiles paths

/-- Add the arguments after a subcommand. Options and files may be mixed; after
two dashes everything is a file. -/
def addArguments (invocation : Invocation) : List String → Except UsageError Invocation
  | [] => .ok invocation
  | argument :: arguments =>
    if argument == "--" then invocation.addFiles arguments
    else if isOption argument then do (← invocation.addOption argument).addArguments arguments
    else do (← invocation.addFile argument).addArguments arguments

/-- The invocation that arguments ask for. -/
def ofArguments : List String → Except UsageError Invocation
  | [] => .error .noSubcommand
  | name :: arguments =>
    match taskOf? name with
    | none => .error (.unknownSubcommand name)
    | some task => do
      let invocation ← addArguments ⟨task, []⟩ arguments
      if invocation.files.isEmpty then .error .noFiles else .ok invocation

end Invocation

/-- What a run has written and whether anything failed. -/
structure Outcome where
  /-- Text on the output channel. -/
  output : String
  /-- Text on the message channel. -/
  messages : String
  /-- Whether anything failed. -/
  failed : Bool
  deriving DecidableEq, Repr, Inhabited

namespace Outcome

/-- Nothing written and nothing failed. -/
def empty : Outcome := ⟨"", "", false⟩

/-- The exit code of a run. -/
def exitCode (outcome : Outcome) : Nat := if outcome.failed then 1 else 0

/-- Write to the output channel. -/
def print (outcome : Outcome) (text : String) : Outcome :=
  { outcome with output := outcome.output ++ text }

/-- Write one line about a file to the message channel. -/
def report (outcome : Outcome) (path message : String) : Outcome :=
  { outcome with messages := outcome.messages ++ pathMessage path message ++ "\n" }

/-- Write one line for each message about a file to the message channel. -/
def reportAll (outcome : Outcome) (path : String) (messages : List String) : Outcome :=
  messages.foldl (fun outcome message => outcome.report path message) outcome

/-- Note a failure. -/
def fail (outcome : Outcome) : Outcome := { outcome with failed := true }

end Outcome

namespace Program

/-- Number of statements whose kind is one of `kinds`. -/
def countOf (program : Program) (kinds : List StatementKind) : Nat :=
  kinds.foldl (fun count kind => count + (program.ofKind kind).length) 0

/-- The statements of a program, counted by group. -/
def summary (program : Program) : String :=
  toString (program.countOf [.binding, .unbinding]) ++ " binding(s), " ++
    toString (program.countOf [.aliasDef, .commandDef]) ++ " alias(es), " ++
    toString (program.countOf [.autocmd, .autocontain]) ++ " autocmd(s), " ++
    toString (program.countOf [.setting]) ++ " setting(s), " ++
    toString (program.countOf [.exCommand, .quickmark]) ++ " other command(s)"

end Program

/-- The line of a token in a listing. -/
def Token.listing (token : Token) : String :=
  toString token.span.line ++ ":" ++ toString token.span.column ++ "\t" ++ token.kind.name ++
    "\t" ++ quoted token.text ++ "\n"

namespace Task

/-- Report on the malformed lines of a file, with advisories if asked for. -/
def validateProgram (lint : Bool) (path : String) (program : Program) (outcome : Outcome) :
    Outcome :=
  let outcome := outcome.reportAll path (program.diagnostics.map Diagnostic.message)
  let outcome :=
    if lint then
      outcome.reportAll path (program.lint.map fun advisory => "warning: " ++ advisory.message)
    else outcome
  if program.diagnostics.isEmpty then
    outcome.report path ("valid (" ++ program.summary ++ ")")
  else outcome.fail

/-- Do a task for the text of a file. -/
def runText (task : Task) (path text : String) (outcome : Outcome) : Outcome :=
  let program := Program.parse text
  match task with
  | validate lint => validateProgram lint path program outcome
  | fmt => outcome.print program.format
  | check =>
    if program.format == text then outcome.report path "formatted"
    else (outcome.report path "not formatted").fail
  | tokens => outcome.print (String.join (program.tokens.map Token.listing))
  | dump => outcome.print (program.toJson.pretty 0 ++ "\n")

/-- Do a task for a file, given what reading it gave. -/
def runFile (task : Task) (outcome : Outcome) (file : String × Except ReadFailure String) :
    Outcome :=
  match file.2 with
  | .ok text => task.runText file.1 text outcome
  | .error failure => (outcome.report file.1 failure.message).fail

/-- Do a task for files in order, given what reading each of them gave. -/
def runFiles (task : Task) (files : List (String × Except ReadFailure String)) : Outcome :=
  files.foldl task.runFile Outcome.empty

end Task

namespace Invocation

/-- Do the task of an invocation, with `read` to read the files. -/
def run (invocation : Invocation) (read : String → Except ReadFailure String) : Outcome :=
  invocation.task.runFiles (invocation.files.map fun path => (path, read path))

end Invocation

end RcScript
