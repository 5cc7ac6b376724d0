import RcScript.Program

/-!
# Canonical text

A program is written one statement to a line, with single spaces between the
parts of a statement. Comments and malformed lines are written as they were
read, less carriage returns at their end: those would join the line terminator
when the text is read again. Every line ends with a line feed.
-/

namespace RcScript

open Text

/-- A text without the carriage returns at its end. -/
def trimReturns (text : String) : String := String.ofList (trimEnd (· == '\r') text.toList)

namespace ExCommand

/-- A command with its arguments. -/
def toText (command : ExCommand) : String :=
  match command.args with
  | none => command.name
  | some args => command.name ++ " " ++ args

end ExCommand

namespace Action

/-- What an `autocmd` runs, as written. -/
def toText : Action → String
  | exCommand command => command.toText
  | aliasName name => name

end Action

/-- The parts of a line with single spaces between them. -/
def spaced (parts : List String) : String := String.intercalate " " parts

/-- The flag and name of a mode, if there is one. -/
def modeParts : Option Mode → List String
  | none => []
  | some mode => ["--mode=" ++ mode.name]

namespace Node

/-- The canonical line of a node, without a line feed. -/
def toText : Node → String
  | aliasDef name expansion => spaced ("alias" :: name :: expansion)
  | autocmd event pattern action => spaced ["autocmd", event.name, pattern, action.toText]
  | autocontain flag pattern container => spaced ["autocontain", flag.text, pattern, container]
  | binding mode key command =>
    spaced (["bind"] ++ modeParts mode ++ [key.toText, command.toText])
  | unbinding mode key => spaced (["unbind"] ++ modeParts mode ++ [key.toText])
  | commandDef name command => spaced ["command", name, command.toText]
  | exCommand command => command.toText
  | quickmark key url => spaced ["quickmark", String.ofList [key], url]
  | setting name values => spaced ("set" :: name :: values.map SettingValue.text)
  | comment text => "\"" ++ trimReturns text
  | blank => ""
  | malformed _ text => trimReturns text

end Node

namespace Program

/-- The canonical text of a program. -/
def format (program : Program) : String :=
  String.join (program.statements.map fun statement => statement.node.toText ++ "\n")

end Program

end RcScript
