import RcScript.Program

/-!
# Building programs

A program can be built statement by statement. Built statements come from no
text: they have no tokens and the zero span. A built value need not be one that
a text can be read as.
-/

namespace RcScript

namespace ExCommand

/-- A command without arguments. -/
def ofName (name : String) : ExCommand := ⟨name, none⟩

/-- A command with one more argument, after a space if it is not the first. -/
def arg (command : ExCommand) (value : String) : ExCommand :=
  match command.args with
  | none => { command with args := some value }
  | some args => { command with args := some (args ++ " " ++ value) }

end ExCommand

namespace SettingValue

/-- The value of a text: digits are a number and all else is a word. -/
def ofText (text : String) : SettingValue :=
  if !text.toList.isEmpty && text.toList.all Char.isDigit then number text else word text

end SettingValue

namespace Program

/-- The program without statements. -/
def empty : Program := ⟨[]⟩

/-- The program with one more statement, which comes from no text. -/
def add (program : Program) (node : Node) : Program :=
  ⟨program.statements ++ [⟨Span.zero, [], node⟩]⟩

/-- Add a comment, with a space after its quote mark. -/
def comment (program : Program) (text : String) : Program := program.add (.comment (" " ++ text))

/-- Add an empty line. -/
def blank (program : Program) : Program := program.add .blank

/-- Add the definition of an alias. -/
def aliasDef (program : Program) (name : String) (expansion : List String) : Program :=
  program.add (.aliasDef name expansion)

/-- Add a binding in the default mode. -/
def bindKey (program : Program) (key : Key) (command : ExCommand) : Program :=
  program.add (.binding none key command)

/-- Add a binding in a mode. -/
def bindKeyIn (program : Program) (mode : Mode) (key : Key) (command : ExCommand) : Program :=
  program.add (.binding (some mode) key command)

/-- Add the removal of a binding. -/
def unbindKey (program : Program) (mode : Option Mode) (key : Key) : Program :=
  program.add (.unbinding mode key)

/-- Add the definition of a command. -/
def commandDef (program : Program) (name : String) (command : ExCommand) : Program :=
  program.add (.commandDef name command)

/-- Add a command on a line of its own. -/
def run (program : Program) (command : ExCommand) : Program := program.add (.exCommand command)

/-- Add an `autocmd` that runs a command. -/
def autocmd (program : Program) (event : Event) (pattern : String) (command : ExCommand) :
    Program :=
  program.add (.autocmd event pattern (.exCommand command))

/-- Add an `autocmd` that runs an alias. -/
def autocmdAlias (program : Program) (event : Event) (pattern name : String) : Program :=
  program.add (.autocmd event pattern (.aliasName name))

/-- Add a container rule for a domain. -/
def containDomain (program : Program) (domain container : String) : Program :=
  program.add (.autocontain .sane domain container)

/-- Add a container rule for a URL. -/
def containUrl (program : Program) (url container : String) : Program :=
  program.add (.autocontain .url url container)

/-- Add a quickmark. -/
def quickmark (program : Program) (key : Char) (url : String) : Program :=
  program.add (.quickmark key url)

/-- Add a setting; values of digits become numbers. -/
def setting (program : Program) (name : String) (values : List String) : Program :=
  program.add (.setting name (values.map SettingValue.ofText))

end Program

end RcScript
