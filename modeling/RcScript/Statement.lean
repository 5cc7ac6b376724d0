import RcScript.Diagnostic
import RcScript.Event
import RcScript.Key
import RcScript.Mode

/-!
# Statements

A node is the meaning of one line. A statement is a node together with the line
it was read from: the span of the whole line, terminator included, and the
tokens in source order. A line that is no statement is kept verbatim beside its
diagnostic, so that no text is lost.
-/

namespace RcScript

/-- A command name with its opaque arguments. -/
structure ExCommand where
  /-- Name of the command. -/
  name : String
  /-- The rest of the line, if there is any. -/
  args : Option String
  deriving DecidableEq, Repr, Inhabited

/-- What an `autocmd` runs. -/
inductive Action where
  /-- A command, listed or with arguments. -/
  | exCommand (command : ExCommand)
  /-- A bare name that is no listed command. -/
  | aliasName (name : String)
  deriving DecidableEq, Repr, Inhabited

/-- How an `autocontain` rule reads its pattern. -/
inductive ContainFlag where
  /-- The pattern is a domain. -/
  | sane
  /-- The pattern is a URL. -/
  | url
  deriving DecidableEq, Repr, Inhabited

/-- The flag as written. -/
def ContainFlag.text : ContainFlag → String
  | sane => "-s"
  | url => "-u"

/-- A value of a setting. -/
inductive SettingValue where
  /-- A name. -/
  | word (text : String)
  /-- Digits, kept as written. -/
  | number (text : String)
  deriving DecidableEq, Repr, Inhabited

/-- The value as written. -/
def SettingValue.text : SettingValue → String
  | word text => text
  | number text => text

/-- The meaning of one line. -/
inductive Node where
  /-- `alias name expansion...` -/
  | aliasDef (name : String) (expansion : List String)
  /-- `autocmd Event pattern action` -/
  | autocmd (event : Event) (pattern : String) (action : Action)
  /-- `autocontain -s domain container` or `autocontain -u url container` -/
  | autocontain (flag : ContainFlag) (pattern container : String)
  /-- `bind [--mode=m] key command` -/
  | binding (mode : Option Mode) (key : Key) (command : ExCommand)
  /-- `unbind [--mode=m] key` -/
  | unbinding (mode : Option Mode) (key : Key)
  /-- `command name command` -/
  | commandDef (name : String) (command : ExCommand)
  /-- A command on a line of its own. -/
  | exCommand (command : ExCommand)
  /-- `quickmark k url` -/
  | quickmark (key : Char) (url : String)
  /-- `set name values...` -/
  | setting (name : String) (values : List SettingValue)
  /-- Everything after the quote mark of a comment line. -/
  | comment (text : String)
  /-- A line of blanks. -/
  | blank
  /-- A line that is no statement, with its content verbatim. -/
  | malformed (diagnostic : Diagnostic) (text : String)
  deriving DecidableEq, Repr, Inhabited

namespace Node

/-- The kind of a node. -/
def kind : Node → StatementKind
  | aliasDef .. => .aliasDef
  | autocmd .. => .autocmd
  | autocontain .. => .autocontain
  | binding .. => .binding
  | unbinding .. => .unbinding
  | commandDef .. => .commandDef
  | exCommand .. => .exCommand
  | quickmark .. => .quickmark
  | setting .. => .setting
  | comment .. => .comment
  | blank => .blank
  | malformed .. => .malformed

/-- The node with its diagnostic, if it has one, moved by `bytes` and `lines`. -/
def shift (node : Node) (bytes lines : Int) : Node :=
  match node with
  | malformed diagnostic text => malformed (diagnostic.shift bytes lines) text
  | other => other

end Node

/-- One line of a script. -/
structure Statement where
  /-- The whole line, terminator included. -/
  span : Span
  /-- The tokens read from the line, in order. -/
  tokens : List Token
  /-- The meaning of the line. -/
  node : Node
  deriving DecidableEq, Repr, Inhabited

namespace Statement

/-- The kind of a statement. -/
def kind (statement : Statement) : StatementKind := statement.node.kind

/-- The diagnostic of a malformed line. -/
def diagnostic? (statement : Statement) : Option Diagnostic :=
  match statement.node with
  | .malformed diagnostic _ => some diagnostic
  | _ => none

/-- The token that covers byte `offset`. -/
def tokenAt? (statement : Statement) (offset : Nat) : Option Token :=
  statement.tokens.find? fun token => token.span.contains offset

/-- The statement with every location moved by `bytes` and `lines`. -/
def shift (statement : Statement) (bytes lines : Int) : Statement :=
  ⟨statement.span.shift bytes lines,
    statement.tokens.map fun token => token.shift bytes lines,
    statement.node.shift bytes lines⟩

end Statement

end RcScript
