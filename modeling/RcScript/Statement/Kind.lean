/-!
# Kinds of statements

The kind of a statement, for queries and for messages.
-/

namespace RcScript

/-- What a line of a script is. -/
inductive StatementKind where
  | aliasDef
  | autocmd
  | autocontain
  | binding
  | unbinding
  | commandDef
  | exCommand
  | quickmark
  | setting
  | comment
  | blank
  | malformed
  deriving DecidableEq, Repr, Inhabited

namespace StatementKind

/-- Every kind. -/
def all : List StatementKind :=
  [aliasDef, autocmd, autocontain, binding, unbinding, commandDef, exCommand, quickmark,
    setting, comment, blank, malformed]

/-- The wording of a kind in messages. -/
def label : StatementKind → String
  | aliasDef => "alias"
  | autocmd => "autocmd"
  | autocontain => "autocontain"
  | binding => "bind"
  | unbinding => "unbind"
  | commandDef => "command"
  | exCommand => "ex-command"
  | quickmark => "quickmark"
  | setting => "set"
  | comment => "comment"
  | blank => "blank line"
  | malformed => "error"

/-- The name of a kind in structured output. -/
def tag : StatementKind → String
  | aliasDef => "alias"
  | autocmd => "autocmd"
  | autocontain => "autocontain"
  | binding => "binding"
  | unbinding => "unbinding"
  | commandDef => "command_def"
  | exCommand => "ex_command"
  | quickmark => "quickmark"
  | setting => "setting"
  | comment => "comment"
  | blank => "blank"
  | malformed => "error"

end StatementKind

end RcScript
