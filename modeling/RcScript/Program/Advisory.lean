import RcScript.Program

/-!
# Advisories

An advisory points at a name that is neither listed nor defined on an earlier
line. Definitions come from `alias` and `command` and take effect after their
own line. Advisories never make a line malformed.
-/

namespace RcScript

/-- What an advisory is about. -/
inductive Concern where
  /-- A command that is neither listed nor defined earlier. -/
  | unknownCommand (name : String)
  /-- A setting that is not listed. -/
  | unknownSetting (name : String)
  deriving DecidableEq, Repr, Inhabited

/-- The wording of a concern. -/
def Concern.message : Concern → String
  | unknownCommand name => "unknown ex-command '" ++ name ++ "'"
  | unknownSetting name => "unknown setting '" ++ name ++ "'"

/-- A note about a statement. -/
structure Advisory where
  /-- What the note is about. -/
  concern : Concern
  /-- The name that the note points at. -/
  span : Span
  deriving DecidableEq, Repr, Inhabited

/-- The wording of an advisory. -/
def Advisory.message (advisory : Advisory) : String :=
  locatedMessage advisory.concern.message advisory.span

namespace Action

/-- The name that an action runs. -/
def target : Action → String
  | exCommand command => command.name
  | aliasName name => name

end Action

namespace Node

/-- The command name that a node uses. -/
def usedCommand? : Node → Option String
  | aliasDef _ expansion => expansion.head?
  | autocmd _ _ action => some action.target
  | binding _ _ command => some command.name
  | commandDef _ command => some command.name
  | exCommand command => some command.name
  | _ => none

/-- The command name that a node defines. -/
def definedCommand? : Node → Option String
  | aliasDef name _ => some name
  | commandDef name _ => some name
  | _ => none

/-- What there is to note about a node after the given definitions. -/
def concern? (defined : List String) (node : Node) : Option Concern :=
  match node with
  | setting name _ => if isKnownSetting name then none else some (.unknownSetting name)
  | other =>
    match other.usedCommand? with
    | some name =>
      if isKnownCommand name || defined.contains name then none else some (.unknownCommand name)
    | none => none

end Node

namespace Concern

/-- The name that a concern is about. -/
def name : Concern → String
  | unknownCommand name => name
  | unknownSetting name => name

end Concern

namespace Statement

/-- The span of the last identifier spelled `name`, or of the whole line. -/
def nameSpan (statement : Statement) (name : String) : Span :=
  let named := statement.tokens.filter fun token =>
    token.kind == .identifier && token.text == name
  (named.getLast?.map Token.span).getD statement.span

/-- The advisory of a statement after the given definitions, if there is one. -/
def advisory? (defined : List String) (statement : Statement) : Option Advisory :=
  (statement.node.concern? defined).map fun concern =>
    ⟨concern, statement.nameSpan concern.name⟩

end Statement

/-- The advisories of statements after the given definitions. -/
def advise (defined : List String) : List Statement → List Advisory
  | [] => []
  | statement :: later =>
    (statement.advisory? defined).toList ++
      advise (statement.node.definedCommand?.toList ++ defined) later

/-- The advisories of a program, in source order. -/
def Program.lint (program : Program) : List Advisory := advise [] program.statements

end RcScript
