import RcScript.Json
import RcScript.Program

/-!
# Structured form of a program

Every part of a program has a structured form. A node is an object with its kind
first; other types with alternatives are objects whose one field names the
alternative; an absent option is null. Nothing is left out, so the form
determines the program.
-/

namespace RcScript

open Json

namespace Span

/-- The structured form of a span. -/
def toJson (span : Span) : Json :=
  object [("start", number span.start), ("end", number span.stop), ("line", number span.line),
    ("column", number span.column)]

end Span

namespace Token

/-- The structured form of a token. -/
def toJson (token : Token) : Json :=
  object
    [("kind", Json.text token.kind.name), ("text", Json.text token.text),
      ("span", token.span.toJson)]

end Token

namespace Key

/-- The structured form of a key. -/
def toJson : Key → Json
  | single key => tagged "single" (text (String.ofList [key]))
  | compound modifier key =>
    tagged "compound" (object
      [("modifier", text (String.ofList [modifier])), ("key", text (String.ofList [key]))])

end Key

namespace ExCommand

/-- The fields of the structured form of a command. -/
def jsonFields (command : ExCommand) : List (String × Json) :=
  [("name", text command.name), ("args", ofOption text command.args)]

/-- The structured form of a command. -/
def toJson (command : ExCommand) : Json := object command.jsonFields

end ExCommand

namespace Action

/-- The structured form of an action. -/
def toJson : Action → Json
  | exCommand command => tagged "ex_command" command.toJson
  | aliasName name => tagged "alias" (text name)

end Action

namespace ContainFlag

/-- The name of a flag in structured output. -/
def tag : ContainFlag → String
  | sane => "sane"
  | url => "url"

end ContainFlag

namespace SettingValue

/-- The structured form of a setting's value. -/
def toJson : SettingValue → Json
  | word value => tagged "word" (Json.text value)
  | number value => tagged "number" (Json.text value)

end SettingValue

namespace Cause

/-- The structured form of a cause. -/
def toJson : Cause → Json
  | unrecognized found =>
    tagged "unrecognized_leading_token" (object [("found", text found)])
  | incomplete statement expected found =>
    tagged "statement_incomplete" (object
      [("statement", text statement.tag), ("expected", text expected.tag),
        ("found", ofOption text found)])
  | trailing statement found =>
    tagged "trailing_input" (object [("statement", text statement.tag), ("found", text found)])

end Cause

namespace Diagnostic

/-- The structured form of a diagnostic. -/
def toJson (diagnostic : Diagnostic) : Json :=
  object [("kind", diagnostic.cause.toJson), ("span", diagnostic.span.toJson),
    ("fallback", ofOption Token.toJson diagnostic.fallback)]

end Diagnostic

namespace Node

/-- The structured form of an optional mode. -/
def modeJson (mode : Option Mode) : Json := ofOption (fun mode => text mode.name) mode

/-- The fields of a node's structured form after its kind. -/
def jsonFields : Node → List (String × Json)
  | aliasDef name expansion =>
    [("name", text name), ("expansion", array (expansion.map text))]
  | autocmd event pattern action =>
    [("event", text event.name), ("pattern", text pattern), ("action", action.toJson)]
  | autocontain flag pattern container =>
    [("flag", text flag.tag), ("pattern", text pattern), ("container", text container)]
  | binding mode key command =>
    [("mode", modeJson mode), ("key", key.toJson), ("excmd", command.toJson)]
  | unbinding mode key => [("mode", modeJson mode), ("key", key.toJson)]
  | commandDef name command => [("name", text name), ("excmd", command.toJson)]
  | exCommand command => command.jsonFields
  | quickmark key url => [("key", text (String.ofList [key])), ("url", text url)]
  | setting name values =>
    [("name", text name), ("values", array (values.map SettingValue.toJson))]
  | comment content => [("text", text content)]
  | blank => []
  | malformed diagnostic content =>
    [("error", diagnostic.toJson), ("text", text content)]

/-- The structured form of a node. -/
def toJson (node : Node) : Json := object (("kind", text node.kind.tag) :: node.jsonFields)

end Node

namespace Statement

/-- The structured form of a statement. -/
def toJson (statement : Statement) : Json :=
  object [("span", statement.span.toJson), ("tokens", array (statement.tokens.map Token.toJson)),
    ("node", statement.node.toJson)]

end Statement

namespace Program

/-- The structured form of a program. -/
def toJson (program : Program) : Json :=
  object [("statements", array (program.statements.map Statement.toJson))]

end Program

end RcScript
