import RcScript.Statement.Kind
import RcScript.Token

/-!
# Diagnostics

A diagnostic says why a line is no statement. Its cause is one of three, its
location runs from the first character that is not skipped to the end of the
line's content, and where a token of a certain class was awaited it carries the
rest of the line as one token. Wording lives in the `message` functions alone.
-/

namespace RcScript

/-- What a grammar was waiting for. -/
inductive Expected where
  | identifier
  | number
  | event
  | domain
  | url
  | key
  | singleKey
  | mode
  | containFlag
  | exCommand
  deriving DecidableEq, Repr, Inhabited

namespace Expected

/-- The wording of an expectation in messages. -/
def label : Expected → String
  | identifier => "a name"
  | number => "a number"
  | event => "an autocmd event"
  | domain => "a domain pattern"
  | url => "a URL"
  | key => "a key"
  | singleKey => "a single-letter key"
  | mode => "a mode name directly after '--mode='"
  | containFlag => "'-s' or '-u'"
  | exCommand => "an ex-command"

/-- The name of an expectation in structured output. -/
def tag : Expected → String
  | identifier => "identifier"
  | number => "number"
  | event => "event"
  | domain => "domain"
  | url => "url"
  | key => "key"
  | singleKey => "single_key"
  | mode => "mode"
  | containFlag => "contain_flag"
  | exCommand => "ex_command"

end Expected

/-- Why a line is no statement. -/
inductive Cause where
  /-- The first word opens no statement and is no command name. -/
  | unrecognized (found : String)
  /-- A required part is missing; `found` is the word in its place. -/
  | incomplete (statement : StatementKind) (expected : Expected) (found : Option String)
  /-- The statement is complete and text is left on the line. -/
  | trailing (statement : StatementKind) (found : String)
  deriving DecidableEq, Repr, Inhabited

/-- The wording of a cause. -/
def Cause.message : Cause → String
  | unrecognized found => "unrecognized statement starting with '" ++ found ++ "'"
  | incomplete statement expected none =>
    "incomplete " ++ statement.label ++ " statement: expected " ++ expected.label
  | incomplete statement expected (some found) =>
    "incomplete " ++ statement.label ++ " statement: expected " ++ expected.label ++
      ", got '" ++ found ++ "'"
  | trailing statement found =>
    "unexpected '" ++ found ++ "' after " ++ statement.label ++ " statement"

/-- The wording of a message together with the place that it is about. -/
def locatedMessage (message : String) (span : Span) : String :=
  message ++ " at line " ++ toString span.line ++ ", column " ++ toString span.column

/-- The report of one malformed line. -/
structure Diagnostic where
  /-- Why the line is no statement. -/
  cause : Cause
  /-- The line from its first character that is not skipped. -/
  span : Span
  /-- The rest of the line as one token, where a part was missing. -/
  fallback : Option Token
  deriving DecidableEq, Repr, Inhabited

namespace Diagnostic

/-- The wording of a diagnostic. -/
def message (diagnostic : Diagnostic) : String :=
  locatedMessage diagnostic.cause.message diagnostic.span

/-- The diagnostic moved by `bytes` and `lines`. -/
def shift (diagnostic : Diagnostic) (bytes lines : Int) : Diagnostic :=
  { diagnostic with
    span := diagnostic.span.shift bytes lines
    fallback := diagnostic.fallback.map fun token => token.shift bytes lines }

end Diagnostic

end RcScript
