import RcScript.Cursor
import RcScript.Statement

/-!
# The grammar of a line

Every line is read on its own, by the grammar of its keyword or as a command.
Reading keeps the tokens read so far on every path, so a malformed line still
accounts for the tokens before its fault. A request that finds nothing leaves
the cursor behind the last token, so the text that a fault reports is what
follows that token.
-/

namespace RcScript

open Text

/-- Where a grammar fails. -/
inductive Fault where
  /-- A required part is missing. -/
  | missing (expected : Expected)
  /-- The statement is complete and text is left. -/
  | trailing
  deriving DecidableEq, Repr

/-- How far a line has been read. -/
structure Progress where
  /-- Where reading stands. -/
  cursor : Cursor
  /-- The tokens read so far, last first. -/
  taken : List Token
  deriving DecidableEq, Repr

namespace Progress

/-- The tokens read so far, in order. -/
def tokens (progress : Progress) : List Token := progress.taken.reverse

/-- Nothing read of a line's content. -/
def start (origin line : Nat) (content : List Char) : Progress :=
  ⟨Cursor.atStart origin line content, []⟩

/-- Take the token that a request finds. -/
def accept (progress : Progress) (request : Request) : Option (Token × Progress) :=
  match progress.cursor.answer request with
  | (some token, cursor) => some (token, ⟨cursor, token :: progress.taken⟩)
  | (none, _) => none

/-- Take tokens as long as a request finds one, at most `limit` of them. -/
def acceptUpTo (request : Request) : Nat → Progress → List Token × Progress
  | 0, progress => ([], progress)
  | limit + 1, progress =>
    match progress.accept request with
    | none => ([], progress)
    | some (token, next) =>
      let later := acceptUpTo request limit next
      (token :: later.1, later.2)

/-- Take tokens as long as a request finds one. A token takes a character at
least, so there are no more of them than characters. -/
def acceptAll (request : Request) (progress : Progress) : List Token × Progress :=
  acceptUpTo request progress.cursor.rest.length progress

end Progress

/-- A part of a grammar: it reads on and gives a value or a fault. -/
def Reading (α : Type) : Type := Progress → Except Fault α × Progress

instance : Monad Reading where
  pure value := fun progress => (.ok value, progress)
  bind reading next := fun progress =>
    match reading progress with
    | (.ok value, later) => next value later
    | (.error fault, later) => (.error fault, later)

namespace Reading

/-- Take the token that a request finds, if it finds one. -/
def optional (request : Request) : Reading (Option Token) := fun progress =>
  match progress.accept request with
  | some (token, later) => (.ok (some token), later)
  | none => (.ok none, progress)

/-- Take tokens as long as a request finds them. -/
def many (request : Request) : Reading (List Token) := fun progress =>
  let found := progress.acceptAll request
  (.ok found.1, found.2)

/-- Stop for want of `expected`. -/
def missing (expected : Expected) : Reading α := fun progress =>
  (.error (.missing expected), progress)

/-- Go on with a value, or stop for want of `expected`. -/
def require (expected : Expected) : Option α → Reading α
  | some value => pure value
  | none => missing expected

/-- Take the token that a request finds, and stop if it finds none. -/
def need (expected : Expected) (request : Request) : Reading String := do
  return (← require expected (← optional request)).text

/-- Take a token of one pattern that stands alone. -/
def word (expected : Expected) (pattern : Pattern) : Reading String :=
  need expected (.wholeWord [pattern])

/-- Stop if more than blanks is left. -/
def finish : Reading Unit := fun progress =>
  if progress.cursor.atEnd then (.ok (), progress) else (.error .trailing, progress)

end Reading

/-- The keywords that open a statement. -/
inductive Keyword where
  | aliasDef
  | autocmd
  | autocontain
  | bind
  | unbind
  | command
  | quickmark
  | set
  deriving DecidableEq, Repr, Inhabited

namespace Keyword

/-- Every keyword, in the order in which they are tried. -/
def all : List Keyword :=
  [aliasDef, autocmd, autocontain, bind, unbind, command, quickmark, set]

/-- The keyword as written. -/
def literal : Keyword → String
  | aliasDef => "alias"
  | autocmd => "autocmd"
  | autocontain => "autocontain"
  | bind => "bind"
  | unbind => "unbind"
  | command => "command"
  | quickmark => "quickmark"
  | set => "set"

/-- The kind of the statements that a keyword opens. -/
def statementKind : Keyword → StatementKind
  | aliasDef => .aliasDef
  | autocmd => .autocmd
  | autocontain => .autocontain
  | bind => .binding
  | unbind => .unbinding
  | command => .commandDef
  | quickmark => .quickmark
  | set => .setting

end Keyword

namespace Grammar

open Reading

/-- A command name and the rest of the line as its arguments, less white space
at the end. -/
def exCommand : Reading ExCommand := do
  let name ← need .exCommand .commandName
  let args ← optional .remainder
  return ⟨name, args.map fun token => String.ofList (trimEnd isWhiteSpace token.text.toList)⟩

/-- An optional mode, whose name stands directly after its flag. -/
def mode : Reading (Option Mode) := do
  match ← optional (.flag "--mode=") with
  | none => return none
  | some _ =>
    let name ← need .mode .modeName
    return some (← require .mode (Mode.ofName? name))

/-- A key. -/
def key : Reading Key := do
  let text ← need .key (.wholeWord [.compoundKey, .singleKey])
  require .key (Key.ofText? text)

/-- The new name and the words that it stands for, at least one. -/
def aliasDef : Reading Node := do
  let name ← word .identifier .identifier
  let first ← word .identifier .identifier
  let more ← many (.wholeWord [.identifier])
  return .aliasDef name (first :: more.map Token.text)

/-- What a command given to an `autocmd` is: a bare name that is not listed
stands for an alias. -/
def actionOf (command : ExCommand) : Action :=
  if command.args.isNone && !isKnownCommand command.name then .aliasName command.name
  else .exCommand command

/-- An event, a domain and what to run. -/
def autocmd : Reading Node := do
  let name ← need .event .eventName
  let event ← require .event (Event.ofName? name)
  let pattern ← word .domain .domain
  let command ← exCommand
  return .autocmd event pattern (actionOf command)

/-- The flag of a container rule with the pattern of its kind. -/
def containPattern : Reading (ContainFlag × String) := do
  if (← optional (.flag ContainFlag.sane.text)).isSome then
    return (.sane, ← word .domain .domain)
  else if (← optional (.flag ContainFlag.url.text)).isSome then
    return (.url, ← word .url .url)
  else missing .containFlag

/-- A flag with its pattern, and a container. -/
def autocontain : Reading Node := do
  let (flag, pattern) ← containPattern
  let container ← word .identifier .identifier
  return .autocontain flag pattern container

/-- An optional mode, a key and a command. -/
def binding : Reading Node := do
  return .binding (← mode) (← key) (← exCommand)

/-- An optional mode and a key. -/
def unbinding : Reading Node := do
  return .unbinding (← mode) (← key)

/-- The new name and the command that it runs. -/
def commandDef : Reading Node := do
  return .commandDef (← word .identifier .identifier) (← exCommand)

/-- A letter and a URL. -/
def quickmark : Reading Node := do
  let text ← need .singleKey (.wholeWord [.singleKey])
  let key ← require .singleKey text.toList.head?
  return .quickmark key (← word .url .url)

/-- The value that a token of a setting denotes. -/
def settingValue (token : Token) : SettingValue :=
  if token.kind == .number then .number token.text else .word token.text

/-- A name and any number of values. -/
def setting : Reading Node := do
  let name ← word .identifier .identifier
  let values ← many (.wholeWord [.identifier, .number])
  return .setting name (values.map settingValue)

/-- The grammar of what follows a keyword. -/
def ofKeyword : Keyword → Reading Node
  | .aliasDef => aliasDef
  | .autocmd => autocmd
  | .autocontain => autocontain
  | .bind => binding
  | .unbind => unbinding
  | .command => commandDef
  | .quickmark => quickmark
  | .set => setting

/-- What follows a keyword, up to the end of the line. -/
def statement (keyword : Keyword) : Reading Node := do
  let node ← ofKeyword keyword
  finish
  return node

end Grammar

end RcScript
