import RcScript.Proofs.CheckedScanner

/-!
# Reading a text by byte offsets

The reader over a scanner. A state holds the scanner, the tokens read so far and the
kind of the statement, which its diagnostics name. A diagnostic is made where reading
stops, from slices of the line that are taken there. Lines are cut off the text at the
offset of the next line feed. A loop over the words of a line is refused at a word that
brings it no nearer to the end of the line, so that a result also says that it ends.
-/

namespace RcScript

open Text

namespace Scanner

/-- Number of bytes that are left of the line. -/
def left (scanner : Scanner) : Nat := scanner.stop - scanner.position

/-- The next word, if anything but blanks is left. -/
def nextWord? (scanner : Scanner) : Checked (Option String) := do
  let (rest, _) ← scanner.answer .remainder
  return rest.map fun token => String.ofList (firstWord token.text.toList)

/-- Length in bytes of the token that a request finds, or zero. -/
def foundLength (request : Request) (scanner : Scanner) : Checked Nat := do
  match (← scanner.answer request).1 with
  | some token => minus? token.span.stop token.span.start
  | none => return 0

/-- A diagnostic of the line, which points behind its indentation. -/
def diagnostic (cause : Cause) (fallback : Option Token) (scanner : Scanner) :
    Checked Diagnostic := do
  let content ← slice? scanner.lineStart scanner.stop scanner.text
  let body :=
    if scanner.lineStart = 0 then content.dropWhile (· == byteOrderMark) else content
  let indent ← minus? (utf8Length content) (utf8Length (body.dropWhile isBlank))
  return ⟨cause, ⟨scanner.lineStart + indent, scanner.stop, scanner.line, indent + 1⟩, fallback⟩

end Scanner

/-- How far a line has been read by offsets. -/
structure LineState where
  /-- Where reading stands. -/
  scanner : Scanner
  /-- The tokens read so far, in order. -/
  tokens : List Token
  /-- The kind of statement that is read. -/
  kind : StatementKind

/-- A part of a grammar: it reads on and gives a value or a diagnostic, unless an access
to the text is refused. -/
def Scanning (α : Type) : Type := LineState → Checked (Except Diagnostic α × LineState)

instance : Monad Scanning where
  pure value := fun state => some (.ok value, state)
  bind scanning next := fun state => do
    match ← scanning state with
    | (.ok value, later) => next value later
    | (.error diagnostic, later) => return (.error diagnostic, later)

namespace Scanning

/-- Stop with a diagnostic. -/
def fail (cause : Cause) (fallback : Option Token) : Scanning α := fun state => do
  return (.error (← state.scanner.diagnostic cause fallback), state)

/-- Stop for want of `expected`. -/
def missing (expected : Expected) : Scanning α := fun state => do
  let found ← state.scanner.nextWord?
  let (fallback, _) ← state.scanner.answer .remainder
  fail (.incomplete state.kind expected found) fallback state

/-- Go on with a value, or stop for want of `expected`. -/
def require (expected : Expected) : Option α → Scanning α
  | some value => pure value
  | none => missing expected

/-- Find the token that is asked for and move behind it. -/
def find (request : Request) : Scanning (Option Token) := fun state => do
  let (found, scanner) ← state.scanner.answer request
  return (.ok found, { state with scanner := scanner })

/-- Take a token that was found. -/
def take (token : Token) : Scanning Unit := fun state =>
  return (.ok (), { state with tokens := state.tokens ++ [token] })

/-- Take the token that a request finds, if it finds one. -/
def optional (request : Request) : Scanning (Option Token) := do
  match ← find request with
  | none => return none
  | some token =>
    take token
    return some token

/-- Take tokens as long as a request finds one, each of which must leave less of the line. -/
def takeAll (request : Request) (state : LineState) : Checked (List Token × LineState) := do
  match ← state.scanner.answer request with
  | (none, scanner) => return ([], { state with scanner := scanner })
  | (some token, scanner) =>
    if scanner.left < state.scanner.left then
      let (later, last) ← takeAll request ⟨scanner, state.tokens ++ [token], state.kind⟩
      return (token :: later, last)
    else none
termination_by state.scanner.left

/-- Take tokens as long as a request finds them. -/
def many (request : Request) : Scanning (List Token) := fun state => do
  let (found, later) ← takeAll request state
  return (.ok found, later)

/-- Take the token that a request finds, and stop if it finds none. -/
def need (expected : Expected) (request : Request) : Scanning String := do
  return (← require expected (← optional request)).text

/-- Take a token of one pattern that stands alone. -/
def word (expected : Expected) (pattern : Pattern) : Scanning String :=
  need expected (.wholeWord [pattern])

/-- Stop if more than blanks is left. -/
def finish : Scanning Unit := fun state => do
  let (atEnd, scanner) ← state.scanner.atEnd
  if atEnd then return (.ok (), { state with scanner := scanner })
  else
    let found ← slice? scanner.position scanner.stop scanner.text
    fail (.trailing state.kind (String.ofList (trimEnd isWhiteSpace found))) none
      { state with scanner := scanner }

/-- A command name and the rest of the line as its arguments. -/
def exCommand : Scanning ExCommand := do
  let name ← need .exCommand .commandName
  let args ← optional .remainder
  return ⟨name, args.map fun token => String.ofList (trimEnd isWhiteSpace token.text.toList)⟩

/-- An optional mode, whose name stands directly after its flag. -/
def mode : Scanning (Option Mode) := do
  match ← optional (.flag "--mode=") with
  | none => return none
  | some _ =>
    let name ← need .mode .modeName
    return some (← require .mode (Mode.ofName? name))

/-- A key. Its token is taken only when its text denotes one. -/
def key : Scanning Key := do
  let token ← require .key (← find (.wholeWord [.compoundKey, .singleKey]))
  let key ← require .key (Key.ofText? token.text)
  take token
  return key

/-- The new name and the words that it stands for, at least one. -/
def aliasDef : Scanning Node := do
  let name ← word .identifier .identifier
  let first ← word .identifier .identifier
  let more ← many (.wholeWord [.identifier])
  return .aliasDef name (first :: more.map Token.text)

/-- An event, a domain and what to run. -/
def autocmd : Scanning Node := do
  let name ← need .event .eventName
  let event ← require .event (Event.ofName? name)
  let pattern ← word .domain .domain
  let command ← exCommand
  return .autocmd event pattern (Grammar.actionOf command)

/-- The flag of a container rule with the pattern of its kind. -/
def containPattern : Scanning (ContainFlag × String) := do
  if (← optional (.flag ContainFlag.sane.text)).isSome then
    return (.sane, ← word .domain .domain)
  else if (← optional (.flag ContainFlag.url.text)).isSome then
    return (.url, ← word .url .url)
  else missing .containFlag

/-- A flag with its pattern, and a container. -/
def autocontain : Scanning Node := do
  let (flag, pattern) ← containPattern
  let container ← word .identifier .identifier
  return .autocontain flag pattern container

/-- An optional mode, a key and a command. -/
def binding : Scanning Node := do
  return .binding (← mode) (← key) (← exCommand)

/-- An optional mode and a key. -/
def unbinding : Scanning Node := do
  return .unbinding (← mode) (← key)

/-- The new name and the command that it runs. -/
def commandDef : Scanning Node := do
  return .commandDef (← word .identifier .identifier) (← exCommand)

/-- A letter and a URL. -/
def quickmark : Scanning Node := do
  let text ← need .singleKey (.wholeWord [.singleKey])
  let key ← require .singleKey text.toList.head?
  return .quickmark key (← word .url .url)

/-- A name and any number of values. -/
def setting : Scanning Node := do
  let name ← word .identifier .identifier
  let values ← many (.wholeWord [.identifier, .number])
  return .setting name (values.map Grammar.settingValue)

/-- The grammar of what follows a keyword. -/
def ofKeyword : Keyword → Scanning Node
  | .aliasDef => aliasDef
  | .autocmd => autocmd
  | .autocontain => autocontain
  | .bind => binding
  | .unbind => unbinding
  | .command => commandDef
  | .quickmark => quickmark
  | .set => setting

/-- What follows a keyword, up to the end of the line. -/
def clause (keyword : Keyword) : Scanning Node := do
  let node ← ofKeyword keyword
  finish
  return node

/-- Go on with a statement of the given kind. -/
def enter (kind : StatementKind) : Scanning Unit := fun state =>
  return (.ok (), { state with kind := kind })

/-- The rest of the line behind a quote mark as a comment. -/
def comment (quote : Token) : Scanning Node := fun state => do
  let body ← slice? quote.span.stop state.scanner.stop state.scanner.text
  let taken : Scanning Node := do
    take quote
    let _ ← optional .remainder
    enter .comment
    return .comment (String.ofList body)
  taken state

/-- Whether the line opens with a command name that no structural token exceeds. -/
def opensWithCommand : Scanning Bool := fun state => do
  let structural ← state.scanner.foundLength (.structural Pattern.priority)
  let (name, _) ← state.scanner.answer .commandName
  match name with
  | none => return (.ok false, state)
  | some name =>
    return (.ok (decide (structural ≤ (← minus? name.span.stop name.span.start))), state)

/-- Stop at a word that opens no statement. -/
def unrecognized : Scanning α := fun state => do
  let found ← state.scanner.nextWord?
  fail (.unrecognized (found.getD "")) none state

/-- A line that opens with neither quote nor keyword. -/
def command : Scanning Node := do
  enter .exCommand
  if ← opensWithCommand then return .exCommand (← exCommand) else unrecognized

/-- A line that opens with one of the given keywords, or with none. -/
def clauseOf : List Keyword → Scanning Node
  | [] => command
  | keyword :: later => do
    match ← optional (.keyword keyword.literal) with
    | none => clauseOf later
    | some _ =>
      enter keyword.statementKind
      clause keyword

/-- A line that is not blank. -/
def statement : Scanning Node := do
  match ← find .quoteMark with
  | some quote => comment quote
  | none => clauseOf Keyword.all

end Scanning

namespace Scanner

/-- The tokens and the node of the line that a scanner stands at the start of. -/
def readLine (scanner : Scanner) : Checked (List Token × Node) := do
  let (atEnd, visible) ← scanner.atEnd
  if atEnd then return ([], .blank)
  else
    match ← Scanning.statement ⟨visible, [], .exCommand⟩ with
    | (.ok node, later) => return (later.tokens, node)
    | (.error diagnostic, later) =>
      let content ← slice? scanner.lineStart scanner.stop scanner.text
      return (later.tokens, .malformed diagnostic (String.ofList content))

end Scanner

namespace Checked

/-- Offset of the end of the content of a line, where byte `feed` is its line feed or the
end of the text. -/
def contentEnd (text : List Char) (start feed : Nat) : Checked Nat :=
  if start < feed then do
    let last ← minus? feed 1
    return if Char.ofUInt8 (← byteAt? last text) = '\r' then last else feed
  else return feed

/-- The statement of the line between bytes `start` and `next` of a text, where byte `feed`
is its line feed or the end of the text. -/
def readStatement (text : List Char) (start feed next number : Nat) : Checked Statement := do
  let stop ← contentEnd text start feed
  let (tokens, node) ← (Scanner.mk text start stop number start).readLine
  return ⟨⟨start, next, number, 1⟩, tokens, node⟩

/-- The statements of bytes `start` to `stop` of a text, of which the first line has the
given number. -/
def readLines (text : List Char) (start stop number : Nat) : Checked (List Statement) :=
  if start < stop then do
    match offsetOf? '\n' (← slice? start stop text) with
    | some offset =>
      let statement ← readStatement text start (start + offset) (start + offset + 1) number
      return statement :: (← readLines text (start + offset + 1) stop (number + 1))
    | none => return [← readStatement text start stop stop number]
  else return []
termination_by stop - start

end Checked

/-- The program of a text, read by byte offsets. -/
def Program.checkedParse (text : String) : Checked Program := do
  return ⟨← Checked.readLines text.toList 0 (utf8Length text.toList) 1⟩

end RcScript
