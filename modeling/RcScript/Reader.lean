import RcScript.Grammar
import RcScript.Text.Line

/-!
# Reading lines

A line with nothing but blanks is blank, one that opens with a quote mark is a
comment, one that opens with a keyword must follow that keyword's grammar, and
any other must open with a command name. What fails becomes a malformed node
with the whole content and a diagnostic. The outcome depends on the content, the
line number and the offset alone; the offset matters only for locations and for
the byte-order mark at offset zero.
-/

namespace RcScript

open Text

/-- A line's content and its place in the text. -/
structure SourceLine where
  /-- Byte offset of the start of the line. -/
  origin : Nat
  /-- Number of the line. -/
  number : Nat
  /-- The characters before the terminator. -/
  content : List Char
  deriving DecidableEq, Repr

namespace SourceLine

/-- Nothing read of the line. -/
def progress (line : SourceLine) : Progress :=
  Progress.start line.origin line.number line.content

/-- The content without the byte-order marks that open a text. -/
def body (line : SourceLine) : List Char :=
  if line.origin == 0 then line.content.dropWhile (· == byteOrderMark) else line.content

/-- The content from its first character that is neither a blank nor a leading
byte-order mark. -/
def visible (line : SourceLine) : List Char := line.body.dropWhile isBlank

/-- Number of bytes before the visible part. -/
def indent (line : SourceLine) : Nat := utf8Length line.content - utf8Length line.visible

/-- Where a diagnostic of the line points. -/
def errorSpan (line : SourceLine) : Span :=
  ⟨line.origin + line.indent, line.origin + utf8Length line.content, line.number,
    line.indent + 1⟩

end SourceLine

namespace Cursor

/-- What is left at a cursor, less leading blanks. -/
def unread (cursor : Cursor) : List Char := cursor.skipBlanks.rest

/-- The next word at a cursor, if anything but blanks is left. -/
def nextWord? (cursor : Cursor) : Option String :=
  if cursor.unread.isEmpty then none else some (String.ofList (firstWord cursor.unread))

/-- What is left at a cursor as one token. -/
def remainder? (cursor : Cursor) : Option Token := (cursor.answer .remainder).1

end Cursor

namespace Reader

/-- The cause that a fault of a statement gives at the place of the fault. -/
def faultCause (kind : StatementKind) (fault : Fault) (cursor : Cursor) : Cause :=
  match fault with
  | .missing expected => .incomplete kind expected cursor.nextWord?
  | .trailing => .trailing kind (String.ofList (trimEnd isWhiteSpace cursor.unread))

/-- The rest of the line that a fault reports as one token. -/
def faultFallback (fault : Fault) (cursor : Cursor) : Option Token :=
  match fault with
  | .missing _ => cursor.remainder?
  | .trailing => none

/-- The node of a malformed line. -/
def malformed (line : SourceLine) (cause : Cause) (fallback : Option Token) : Node :=
  .malformed ⟨cause, line.errorSpan, fallback⟩ (String.ofList line.content)

/-- The tokens and the node of a statement of the given kind. -/
def conclude (line : SourceLine) (kind : StatementKind) (outcome : Except Fault Node × Progress) :
    List Token × Node :=
  match outcome with
  | (.ok node, progress) => (progress.tokens, node)
  | (.error fault, progress) =>
    (progress.tokens, malformed line (faultCause kind fault progress.cursor)
      (faultFallback fault progress.cursor))

/-- The tokens and the node of a comment, after its quote mark. -/
def comment (progress : Progress) : List Token × Node :=
  let text := String.ofList progress.cursor.rest
  match progress.accept .remainder with
  | some (_, later) => (later.tokens, .comment text)
  | none => (progress.tokens, .comment text)

/-- The keyword that opens the line, with the progress after it. -/
def keyword? (progress : Progress) : Option (Keyword × Progress) :=
  Keyword.all.findSome? fun keyword =>
    (progress.accept (.keyword keyword.literal)).map fun found => (keyword, found.2)

/-- Length in bytes of the token that a request finds, or zero. -/
def foundLength (cursor : Cursor) (request : Request) : Nat :=
  ((cursor.answer request).1.map fun token => token.span.length).getD 0

/-- Whether the line opens with a command name that no structural token exceeds. -/
def opensWithCommand (cursor : Cursor) : Bool :=
  (cursor.answer .commandName).1.any fun name =>
    foundLength cursor (.structural Pattern.priority) ≤ name.span.length

/-- The tokens and the node of a line that opens with neither quote nor keyword. -/
def command (line : SourceLine) (progress : Progress) : List Token × Node :=
  if opensWithCommand progress.cursor then
    conclude line .exCommand ((Node.exCommand <$> Grammar.exCommand) progress)
  else
    (progress.tokens,
      malformed line (.unrecognized (progress.cursor.nextWord?.getD "")) none)

/-- The tokens and the node of a line. -/
def readLine (line : SourceLine) : List Token × Node :=
  let progress := line.progress
  if progress.cursor.atEnd then (progress.tokens, .blank)
  else
    match progress.accept .quoteMark with
    | some (_, later) => comment later
    | none =>
      match keyword? progress with
      | some (keyword, later) =>
        conclude line keyword.statementKind (Grammar.statement keyword later)
      | none => command line progress

/-- The statement of the line at byte `origin` with number `number`. -/
def readStatement (origin number : Nat) (line : Line) : Statement :=
  let read := readLine ⟨origin, number, line.content⟩
  ⟨⟨origin, origin + utf8Length line.toList, number, 1⟩, read.1, read.2⟩

/-- The statements of lines of which the first starts at byte `origin` and has
number `number`. -/
def readLines (origin number : Nat) : List Line → List Statement
  | [] => []
  | line :: later =>
    readStatement origin number line ::
      readLines (origin + utf8Length line.toList) (number + 1) later

end Reader

end RcScript
