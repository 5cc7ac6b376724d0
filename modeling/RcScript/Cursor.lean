import RcScript.Token.Recogniser

/-!
# Reading a line piece by piece

A cursor splits the content of a line into what has been passed and what is
left, so that no request can lose or repeat text. The grammar says which tokens
may come next and asks for exactly those. Blanks are skipped before every
request but one: a mode name must stand directly at the cursor. A byte-order
mark is skipped with the blanks at offset zero and nowhere else.
-/

namespace RcScript

open Text

/-- A place within the content of one line. -/
structure Cursor where
  /-- Byte offset of the start of the line in the whole text. -/
  origin : Nat
  /-- Number of the line. -/
  line : Nat
  /-- The characters before the cursor, last first. -/
  passed : List Char
  /-- The characters after the cursor. -/
  rest : List Char
  /-- Number of bytes before the cursor. -/
  offset : Nat
  /-- The number of bytes is that of the characters. -/
  offset_eq : offset = utf8Length passed
  deriving DecidableEq, Repr

namespace Cursor

/-- The cursor at the start of a line's content. -/
def atStart (origin line : Nat) (content : List Char) : Cursor :=
  ⟨origin, line, [], content, 0, rfl⟩

/-- The cursor at the start of bytes `start` to `stop` of a text. -/
def ofText (text : String) (start stop line : Nat) : Cursor :=
  atStart start line (sliceBytes start stop text.toList)

/-- The characters before the cursor. -/
def before (cursor : Cursor) : List Char := cursor.passed.reverse

/-- Byte offset of the cursor in the whole text. -/
def position (cursor : Cursor) : Nat := cursor.origin + cursor.offset

/-- Byte offset of the end of the line's content. -/
def lineEnd (cursor : Cursor) : Nat := cursor.position + utf8Length cursor.rest

/-- The cursor moved past the next `count` characters. -/
def advance (cursor : Cursor) (count : Nat) : Cursor :=
  let text := cursor.rest.take count
  { cursor with
    passed := text.reverse ++ cursor.passed
    rest := cursor.rest.drop count
    offset := cursor.offset + utf8Length text
    offset_eq := by
      rw [utf8Length_append, utf8Length_reverse, cursor.offset_eq, Nat.add_comm] }

/-- The characters of the line, before and after the cursor. -/
def content (cursor : Cursor) : List Char := cursor.before ++ cursor.rest

/-- Moving on neither loses nor repeats a character. -/
theorem content_advance (cursor : Cursor) (count : Nat) :
    (cursor.advance count).content = cursor.content := by
  simp [content, before, advance]

/-- Number of characters at the cursor that separate tokens. -/
def blankCount (cursor : Cursor) : Nat :=
  if cursor.position == 0 && cursor.rest.head? == some byteOrderMark then
    1 + runLength isBlank cursor.rest.tail
  else runLength isBlank cursor.rest

/-- The cursor moved past blanks, and past a byte-order mark at offset zero. -/
def skipBlanks (cursor : Cursor) : Cursor := cursor.advance cursor.blankCount

/-- Whether nothing but blanks is left. -/
def atEnd (cursor : Cursor) : Bool := cursor.skipBlanks.rest.isEmpty

/-- Whether the cursor stands at a blank or at the end. -/
def atBoundary (cursor : Cursor) : Bool := endsWord 0 cursor.rest

/-- Whether only blanks were passed, after any byte-order marks. -/
def opensLine (cursor : Cursor) : Bool :=
  (cursor.before.dropWhile (· == byteOrderMark)).all isBlank

/-- The next characters of a lexeme as a token. -/
def token (cursor : Cursor) (lexeme : Lexeme) : Token :=
  let text := cursor.rest.take lexeme.count
  let start := cursor.position
  ⟨lexeme.kind, String.ofList text,
    ⟨start, start + utf8Length text, cursor.line, cursor.offset + 1⟩⟩

end Cursor

/-- What can be asked for at a cursor. -/
inductive Request where
  /-- A quote mark with only blanks before it on the line. -/
  | quoteMark
  /-- The given word, standing alone. -/
  | keyword (word : String)
  /-- The given flag. -/
  | flag (word : String)
  /-- A mode name directly at the cursor. -/
  | modeName
  /-- An event name. -/
  | eventName
  /-- A command name. -/
  | commandName
  /-- The longest match of the allowed patterns. -/
  | structural (allowed : List Pattern)
  /-- The longest match of the allowed patterns, standing alone. -/
  | wholeWord (allowed : List Pattern)
  /-- Everything that is left. -/
  | remainder
  /-- A structural token, or else everything that is left. -/
  | next (allowed : List Pattern)
  deriving DecidableEq, Repr

namespace Request

/-- Whether blanks are skipped before a request is answered. -/
def skipsBlanks : Request → Bool
  | modeName => false
  | _ => true

/-- How a request is answered at a cursor. -/
def recogniser (request : Request) (cursor : Cursor) : Recogniser :=
  match request with
  | quoteMark => if cursor.opensLine then Recogniser.quoteMark else fun _ => none
  | keyword word => Recogniser.keyword word
  | flag word => Recogniser.flag word
  | modeName => Recogniser.modeName
  | eventName => Recogniser.eventName
  | commandName => Recogniser.commandName
  | structural allowed => Recogniser.structural allowed
  | wholeWord allowed => Recogniser.wholeWord allowed
  | remainder => Recogniser.remainder
  | next allowed => (Recogniser.structural allowed).orElse Recogniser.remainder

end Request

namespace Cursor

/-- The lexeme that answers a request at the cursor itself. -/
def lexeme? (cursor : Cursor) (request : Request) : Option Lexeme :=
  request.recogniser cursor cursor.rest

/-- Answer a request. With a token the cursor moves to its end; without one it
has passed blanks at most. -/
def answer (cursor : Cursor) (request : Request) : Option Token × Cursor :=
  let here := if request.skipsBlanks then cursor.skipBlanks else cursor
  match here.lexeme? request with
  | some lexeme => (some (here.token lexeme), here.advance lexeme.count)
  | none => (none, here)

end Cursor

end RcScript
