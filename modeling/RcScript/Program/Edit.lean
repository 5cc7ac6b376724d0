import RcScript.Program

/-!
# Reading again after an edit

A statement is a whole line, so lines that an edit does not touch keep their
statements. Those before the edit are kept as they are and those after it are
moved; only the lines between are read again. The first line is never moved,
since a byte-order mark is skipped at offset zero alone. The result is meant to
equal a full reading whenever the change describes how the texts differ.
-/

namespace RcScript

open Text

/-- Bytes `start` to `stop` of an old text replaced by `inserted` bytes. -/
structure Change where
  /-- First byte replaced. -/
  start : Nat
  /-- End of the bytes replaced, in the old text. -/
  stop : Nat
  /-- Number of bytes put in their place. -/
  inserted : Nat
  deriving DecidableEq, Repr, Inhabited

namespace Change

/-- End of the new bytes, in the new text. -/
def newStop (change : Change) : Nat := change.start + change.inserted

/-- How far the text behind the change moves. -/
def delta (change : Change) : Int := change.inserted - (change.stop - change.start : Nat)

end Change

/-- Bytes `start` to `stop` of a text to be replaced by `insert`. -/
structure Edit where
  /-- First byte replaced. -/
  start : Nat
  /-- End of the bytes replaced. -/
  stop : Nat
  /-- The text put in their place. -/
  insert : String
  deriving DecidableEq, Repr, Inhabited

namespace Edit

/-- Whether both ends are boundaries of a text, in order. -/
def fits (edit : Edit) (text : String) : Bool :=
  edit.start ≤ edit.stop && isBoundary edit.start text.toList && isBoundary edit.stop text.toList

/-- The edited text. -/
def apply (edit : Edit) (text : String) : String :=
  String.ofList (takeBytes edit.start text.toList ++ edit.insert.toList ++
    dropBytes edit.stop text.toList)

/-- The change that an edit makes. -/
def change (edit : Edit) : Change := ⟨edit.start, edit.stop, utf8Length edit.insert.toList⟩

end Edit

/-- The outcome of reading again. -/
structure Reparse where
  /-- The program of the new text. -/
  program : Program
  /-- What there is to report about the lines of the new text. -/
  diagnostics : List Diagnostic
  /-- Number of statements kept from the old program. -/
  reused : Nat
  /-- Number of statements read from the new text. -/
  reparsed : Nat
  deriving DecidableEq, Repr, Inhabited

namespace Program

/-- Whether the byte before `offset` of a text is a line feed. -/
def followsLineFeed (text : List Char) (offset : Nat) : Bool :=
  0 < offset && charAt? (offset - 1) text == some '\n'

/-- Whether a kept statement still ends its line in the new text. -/
def endsLine (text : List Char) (statement : Statement) : Bool :=
  !statement.span.isEmpty && followsLineFeed text statement.span.stop

/-- Number of statements before a change that are kept as they are. The last of
them must still end its line. -/
def keptBefore (program : Program) (change : Change) (text : List Char) : Nat :=
  let ended := program.endedBy change.start
  if (program.statements.take ended).getLast?.any fun last => !endsLine text last then ended - 1
  else ended

/-- Whether a statement lies behind a change and opens a line where it moves to. -/
def movesWhole (change : Change) (text : List Char) (statement : Statement) : Bool :=
  let start : Int := statement.span.start + change.delta
  change.stop ≤ statement.span.start && 0 < statement.span.start && change.newStop ≤ start &&
    0 < start && followsLineFeed text start.toNat

/-- Read the new text that a change of the program's text leads to. -/
def reparse (old : Program) (change : Change) (newText : String) : Reparse :=
  let text := newText.toList
  let before := old.statements.take (old.keptBefore change text)
  let after := (old.statements.drop before.length).dropWhile fun statement =>
    !movesWhole change text statement
  let first := ((before.getLast?.map fun last => last.span.stop).getD 0)
  let last := ((after.head?.map fun next => (next.span.start + change.delta).toNat).getD
    (utf8Length text))
  let number := (before.getLast?.map fun last => last.span.line + 1).getD 1
  let middle := Reader.readLines first number (lines (sliceBytes first last text))
  let moved := match after.head? with
    | none => []
    | some next =>
      let down : Int := (number + middle.length : Nat) - (next.span.line : Int)
      after.map fun statement => statement.shift change.delta down
  let program : Program := ⟨before ++ middle ++ moved⟩
  ⟨program, program.diagnostics, before.length + after.length, middle.length⟩

end Program

end RcScript
