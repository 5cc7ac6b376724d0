import RcScript.Reader
import RcScript.Search

/-!
# Programs

A program is the list of its statements, one for each line. Reading never fails:
a line that is no statement is kept as a malformed one. Queries look statements
up by offset, by kind and by whether they are malformed.
-/

namespace RcScript

open Text

/-- A script as a list of statements, one for each line. -/
structure Program where
  /-- The statements in source order. -/
  statements : List Statement
  deriving DecidableEq, Repr, Inhabited

namespace Program

/-- The program of a text. -/
def parse (text : String) : Program := ⟨Reader.readLines 0 1 (lines text.toList)⟩

/-- The diagnostics of the malformed lines, in source order. -/
def diagnostics (program : Program) : List Diagnostic :=
  program.statements.filterMap Statement.diagnostic?

/-- The program of a text, unless a line is malformed; then the first diagnostic. -/
def parseStrict (text : String) : Except Diagnostic Program :=
  let program := parse text
  match program.diagnostics with
  | [] => .ok program
  | first :: _ => .error first

/-- The statements of one kind, in source order. -/
def ofKind (program : Program) (kind : StatementKind) : List Statement :=
  program.statements.filter fun statement => statement.kind == kind

/-- The number of statements that end at or before byte `offset`, found by
binary search on the assumption that statements are in source order. -/
def endedBy (program : Program) (offset : Nat) : Nat :=
  let statements := program.statements.toArray
  firstFailing (fun place => statements[place]?.any fun statement => statement.span.stop ≤ offset)
    0 statements.size

/-- The statement that covers byte `offset`. -/
def statementAt? (program : Program) (offset : Nat) : Option Statement :=
  program.statements[program.endedBy offset]?.filter fun statement =>
    statement.span.contains offset

/-- The part of the text that the statements cover. -/
def span? (program : Program) : Option Span :=
  match program.statements.head?, program.statements.getLast? with
  | some first, some last => some { first.span with stop := last.span.stop }
  | _, _ => none

/-- The tokens of all statements, in source order. -/
def tokens (program : Program) : List Token := program.statements.flatMap Statement.tokens

end Program

end RcScript
