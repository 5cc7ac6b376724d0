/-!
# Source locations

A span is a half-open byte range together with the line and column of its first
byte. Lines and columns count from one, and columns count bytes. Moving a span
changes its offsets and its line but not its column, since columns are relative
to the line.
-/

namespace RcScript

/-- A byte range and the place of its first byte. -/
structure Span where
  /-- Offset of the first byte. -/
  start : Nat
  /-- Offset one past the last byte. -/
  stop : Nat
  /-- Line of the first byte, counted from one. -/
  line : Nat
  /-- Column of the first byte, in bytes and counted from one. -/
  column : Nat
  deriving DecidableEq, Repr, Inhabited

namespace Span

/-- The location of statements that come from no text. -/
def zero : Span := ⟨0, 0, 0, 0⟩

/-- Number of bytes covered. -/
def length (span : Span) : Nat := span.stop - span.start

/-- Whether the span covers no byte. -/
def isEmpty (span : Span) : Bool := span.start == span.stop

/-- Whether the span covers byte `offset`. -/
def contains (span : Span) (offset : Nat) : Bool :=
  span.start ≤ offset && offset < span.stop

/-- A count moved by a signed distance, stopping at zero. -/
def move (count : Nat) (distance : Int) : Nat := (count + distance).toNat

/-- The span moved by `bytes` and `lines`. Columns stay. -/
def shift (span : Span) (bytes lines : Int) : Span :=
  ⟨move span.start bytes, move span.stop bytes, move span.line lines, span.column⟩

end Span

end RcScript
