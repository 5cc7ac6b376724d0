/-!
# Lines of a text

A line is its content followed by its terminator. The terminator is a line feed,
a carriage return and a line feed, or, on the last line only, a lone carriage
return or nothing. Only the one carriage return next to the line's end belongs
to the terminator; any other stays in the content. An empty text has no lines,
and the lines of a text concatenate to it.
-/

namespace RcScript.Text

/-- One line of a text. -/
structure Line where
  /-- The characters before the terminator. -/
  content : List Char
  /-- The characters that end the line; empty on an unterminated last line. -/
  terminator : List Char
  deriving DecidableEq, Repr

/-- All characters of a line. -/
def Line.toList (line : Line) : List Char := line.content ++ line.terminator

/-- The line with the characters `reversed`, last first, before its line feed or
the end of the text. A carriage return at the end joins the terminator. -/
def Line.ofReversed (reversed : List Char) (lineFeed : List Char) : Line :=
  match reversed with
  | '\r' :: rest => ⟨rest.reverse, '\r' :: lineFeed⟩
  | rest => ⟨rest.reverse, lineFeed⟩

/-- The lines of a text whose first line has already given the characters
`reversed`, last first. -/
def linesFrom (reversed : List Char) : List Char → List Line
  | [] => if reversed.isEmpty then [] else [Line.ofReversed reversed []]
  | c :: cs =>
    if c == '\n' then Line.ofReversed reversed ['\n'] :: linesFrom [] cs
    else linesFrom (c :: reversed) cs

/-- The lines of a text, in order. -/
def lines (cs : List Char) : List Line := linesFrom [] cs

/-- Moving a carriage return to the terminator keeps every character. -/
theorem toList_ofReversed (reversed lineFeed : List Char) :
    (Line.ofReversed reversed lineFeed).toList = reversed.reverse ++ lineFeed := by
  unfold Line.ofReversed Line.toList
  split <;> simp

/-- Splitting keeps every character, with those given before in front. -/
theorem flatMap_toList_linesFrom (reversed cs : List Char) :
    (linesFrom reversed cs).flatMap Line.toList = reversed.reverse ++ cs := by
  induction cs generalizing reversed with
  | nil => cases reversed <;> simp [linesFrom, toList_ofReversed]
  | cons c cs ih =>
    by_cases h : c = '\n'
    · subst h
      simp [linesFrom, toList_ofReversed, ih]
    · simp [linesFrom, h, ih]

/-- The lines of a text concatenate to it. -/
theorem flatMap_toList_lines (cs : List Char) : (lines cs).flatMap Line.toList = cs :=
  flatMap_toList_linesFrom [] cs

end RcScript.Text
