import RcScript.Proofs.CheckedScanner
import RcScript.Proofs.FaultReading
import RcScript.Proofs.LineTiling

/-!
# Spans stay within the text

Every span that reading gives has its ends in order, within the text and between
characters: that of a statement, since statements cut the text into lines; that of a
token, since it is a slice of its line; and those of a diagnostic, which points to the
visible part of its line and carries the rest of it from some cursor on.
-/

namespace RcScript

open Text

/-- A span has its ends in order, within a text and between characters. -/
structure Span.Within (span : Span) (text : List Char) : Prop where
  /-- The span does not end before it starts. -/
  ordered : span.start ≤ span.stop
  /-- The span does not reach out of the text. -/
  inside : span.stop ≤ utf8Length text
  /-- The span starts between characters. -/
  startBoundary : isBoundary span.start text = true
  /-- The span ends between characters. -/
  stopBoundary : isBoundary span.stop text = true

/-- The spans of a statement, of its tokens and of its diagnostic lie within a text. -/
structure Statement.SpansWithin (statement : Statement) (text : List Char) : Prop where
  /-- The line of the statement. -/
  span : statement.span.Within text
  /-- The tokens of the line. -/
  tokens : ∀ token ∈ statement.tokens, token.span.Within text
  /-- The place of the diagnostic. -/
  diagnostic : ∀ diagnostic ∈ statement.diagnostic?, diagnostic.span.Within text
  /-- The rest of the line that the diagnostic carries. -/
  fallback : ∀ diagnostic ∈ statement.diagnostic?, ∀ token ∈ diagnostic.fallback,
    token.span.Within text

/-- What can be sliced from a text lies within it. -/
theorem Span.within_of_slice? {span : Span} {text piece : List Char}
    (h : slice? span.start span.stop text = some piece) : span.Within text := by
  obtain ⟨hordered, hinside, hstart, hstop, -⟩ := slice?_eq_some_iff.mp h
  exact ⟨hordered, hinside, hstart, hstop⟩

variable {text : List Char} {line : SourceLine}

/-- The spans of a node's diagnostic, if it has one, lie within a text. -/
def Node.SpansWithin (node : Node) (text : List Char) : Prop :=
  ∀ diagnostic content, node = .malformed diagnostic content →
    diagnostic.span.Within text ∧ ∀ token ∈ diagnostic.fallback, token.span.Within text

/-- A node that is not malformed has no diagnostic to place. -/
theorem Node.spansWithin_of_kind {node : Node} (h : node.kind ≠ .malformed) :
    node.SpansWithin text := by
  intro diagnostic content hnode
  rw [hnode] at h
  exact absurd rfl h

/-- The visible part of a line is at its end. -/
theorem SourceLine.exists_indent (line : SourceLine) :
    ∃ front, line.content = front ++ line.visible ∧ line.indent = utf8Length front := by
  have hbody : line.body <:+ line.content := by
    rw [body]
    split
    · exact List.dropWhile_suffix _
    · exact List.suffix_refl _
  obtain ⟨front, hfront⟩ := (List.dropWhile_suffix isBlank).trans hbody
  refine ⟨front, hfront.symm, ?_⟩
  have hlength := congrArg utf8Length hfront
  rw [utf8Length_append] at hlength
  rw [indent, visible]
  omega

/-- What an error reports of a line lies in the text that the line lies in. -/
theorem SourceLine.LiesIn.within_errorSpan (h : line.LiesIn text) :
    line.errorSpan.Within text := by
  obtain ⟨front, hcontent, hindent⟩ := line.exists_indent
  have hpiece : line.content = front ++ (line.visible ++ []) := by
    rw [List.append_nil, ← hcontent]
  have hslice := h.slice?_eq hpiece
  rw [← hindent, ← hcontent] at hslice
  exact Span.within_of_slice? hslice

namespace Cursor

variable {cursor : Cursor}

/-- A token at a cursor of a line is a slice of the line. -/
theorem LiesIn.within_token (h : cursor.LiesIn text) (lexeme : Lexeme) :
    (cursor.token lexeme).span.Within text :=
  Span.within_of_slice? (h.slice?_take lexeme.count)

/-- The token of the rest of a line lies in the text that the line lies in. -/
theorem LiesIn.within_remainder? (h : cursor.LiesIn text) :
    ∀ token ∈ cursor.remainder?, token.span.Within text := by
  intro token hmem
  have hready : cursor.ready .remainder = cursor.skipBlanks := rfl
  rw [remainder?, answer_eq, hready] at hmem
  cases hfound : cursor.skipBlanks.lexeme? .remainder with
  | none => simp [hfound, grant] at hmem
  | some lexeme =>
    rw [hfound, grant, Option.mem_some_iff] at hmem
    exact hmem ▸ h.skipBlanks.within_token lexeme

end Cursor

namespace Reader

/-- A malformed line points into the text when what it carries does. -/
theorem spansWithin_malformed (hline : line.LiesIn text) (cause : Cause)
    {fallback : Option Token} (h : ∀ token ∈ fallback, token.span.Within text) :
    (malformed line cause fallback).SpansWithin text := by
  intro diagnostic content hnode
  obtain ⟨rfl, -⟩ := Node.malformed.inj hnode
  exact ⟨hline.within_errorSpan, h⟩

/-- What a line is read as has its spans within the text. -/
theorem spansWithin_readLine (hline : line.LiesIn text) :
    (readLine line).2.SpansWithin text := by
  by_cases hkind : (readLine line).2.kind = .malformed
  · obtain ⟨progress, cause, fallback, hfails, hread⟩ := failsAt_readLine hkind
    have haccounts := hfails.reaches.accounts
    have hlies : progress.cursor.LiesIn text := by
      rw [Cursor.LiesIn, haccounts.origin, haccounts.number, haccounts.content]
      exact hline
    rw [hread]
    refine spansWithin_malformed hline cause ?_
    cases hfails with
    | unrecognized => simp
    | incomplete => exact hlies.within_remainder?
    | trailing => simp
  · exact Node.spansWithin_of_kind hkind

end Reader

/-- A text has each of its lines where the line starts. -/
theorem Line.liesIn (before : List Char) (number : Nat) (line : Line) (after : List Char) :
    SourceLine.LiesIn ⟨utf8Length before, number, line.content⟩
      (before ++ (line.toList ++ after)) :=
  ⟨before, line.terminator ++ after, by rw [Line.toList, List.append_assoc], rfl⟩

/-- A text has each of its lines at the place where the lines before it end. -/
theorem Line.liesIn_lines {text : List Char} {index : Nat} {line : Line}
    (h : (lines text)[index]? = some line) (number : Nat) :
    SourceLine.LiesIn ⟨utf8Length (((lines text).take index).flatMap Line.toList), number,
      line.content⟩ text := by
  have hlies := Line.liesIn (((lines text).take index).flatMap Line.toList) number line
    (((lines text).drop (index + 1)).flatMap Line.toList)
  rwa [← eq_append_of_getElem?_lines h] at hlies

/-- Every statement of a program has its spans within the text that it is read from. -/
theorem Program.spansWithin_statements (text : String) :
    ∀ statement ∈ (parse text).statements, statement.SpansWithin text.toList := by
  intro statement hmem
  obtain ⟨index, hindex⟩ := List.mem_iff_getElem?.mp hmem
  obtain ⟨line, hline, rfl⟩ := exists_line hindex
  have htext := eq_append_of_getElem?_lines hline
  have hlies := Line.liesIn_lines hline (index + 1)
  generalize ((lines text.toList).take index).flatMap Line.toList = before at htext hlies ⊢
  generalize ((lines text.toList).drop (index + 1)).flatMap Line.toList = after at htext
  have haccounted := Reader.accounted_readStatement hlies
  have hnode := Reader.spansWithin_readLine hlies
  have hdiagnostic : ∀ diagnostic ∈ (Reader.readStatement (utf8Length before) (index + 1)
      line).diagnostic?, diagnostic.span.Within text.toList ∧
        ∀ token ∈ diagnostic.fallback, token.span.Within text.toList := by
    intro diagnostic hmem
    simp only [Statement.diagnostic?, Reader.readStatement] at hmem
    split at hmem
    · next found content hfound =>
      obtain rfl := Option.some.inj hmem
      exact hnode found content hfound
    · simp at hmem
  constructor
  case span =>
    have hslice := slice?_append before line.toList after
    rw [← htext, utf8Length_append] at hslice
    exact Span.within_of_slice? hslice
  case tokens =>
    intro token hmem
    obtain ⟨hstart, hstop, -⟩ := haccounted.spelled token hmem
    have hlt := (haccounted.inside token hmem).2.1
    exact ⟨Nat.le_of_lt hlt, le_of_isBoundary hstop, hstart, hstop⟩
  case diagnostic => exact fun diagnostic hmem => (hdiagnostic diagnostic hmem).1
  case fallback => exact fun diagnostic hmem => (hdiagnostic diagnostic hmem).2

end RcScript
