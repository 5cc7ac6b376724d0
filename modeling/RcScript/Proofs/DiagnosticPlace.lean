import RcScript.Proofs.SpanBounds

/-!
# Where a diagnostic points

The span of a diagnostic runs to the end of its line's content and starts where the
statement does: behind what is skipped, at the first token or, where no token is taken,
at the text that is reported. Two rules decide what is skipped at the start of a text.
The cursor skips one byte-order mark there, and the span of a diagnostic skips as many
as there are. The rules agree on every line but one that opens a text with two marks,
and there the span starts behind the text that is reported.
-/

namespace RcScript

open Text

/-- The text that a cause reports, if it reports any. -/
def Cause.found? : Cause → Option String
  | unrecognized found => some found
  | incomplete _ _ found? => found?
  | trailing _ found => some found

namespace Diagnostic

/-- A diagnostic runs to byte `contentEnd`, where the content of its statement's line ends. -/
structure RunsTo (diagnostic : Diagnostic) (statement : Statement) (contentEnd : Nat) : Prop where
  /-- The diagnostic does not start before its line. -/
  start : statement.span.start ≤ diagnostic.span.start
  /-- The diagnostic stops where the content does. -/
  stop : diagnostic.span.stop = contentEnd
  /-- The diagnostic has the number of its line. -/
  line : diagnostic.span.line = statement.span.line
  /-- The column counts the bytes of the line up to the diagnostic, from one. -/
  column : diagnostic.span.column = diagnostic.span.start - statement.span.start + 1

/-- A diagnostic starts at the first character of its line that is not skipped. -/
structure StartsVisibly (diagnostic : Diagnostic) (statement : Statement) (text : List Char) :
    Prop where
  /-- The diagnostic covers a byte at least. -/
  nonempty : diagnostic.span.start < diagnostic.span.stop
  /-- What stands before it on its line is skipped. -/
  skipped : BlankBetween text statement.span.start diagnostic.span.start
  /-- What it starts with is not skipped: no blank, and no mark at the start of the text. -/
  visible : ∃ c, charAt? diagnostic.span.start text = some c ∧ isBlank c = false ∧
    (diagnostic.span.start = 0 → c ≠ byteOrderMark)
  /-- The first token of its statement starts there. -/
  token : ∀ token ∈ statement.tokens.head?, token.span.start = diagnostic.span.start
  /-- Without a token, the text that it reports starts there, and there is some. -/
  found : statement.tokens = [] → ∃ found, diagnostic.cause.found? = some found ∧ found ≠ "" ∧
    found.toList <+: sliceBytes diagnostic.span.start diagnostic.span.stop text

end Diagnostic

namespace SourceLine

variable {line : SourceLine}

/-- A line that opens a text with two marks. -/
def DoublyMarked (line : SourceLine) : Prop :=
  line.origin = 0 ∧ [byteOrderMark, byteOrderMark] <+: line.content

/-- Elsewhere the diagnostic skips the marks that the cursor skips. -/
theorem body_eq_text (h : ¬ line.DoublyMarked) : line.body = line.text := by
  simp only [body, text, lineText, beq_iff_eq]
  by_cases horigin : line.origin = 0
  · rw [if_pos horigin, if_pos horigin]
    cases hcontent : line.content with
    | nil => rfl
    | cons c tail =>
      by_cases hmark : c = byteOrderMark
      · have hnext : tail.head? ≠ some byteOrderMark := by
          intro hhead
          obtain ⟨rest, rfl⟩ := List.head?_eq_some_iff.mp hhead
          exact h ⟨horigin, rest, by rw [hcontent, hmark]; rfl⟩
        rw [List.dropWhile_cons_of_pos (by simpa using hmark), unmarked, List.head?_cons, hmark,
          if_pos rfl, List.tail_cons]
        cases tail with
        | nil => rfl
        | cons d rest => exact List.dropWhile_cons_of_neg (by simpa using hnext)
      · rw [List.dropWhile_cons_of_neg (by simpa using hmark), unmarked, List.head?_cons,
          if_neg (by simpa using hmark)]
  · rw [if_neg horigin, if_neg horigin]

/-- Elsewhere what is visible of a line is what is unread when it starts. -/
theorem visible_eq_unread (h : ¬ line.DoublyMarked) :
    line.visible = line.progress.cursor.unread := by
  rw [visible, body_eq_text h]
  exact line.sees_text.symm

/-- Where the rules agree, the span starts where the first request is answered, behind what
is skipped. -/
theorem exists_skipped (h : ¬ line.DoublyMarked) :
    ∃ front, line.content = front ++ line.progress.cursor.unread ∧
      Blanks (lineText (line.origin = 0) front) ∧ line.indent = utf8Length front ∧
      line.progress.cursor.skipBlanks.position = line.origin + utf8Length front := by
  obtain ⟨front, hcontent, hindent⟩ := line.exists_indent
  rw [visible_eq_unread h] at hcontent
  obtain ⟨gap, hbefore, hblanks⟩ := line.progress.cursor.before_ready .remainder
  have hgap : line.progress.cursor.skipBlanks.before = gap := hbefore
  have hsame : line.progress.cursor.skipBlanks.content = line.content :=
    Cursor.content_advance _ _
  rw [Cursor.content, Cursor.skipBlanks_rest, hgap, hcontent] at hsame
  obtain rfl := List.append_cancel_right hsame
  refine ⟨gap, hcontent, hblanks, hindent, ?_⟩
  rw [Cursor.position_eq, hgap]
  rfl

/-- Where they do not, the span starts behind a mark that is not skipped. -/
theorem exists_marks (h : line.DoublyMarked) :
    ∃ front, line.content = byteOrderMark :: byteOrderMark :: front ++ line.visible ∧
      line.indent = utf8Length (byteOrderMark :: byteOrderMark :: front) := by
  obtain ⟨horigin, rest, hrest⟩ := h
  obtain ⟨front, hcontent, hindent⟩ := line.exists_indent
  have hbody : line.body = rest.dropWhile (· == byteOrderMark) := by
    rw [body, if_pos (by simpa using horigin), ← hrest]
    rfl
  obtain ⟨before, hbefore⟩ : line.visible <:+ rest := by
    rw [visible, hbody]
    exact (List.dropWhile_suffix _).trans (List.dropWhile_suffix _)
  have hfront : front = byteOrderMark :: byteOrderMark :: before := by
    rw [← hrest, ← hbefore, ← List.append_assoc] at hcontent
    exact (List.append_cancel_right hcontent).symm
  exact ⟨before, by rw [← hfront, ← hcontent], by rw [← hfront, hindent]⟩

end SourceLine

namespace Statement.FailsOn

variable {statement : Statement} {diagnostic : Diagnostic} {line : SourceLine}
  {progress : Progress} {text : List Char}

/-- The diagnostic of a malformed line runs to the end of the content. -/
theorem runsTo (h : statement.FailsOn diagnostic line progress) :
    diagnostic.RunsTo statement (statement.span.start + utf8Length line.content) := by
  constructor
  all_goals rw [h.span]
  case start =>
    rw [h.start]
    exact Nat.le_add_right _ _
  case stop => rw [h.start, SourceLine.errorSpan]
  case line => exact h.number.symm
  case column => simp only [h.start, SourceLine.errorSpan, Nat.add_sub_cancel_left]

/-- Where the rules agree, the diagnostic starts where the statement does. A mark there would have
been skipped with the blanks. -/
theorem startsVisibly (h : statement.FailsOn diagnostic line progress) (hlies : line.LiesIn text)
    (hmarks : ¬ line.DoublyMarked) : diagnostic.StartsVisibly statement text := by
  obtain ⟨front, hcontent, hblanks, hindent, hposition⟩ := line.exists_skipped hmarks
  obtain ⟨hunread, hfirst⟩ := h.fails.first
  have hstart : diagnostic.span.start = line.origin + utf8Length front := by
    rw [h.span, SourceLine.errorSpan, hindent]
  have hstop : diagnostic.span.stop =
      line.origin + utf8Length (front ++ line.progress.cursor.unread) := by
    rw [h.span, SourceLine.errorSpan, ← hcontent]
  constructor
  case nonempty =>
    have hpos := utf8Length_pos hunread
    rw [hstart, hstop, utf8Length_append]
    omega
  case skipped =>
    have hpiece : line.content = [] ++ (front ++ line.progress.cursor.unread) := hcontent
    rw [h.start, hstart]
    exact hlies.blankBetween hpiece hblanks
  case visible =>
    obtain ⟨prior, after, htext, hprior⟩ := hlies
    obtain ⟨c, later, hc⟩ := List.exists_cons_of_ne_nil hunread
    have hdrop : line.text.dropWhile isBlank = c :: later := line.sees_text.symm.trans hc
    refine ⟨c, ?_, Grammar.isBlank_of_dropWhile hdrop, ?_⟩
    · have hcut : text = (prior ++ front) ++ c :: (later ++ after) := by
        rw [htext, hcontent, hc]
        simp only [List.append_assoc, List.cons_append]
      rw [hstart, hcut, ← hprior, ← utf8Length_append]
      exact charAt?_append _ _ _
    · rintro hzero rfl
      rw [hstart, Nat.add_eq_zero_iff, utf8Length_eq_zero] at hzero
      obtain ⟨horigin, rfl⟩ := hzero
      have htail : line.text = later := by
        rw [SourceLine.text, lineText, if_pos horigin, hcontent, hc]
        rfl
      have hsublist : (line.text.dropWhile isBlank).Sublist line.text :=
        List.dropWhile_sublist isBlank
      have hlength := hsublist.length_le
      rw [hdrop, htail, List.length_cons] at hlength
      omega
  case token =>
    intro token hmem
    rw [h.tokens] at hmem
    rcases hfirst with ⟨rfl, -⟩ | ⟨first, tokens, htokens, hplace⟩
    · simp [SourceLine.progress, Progress.start, Progress.tokens] at hmem
    · rw [htokens, List.head?_cons, Option.mem_some_iff] at hmem
      rw [← hmem, hplace, hposition, hstart]
  case found =>
    intro hnil
    rw [h.tokens] at hnil
    rcases hfirst with ⟨-, hcause⟩ | ⟨first, tokens, htokens, -⟩
    · refine ⟨_, by rw [hcause, Cause.found?], Cursor.ofList_firstWord_ne hunread, ?_⟩
      have hpiece : line.content = front ++ (line.progress.cursor.unread ++ []) := by
        rw [List.append_nil, ← hcontent]
      rw [hstart, hstop, (hlies.slice hpiece).2.2, String.toList_ofList]
      exact List.takeWhile_prefix _
    · rw [htokens] at hnil
      exact absurd hnil (List.cons_ne_nil _ _)

/-- Where they do not, a mark stands before the diagnostic that is not skipped. -/
theorem not_startsVisibly (h : statement.FailsOn diagnostic line progress)
    (hlies : line.LiesIn text) (hmarks : line.DoublyMarked) :
    ¬ diagnostic.StartsVisibly statement text := by
  intro hplace
  obtain ⟨front, hcontent, hindent⟩ := line.exists_marks hmarks
  have hpiece : line.content = [] ++ (byteOrderMark :: byteOrderMark :: front ++ line.visible) :=
    hcontent
  have hslice := (hlies.slice hpiece).2.2
  have hskipped := hplace.skipped
  rw [List.nil_append, utf8Length_nil, Nat.add_zero, ← hindent] at hslice
  rw [BlankBetween, h.span, h.start, SourceLine.errorSpan, hslice, lineText, if_pos hmarks.1,
    unmarked, List.head?_cons, if_pos rfl, List.tail_cons] at hskipped
  have hblank := hskipped byteOrderMark List.mem_cons_self
  exact absurd hblank (by decide)

end Statement.FailsOn

namespace Program

/-- The diagnostic of every malformed statement of a text is on the line of the statement and
runs to the end of its content. It starts where the statement does, unless the line opens the
text with two marks. -/
theorem place_diagnostic {text : String} {index : Nat} {statement : Statement}
    {diagnostic : Diagnostic} {content : String}
    (h : (parse text).statements[index]? = some statement)
    (hnode : statement.node = .malformed diagnostic content) :
    ∃ line, (lines text.toList)[index]? = some line ∧
      statement.span.start = utf8Length (((lines text.toList).take index).flatMap Line.toList) ∧
      diagnostic.RunsTo statement (statement.span.start + utf8Length line.content) ∧
      (diagnostic.StartsVisibly statement text.toList ↔
        ¬ (index = 0 ∧ [byteOrderMark, byteOrderMark] <+: line.content)) := by
  obtain ⟨line, progress, hline, -, hfails⟩ := exists_failsOn h hnode
  have hlies := Line.liesIn_lines hline (index + 1)
  have hmarks : ¬ (index = 0 ∧ [byteOrderMark, byteOrderMark] <+: line.content) ↔
      ¬ SourceLine.DoublyMarked ⟨utf8Length (((lines text.toList).take index).flatMap Line.toList),
        index + 1, line.content⟩ := by
    obtain ⟨hlt, -⟩ := List.getElem?_eq_some_iff.mp hline
    rw [SourceLine.DoublyMarked, origin_eq_zero_iff hlt]
  refine ⟨line, hline, hfails.start, hfails.runsTo, ?_⟩
  rw [hmarks]
  constructor
  · intro hplace hmarked
    exact hfails.not_startsVisibly hlies hmarked hplace
  · exact hfails.startsVisibly hlies

/-- A binding without a key, behind a mark and a tab. -/
def keylessText : String := "\uFEFF\tbind 12"

/-- The diagnostic of `keylessText` starts at the keyword. -/
theorem place_diagnostic_keylessText :
    ∃ statement diagnostic content, (parse keylessText).statements[0]? = some statement ∧
      statement.node = .malformed diagnostic content ∧
      ∃ line, (lines keylessText.toList)[0]? = some line ∧
        statement.span.start =
          utf8Length (((lines keylessText.toList).take 0).flatMap Line.toList) ∧
        diagnostic.RunsTo statement (statement.span.start + utf8Length line.content) ∧
        (diagnostic.StartsVisibly statement keylessText.toList ↔
          ¬ (0 = 0 ∧ [byteOrderMark, byteOrderMark] <+: line.content)) :=
  have hstatement : (parse keylessText).statements[0]? =
      some ⟨⟨0, 11, 1, 1⟩, [⟨.keyword, "bind", ⟨4, 8, 1, 5⟩⟩],
        .malformed ⟨.incomplete .binding .key (some "12"), ⟨4, 11, 1, 5⟩,
          some ⟨.remainder, "12", ⟨9, 11, 1, 10⟩⟩⟩ "\uFEFF\tbind 12"⟩ := by
    decide +kernel
  ⟨_, _, _, hstatement, rfl, place_diagnostic hstatement rfl⟩

/-- Behind two marks the diagnostic starts at the letter, and not at the second mark, with which
the reported text starts. -/
theorem place_diagnostic_twoMarks :
    ∃ statement diagnostic content,
      (parse "\uFEFF\uFEFFx").statements[0]? = some statement ∧
      statement.node = .malformed diagnostic content ∧ statement.tokens = [] ∧
      diagnostic.cause.found? = some "\uFEFFx" ∧ diagnostic.span = ⟨6, 7, 1, 7⟩ ∧
      ¬ diagnostic.StartsVisibly statement "\uFEFF\uFEFFx".toList := by
  have hstatement : (parse "\uFEFF\uFEFFx").statements[0]? =
      some ⟨⟨0, 7, 1, 1⟩, [],
        .malformed ⟨.unrecognized "\uFEFFx", ⟨6, 7, 1, 7⟩, none⟩ "\uFEFF\uFEFFx"⟩ := by
    decide +kernel
  refine ⟨_, _, _, hstatement, rfl, rfl, rfl, rfl, fun hplace => ?_⟩
  have hblank := hplace.skipped byteOrderMark (by decide +kernel)
  exact absurd hblank (by decide)

end Program

end RcScript
