import RcScript.Proofs.CanonicalLine
import RcScript.Proofs.SpanBounds

/-!
# What a diagnostic reports

A malformed line keeps its content verbatim, and its diagnostic reports what no token has
taken: the first word of it, and with it all of it as one token where a part is missing,
or all of it less white space at the end where a complete statement goes on. The report is
made where the last token stops, whatever was tried behind it. Nothing is said here of
which part is missing, nor of a white space that is no blank, of which the text behind a
complete statement may consist.
-/

namespace RcScript

open Text

/-- The first word of a text: all of it up to the first blank. -/
def IsFirstWord (word cs : List Char) : Prop :=
  ∃ rest, cs = word ++ rest ∧ (∀ c ∈ word, isBlank c = false) ∧ FieldEnd rest

/-- A text less all white space at its end. -/
def IsTrimmed (trimmed cs : List Char) : Prop :=
  ∃ white, cs = trimmed ++ white ∧ (∀ c ∈ white, isWhiteSpace c = true) ∧
    ∀ c ∈ trimmed.getLast?, isWhiteSpace c = false

/-- What no token of a statement has taken, less the blanks before it, of a line of which the
content ends at byte `contentEnd` of a text. -/
def Statement.unread (statement : Statement) (text : List Char) (contentEnd : Nat) : List Char :=
  (lineText (lastStop statement.span.start statement.tokens = 0)
    (sliceBytes (lastStop statement.span.start statement.tokens) contentEnd text)).dropWhile isBlank

/-- A token holds the last piece of a statement's line, of which the content ends at byte
`contentEnd` of a text. -/
structure Token.Ends (token : Token) (statement : Statement) (text : List Char)
    (contentEnd : Nat) (piece : List Char) : Prop where
  /-- The piece was taken whole. -/
  kind : token.kind = .remainder
  /-- The token spells the piece. -/
  spells : token.text.toList = piece
  /-- The token covers the piece and nothing else. -/
  covers : sliceBytes token.span.start token.span.stop text = piece
  /-- The token stops where the content does. -/
  stop : token.span.stop = contentEnd
  /-- The token has the number of the line. -/
  line : token.span.line = statement.span.line
  /-- The column counts the bytes of the line up to the token, from one. -/
  column : token.span.column = token.span.start - statement.span.start + 1

/-- What a cause and a fallback report of the text that no token of a statement has taken. -/
inductive Statement.Reports (statement : Statement) (text : List Char) (contentEnd : Nat) :
    Cause → Option Token → Prop
  /-- A part is missing at the end of the line, and there is nothing to report. -/
  | nothing {kind : StatementKind} {expected : Expected} :
      statement.unread text contentEnd = [] →
      Reports statement text contentEnd (.incomplete kind expected none) none
  /-- A part is missing where there is other text, of which the first word is reported as found
  and all of it as one token. -/
  | instead {kind : StatementKind} {expected : Expected} {found : String} {token : Token} :
      statement.unread text contentEnd ≠ [] →
      IsFirstWord found.toList (statement.unread text contentEnd) →
      token.Ends statement text contentEnd (statement.unread text contentEnd) →
      Reports statement text contentEnd (.incomplete kind expected (some found)) (some token)
  /-- The statement is complete and there is text behind it. -/
  | behind {kind : StatementKind} {found : String} :
      statement.unread text contentEnd ≠ [] →
      IsTrimmed found.toList (statement.unread text contentEnd) →
      Reports statement text contentEnd (.trailing kind found) none
  /-- Nothing is known that the line opens with, so that no token is taken. -/
  | unrecognized {found : String} : statement.tokens = [] → found ≠ "" →
      IsFirstWord found.toList (statement.unread text contentEnd) →
      Reports statement text contentEnd (.unrecognized found) none

/-- The first word runs up to the first blank. -/
theorem isFirstWord_firstWord (cs : List Char) : IsFirstWord (firstWord cs) cs :=
  exists_firstWord cs

/-- Trimming takes away the white space at the end and nothing else. -/
theorem isTrimmed_trimEnd (cs : List Char) : IsTrimmed (trimEnd isWhiteSpace cs) cs := by
  obtain ⟨white, hcs, hwhite⟩ := exists_trimEnd isWhiteSpace cs
  exact ⟨white, hcs, hwhite, getLast?_trimEnd isWhiteSpace cs⟩

namespace Cursor

/-- The rest of a line is one token behind the blanks, unless nothing is left. -/
theorem remainder?_eq (cursor : Cursor) : cursor.remainder? =
    if cursor.unread = [] then none
    else some (cursor.skipBlanks.token ⟨.remainder, cursor.unread.length⟩) := by
  have hready : cursor.ready .remainder = cursor.skipBlanks := rfl
  rw [remainder?, answer_eq, hready, lexeme?, Request.recogniser, Recogniser.remainder,
    skipBlanks_rest]
  by_cases hunread : cursor.unread = []
  · rw [if_pos hunread, if_pos (by simpa using hunread)]
    rfl
  · rw [if_neg hunread, if_neg (by simpa using hunread)]
    rfl

/-- There is a next word exactly where something is unread. -/
theorem nextWord?_eq (cursor : Cursor) : cursor.nextWord? =
    if cursor.unread = [] then none else some (String.ofList (firstWord cursor.unread)) := by
  simp only [nextWord?, List.isEmpty_iff]

end Cursor

namespace Statement.FailsOn

variable {statement : Statement} {diagnostic : Diagnostic} {line : SourceLine}
  {progress : Progress} {text : List Char}

/-- What no token has taken is what is unread where the line fails. -/
theorem unread_eq (h : statement.FailsOn diagnostic line progress) (hlies : line.LiesIn text) :
    statement.unread text (line.origin + utf8Length line.content) = progress.cursor.unread := by
  have haccounts := h.fails.reaches.accounts
  have hstop : lastStop statement.span.start statement.tokens =
      line.origin + utf8Length progress.cursor.before := by
    rw [h.start, h.tokens, haccounts.spells.lastStop_eq]
  have hcontent : line.content = progress.cursor.before ++ (progress.cursor.rest ++ []) := by
    rw [List.append_nil]
    exact haccounts.content.symm
  have hslice := (hlies.slice hcontent).2.2
  rw [List.append_nil] at hcontent
  rw [← hcontent] at hslice
  rw [Statement.unread, progress.cursor.unread_eq, hstop, hslice, progress.cursor.position_eq,
    haccounts.origin]

/-- The token of the rest of a line is behind the blanks where the line fails. -/
theorem ends_token (h : statement.FailsOn diagnostic line progress) (hlies : line.LiesIn text) :
    (progress.cursor.skipBlanks.token ⟨.remainder, progress.cursor.unread.length⟩).Ends
      statement text (line.origin + utf8Length line.content) progress.cursor.unread := by
  have haccounts := h.fails.reaches.accounts
  have hcontent : line.content =
      progress.cursor.skipBlanks.before ++ (progress.cursor.unread ++ []) := by
    rw [List.append_nil, ← haccounts.content]
    exact (Cursor.content_advance _ _).symm
  have hposition : progress.cursor.skipBlanks.position =
      line.origin + utf8Length progress.cursor.skipBlanks.before := by
    rw [Cursor.position_eq, ← haccounts.origin]
    rfl
  have hoffset : progress.cursor.skipBlanks.offset =
      utf8Length progress.cursor.skipBlanks.before := by
    rw [Cursor.offset_eq, ← utf8Length_reverse]
    rfl
  have hlength := congrArg utf8Length hcontent
  rw [List.append_nil, utf8Length_append] at hlength
  have hslice := (hlies.slice hcontent).2.2
  rw [utf8Length_append, ← Nat.add_assoc] at hslice
  constructor
  all_goals simp only [Cursor.token, Cursor.skipBlanks_rest, List.take_length, hposition]
  case spells => exact String.toList_ofList
  case covers => exact hslice
  case stop => omega
  case line => exact haccounts.number.trans h.number.symm
  case column => rw [hoffset, h.start, Nat.add_sub_cancel_left]

/-- A malformed line reports what no token has taken. -/
theorem reports (h : statement.FailsOn diagnostic line progress) (hlies : line.LiesIn text) :
    statement.Reports text (line.origin + utf8Length line.content) diagnostic.cause
      diagnostic.fallback := by
  have hunread := h.unread_eq hlies
  have hends := h.ends_token hlies
  have hfails := h.fails
  generalize diagnostic.cause = cause at hfails ⊢
  generalize diagnostic.fallback = fallback at hfails ⊢
  rw [← hunread] at hends
  cases hfails with
  | unrecognized hleft =>
    refine .unrecognized h.tokens (Cursor.ofList_firstWord_ne hleft) ?_
    rw [hunread, String.toList_ofList]
    exact isFirstWord_firstWord _
  | incomplete hkeyword hreaches hwanted =>
    rw [progress.cursor.nextWord?_eq, progress.cursor.remainder?_eq, ← hunread]
    by_cases hnil : statement.unread text (line.origin + utf8Length line.content) = []
    · rw [if_pos hnil, if_pos hnil]
      exact .nothing hnil
    · rw [if_neg hnil, if_neg hnil]
      refine .instead hnil ?_ hends
      rw [String.toList_ofList]
      exact isFirstWord_firstWord _
  | trailing hkeyword hreaches hleft =>
    rw [← hunread] at hleft ⊢
    refine .behind hleft ?_
    rw [String.toList_ofList]
    exact isTrimmed_trimEnd _

end Statement.FailsOn

namespace Program

/-- Every malformed statement of a text keeps the content of its line, and its diagnostic reports
what no token of the statement has taken. -/
theorem reports_diagnostic {text : String} {index : Nat} {statement : Statement}
    {diagnostic : Diagnostic} {content : String}
    (h : (parse text).statements[index]? = some statement)
    (hnode : statement.node = .malformed diagnostic content) :
    ∃ line, (lines text.toList)[index]? = some line ∧
      statement.span.start = utf8Length (((lines text.toList).take index).flatMap Line.toList) ∧
      content = String.ofList line.content ∧
      statement.Reports text.toList (statement.span.start + utf8Length line.content)
        diagnostic.cause diagnostic.fallback := by
  obtain ⟨line, progress, hline, hcontent, hfails⟩ := exists_failsOn h hnode
  refine ⟨line, hline, hfails.start, hcontent, ?_⟩
  rw [hfails.start]
  exact hfails.reports (Line.liesIn_lines hline (index + 1))

/-- A binding of which the mode stands apart from its flag. -/
def partedText : String := "set x\r\nbind --mode= hint ;"

/-- The diagnostic of `partedText` reports what stands behind the flag. -/
theorem reports_diagnostic_partedText :
    ∃ statement diagnostic content, (parse partedText).statements[1]? = some statement ∧
      statement.node = .malformed diagnostic content ∧
      ∃ line, (lines partedText.toList)[1]? = some line ∧
        statement.span.start =
          utf8Length (((lines partedText.toList).take 1).flatMap Line.toList) ∧
        content = String.ofList line.content ∧
        statement.Reports partedText.toList (statement.span.start + utf8Length line.content)
          diagnostic.cause diagnostic.fallback :=
  have hstatement : (parse partedText).statements[1]? =
      some ⟨⟨7, 26, 2, 1⟩, [⟨.keyword, "bind", ⟨7, 11, 2, 1⟩⟩, ⟨.flag, "--mode=", ⟨12, 19, 2, 6⟩⟩],
        .malformed ⟨.incomplete .binding .mode (some "hint"), ⟨7, 26, 2, 1⟩,
          some ⟨.remainder, "hint ;", ⟨20, 26, 2, 14⟩⟩⟩ "bind --mode= hint ;"⟩ := by
    decide +kernel
  ⟨_, _, _, hstatement, rfl, reports_diagnostic hstatement rfl⟩

end Program

end RcScript
