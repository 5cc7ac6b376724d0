import RcScript.Proofs.ClauseReading
import RcScript.Proofs.CommandPosition
import RcScript.Proofs.StatementLookup

/-!
# What a line is read as

A line is read as the node that it denotes, and as malformed when it denotes none.
The grammar is stated of the content less one byte-order mark at the very start of
the text. The second look at a line that opens with neither quote mark nor keyword
refuses nothing that the grammar allows, since no token of any pattern reaches past
a command name.
-/

namespace RcScript

open Text

/-- A content without the one mark that is skipped at its start. -/
def unmarked (content : List Char) : List Char :=
  if content.head? = some byteOrderMark then content.tail else content

/-- The part of a line's content that the grammar is about. -/
def lineText (isFirst : Prop) [Decidable isFirst] (content : List Char) : List Char :=
  if isFirst then unmarked content else content

/-- It does not matter how the first line is told from the others. -/
theorem lineText_congr {p q : Prop} [Decidable p] [Decidable q] (h : p ↔ q)
    (content : List Char) : lineText p content = lineText q content := by
  simp only [lineText, h]

/-- What is unread is what is left, less a mark at the start of a text and blanks. -/
theorem Cursor.unread_eq (cursor : Cursor) :
    cursor.unread = (lineText (cursor.position = 0) cursor.rest).dropWhile isBlank := by
  by_cases hmark : cursor.atMark = true
  · have hnext := hmark
    rw [atMark, Bool.and_eq_true, beq_iff_eq, beq_iff_eq] at hnext
    obtain ⟨hposition, hhead⟩ := hnext
    rw [lineText, if_pos hposition, unmarked, if_pos hhead, unread, skipBlanks, advance_rest,
      blankCount_eq, if_pos hmark, ← List.drop_drop, List.drop_one, drop_runLength]
  · rw [Bool.not_eq_true] at hmark
    have htext : lineText (cursor.position = 0) cursor.rest = cursor.rest := by
      rw [lineText]
      split
      · next hposition =>
        rw [atMark, hposition, beq_self_eq_true, Bool.true_and, beq_eq_false_iff_ne] at hmark
        rw [unmarked, if_neg hmark]
      · rfl
    rw [htext]
    exact unread_of_atMark hmark

/-- The part of a line that the grammar is about. -/
def SourceLine.text (line : SourceLine) : List Char := lineText (line.origin = 0) line.content

namespace SourceLine

variable {line : SourceLine}

/-- At the start of a line all of it is seen. -/
theorem sees_text (line : SourceLine) : line.progress.Sees line.text :=
  line.progress.cursor.unread_eq

/-- As at the end of a field, a line may be put behind a gap. -/
theorem sees_gap (line : SourceLine) : line.progress.Sees (' ' :: line.text) :=
  line.sees_text

/-- So put, a field may begin with the line. -/
theorem fieldEnd_gap (line : SourceLine) : FieldEnd (' ' :: line.text) :=
  fieldEnd_cons.mpr (by decide)

/-- Only blanks and a mark are skipped before the first token. -/
theorem opensLine_skipBlanks (line : SourceLine) :
    line.progress.cursor.skipBlanks.opensLine = true := by
  have hbefore : line.progress.cursor.skipBlanks.before =
      line.content.take line.progress.cursor.blankCount := by
    simp [Cursor.before, Cursor.skipBlanks, progress, Progress.start, Cursor.atStart]
  have hblanks : ∀ cs : List Char,
      ((cs.takeWhile isBlank).dropWhile (· == byteOrderMark)).all isBlank = true := by
    intro cs
    rw [List.all_eq_true]
    intro c hc
    have hmem := (List.dropWhile_sublist _).subset hc
    exact List.all_eq_true.mp List.all_takeWhile c hmem
  have hrest : line.progress.cursor.rest = line.content := rfl
  rw [Cursor.opensLine, hbefore, Cursor.blankCount_eq, hrest]
  split
  · next hmark =>
    rw [Cursor.atMark, hrest, Bool.and_eq_true, beq_iff_eq, beq_iff_eq] at hmark
    obtain ⟨tail, hcontent⟩ : ∃ tail, line.content = byteOrderMark :: tail := by
      cases hc : line.content with
      | nil => simp [hc] at hmark
      | cons c tail =>
        rw [hc, List.head?_cons, Option.some.injEq] at hmark
        exact ⟨tail, by rw [hmark.2]⟩
    rw [hcontent, List.tail_cons, Nat.add_comm, List.take_succ_cons, take_runLength,
      List.dropWhile_cons_of_pos (by rfl)]
    exact hblanks tail
  · rw [take_runLength]
    exact hblanks line.content

/-- A quote mark is taken exactly where it comes first. -/
theorem accept_quoteMark (line : SourceLine) :
    (∃ token later after, line.progress.accept .quoteMark = some (token, later) ∧
        line.text.dropWhile isBlank = '"' :: after ∧ later.Stands after) ∨
      (line.progress.accept .quoteMark = none ∧
        ∀ after, line.text.dropWhile isBlank ≠ '"' :: after) := by
  have hrec : ∀ text, Request.quoteMark.recogniser line.progress.cursor.skipBlanks text =
      if text.head? == some '"' then some ⟨.quoteMark, 1⟩ else none := by
    intro text
    rw [Request.recogniser, if_pos line.opensLine_skipBlanks, Recogniser.quoteMark]
  by_cases hquote : (line.text.dropWhile isBlank).head? = some '"'
  · obtain ⟨after, hafter⟩ := List.head?_eq_some_iff.mp hquote
    have hfound := hrec ('"' :: after)
    rw [List.head?_cons, if_pos (beq_self_eq_true _)] at hfound
    have hskip : Request.quoteMark.skipsBlanks = true := rfl
    have hne : ['"'] ≠ [] := by simp
    have hunread : line.progress.cursor.unread = ['"'] ++ after := line.sees_text.trans hafter
    obtain ⟨token, later, haccept, -, -, hstands⟩ :=
      Progress.accept_of_recogniser hskip hne hunread hfound
    exact .inl ⟨token, later, after, haccept, hafter, hstands⟩
  · refine .inr ⟨?_, ?_⟩
    · rw [Progress.accept_eq_none_of_unread rfl, line.sees_text, hrec,
        if_neg (by simpa using hquote)]
    · intro after hafter
      exact hquote (by rw [hafter, List.head?_cons])

end SourceLine

/-- A blank in front makes a gap of blanks. -/
theorem gap_of_blanks {blanks : List Char} (h : Blanks blanks) : Gap (' ' :: blanks) := by
  refine ⟨by simp, ?_⟩
  intro c hc
  rcases List.mem_cons.mp hc with rfl | hc
  · decide
  · exact h c hc

/-- A gap of a text that starts with a blank is that blank and others. -/
theorem gap_cons {gap l rest : List Char} (h : Gap gap) (he : ' ' :: l = gap ++ rest) :
    ∃ blanks, gap = ' ' :: blanks ∧ Blanks blanks := by
  obtain ⟨hne, hgap⟩ := h
  cases gap with
  | nil => exact absurd rfl hne
  | cons c blanks =>
    obtain ⟨rfl, -⟩ := List.cons.inj he
    exact ⟨blanks, rfl, fun c hc => hgap c (List.mem_cons_of_mem _ hc)⟩

/-- Opening with a keyword is having it as the first field. -/
theorem opens_iff {keyword : Keyword} {l rest : List Char} :
    Opens keyword l rest ↔ Field (' ' :: l) keyword.literal rest := by
  constructor
  · rintro ⟨blanks, hblanks, rfl, hend⟩
    exact ⟨' ' :: blanks, gap_of_blanks hblanks, rfl, hend⟩
  · rintro ⟨gap, hgap, he, hend⟩
    obtain ⟨blanks, rfl, hblanks⟩ := gap_cons hgap he
    exact ⟨blanks, hblanks, (List.cons.inj he).2, hend⟩

/-- A line that is a command behind blanks has it as its first field. -/
theorem commandField_iff {l : List Char} {command : ExCommand} :
    CommandField (' ' :: l) command ↔
      ∃ blanks body, Blanks blanks ∧ l = blanks ++ body ∧ Invokes body command := by
  constructor
  · rintro ⟨gap, body, hgap, he, hinvokes⟩
    obtain ⟨blanks, rfl, hblanks⟩ := gap_cons hgap he
    exact ⟨blanks, body, hblanks, (List.cons.inj he).2, hinvokes⟩
  · rintro ⟨blanks, body, hblanks, rfl, hinvokes⟩
    exact ⟨' ' :: blanks, body, gap_of_blanks hblanks, rfl, hinvokes⟩

/-- A keyword is a word. -/
theorem isWord_literal (keyword : Keyword) : IsWord keyword.literal.toList := by
  cases keyword <;> decide

/-- Where a text without blanks starts a line up to the end of a field, no other does. -/
theorem word_unique {v tail w rest : List Char} (he : v ++ tail = w ++ rest)
    (hv : ∀ c ∈ v, isBlank c = false) (hw : ∀ c ∈ w, isBlank c = false)
    (htail : FieldEnd tail) (hrest : FieldEnd rest) : v = w ∧ tail = rest := by
  have hpre := Pattern.isPrefix_of_fieldEnd he hv hrest
  have hpre' := Pattern.isPrefix_of_fieldEnd he.symm hw htail
  have hword := hpre.eq_of_length_le hpre'.length_le
  rw [hword] at he
  exact ⟨hword, List.append_cancel_left he⟩

/-- A line opens with one keyword at most. -/
theorem opens_unique {first second : Keyword} {l rest rest' : List Char}
    (h : Opens first l rest) (h' : Opens second l rest') : first = second ∧ rest = rest' := by
  obtain ⟨-, -, -, hend⟩ := opens_iff.mp h
  obtain ⟨-, -, -, hend'⟩ := opens_iff.mp h'
  have he := ((opens_iff.mp h).dropWhile_eq (isWord_literal first).visible).symm.trans
    ((opens_iff.mp h').dropWhile_eq (isWord_literal second).visible)
  obtain ⟨hliteral, hrest⟩ := word_unique he (isWord_literal first).isBlank_of_mem
    (isWord_literal second).isBlank_of_mem hend hend'
  refine ⟨?_, hrest⟩
  rw [String.toList_inj] at hliteral
  cases first <;> cases second <;> first | rfl | exact absurd hliteral (by decide)

/-- A command starts with its name, and a field can end behind that. -/
theorem exists_name_of_invokes {body : List Char} {command : ExCommand}
    (h : Invokes body command) :
    ∃ rest, body = command.name.toList ++ rest ∧ FieldEnd rest ∧ CommandName command.name := by
  cases h with
  | bare hname hblanks => exact ⟨_, rfl, hblanks.fieldEnd, hname⟩
  | withArgs hname hgap _ => exact ⟨_, rfl, hgap.fieldEnd _, hname⟩

/-- A line that is a command opens with a keyword when that is the command's name. -/
theorem opens_iff_of_invokes {blanks body : List Char} {command : ExCommand}
    (hblanks : Blanks blanks) (h : Invokes body command) (keyword : Keyword) :
    (∃ rest, Opens keyword (blanks ++ body) rest) ↔ keyword.literal = command.name := by
  obtain ⟨rest, hbody, hrest, hname⟩ := exists_name_of_invokes h
  have hword := Recogniser.isWord_of_commandName hname
  constructor
  · rintro ⟨rest', hopens⟩
    obtain ⟨-, -, -, hrest'⟩ := opens_iff.mp hopens
    have hfield := (opens_iff.mp hopens).dropWhile_eq (isWord_literal keyword).visible
    have hdrop : (' ' :: (blanks ++ body)).dropWhile isBlank = command.name.toList ++ rest := by
      rw [hbody, List.dropWhile_cons_of_pos (by decide), dropWhile_blanks hblanks,
        dropWhile_visible hword.visible]
    obtain ⟨hliteral, -⟩ := word_unique (hfield.symm.trans hdrop)
      (isWord_literal keyword).isBlank_of_mem hword.isBlank_of_mem hrest' hrest
    rwa [String.toList_inj] at hliteral
  · intro hliteral
    exact ⟨rest, blanks, hblanks, by rw [hbody, hliteral], hrest⟩

namespace Reader

/-- The keyword that is found was taken. -/
theorem accept_of_keyword? {progress later : Progress} {keyword : Keyword}
    (h : keyword? progress = some (keyword, later)) :
    ∃ token, progress.accept (.keyword keyword.literal) = some (token, later) := by
  obtain ⟨found, -, hfound⟩ := List.exists_of_findSome?_eq_some h
  obtain ⟨⟨token, next⟩, haccept, he⟩ := Option.map_eq_some_iff.mp hfound
  obtain ⟨rfl, rfl⟩ := Prod.mk.inj he
  exact ⟨token, haccept⟩

/-- The keyword that is found is the one that the line opens with. -/
theorem keyword?_eq_some {line : SourceLine} {keyword : Keyword} {later : Progress}
    (h : keyword? line.progress = some (keyword, later)) :
    ∃ rest, Opens keyword line.text rest ∧ later.Stands rest := by
  obtain ⟨token, haccept⟩ := accept_of_keyword? h
  obtain ⟨rest, hfield, ⟨-, htext⟩, hstands⟩ := Progress.field_of_accept
    (Request.knows_keyword keyword) line.sees_gap line.fieldEnd_gap haccept
  rw [String.toList_inj] at htext
  exact ⟨rest, opens_iff.mpr (htext ▸ hfield), hstands⟩

/-- No keyword is found where the line opens with none. -/
theorem keyword?_eq_none {line : SourceLine} (h : keyword? line.progress = none) :
    ∀ keyword rest, ¬ Opens keyword line.text rest := by
  intro keyword rest hopens
  have hmem : keyword ∈ Keyword.all := by cases keyword <;> decide
  have hnone := List.findSome?_eq_none_iff.mp h keyword hmem
  have hword : OneWord .keyword keyword.literal.toList .keyword keyword.literal.toList :=
    ⟨rfl, rfl⟩
  obtain ⟨token, later, haccept, -⟩ := Progress.accept_of_field (Request.knows_keyword keyword)
    line.sees_gap (opens_iff.mp hopens) hword
  rw [haccept] at hnone
  exact absurd hnone (by simp)

/-- The keyword that a line opens with is found. -/
theorem keyword?_of_opens {line : SourceLine} {keyword : Keyword} {rest : List Char}
    (h : Opens keyword line.text rest) :
    ∃ later, keyword? line.progress = some (keyword, later) ∧ later.Stands rest := by
  cases hfound : keyword? line.progress with
  | none => exact absurd h (keyword?_eq_none hfound keyword rest)
  | some found =>
    obtain ⟨other, later⟩ := found
    obtain ⟨rest', hopens, hstands⟩ := keyword?_eq_some hfound
    obtain ⟨rfl, rfl⟩ := opens_unique hopens h
    exact ⟨later, rfl, hstands⟩

/-- A comment is all that follows its quote mark. -/
theorem comment_node (progress : Progress) :
    (comment progress).2 = .comment (String.ofList progress.cursor.rest) := by
  rw [comment]
  split <;> rfl

/-- A line is looked at as a command where the name of one is there. -/
theorem opensWithCommand_eq (line : SourceLine) :
    opensWithCommand line.progress.cursor = (line.progress.accept .commandName).isSome := by
  rw [opensWithCommand_eq_isSome, Progress.answer_fst, Option.isSome_map]

/-- What a reading gives is kept when it is concluded. -/
theorem conclude_ok (line : SourceLine) (kind : StatementKind) (node : Node)
    (later : Progress) : (conclude line kind (.ok node, later)).2 = node := rfl

/-- A reading that fails is concluded as malformed, with the content verbatim. -/
theorem conclude_error (line : SourceLine) (kind : StatementKind) (fault : Fault)
    (later : Progress) : (conclude line kind (.error fault, later)).2 =
      malformed line (faultCause kind fault later.cursor) (faultFallback fault later.cursor) :=
  rfl

/-- A reading of a command gives a node where it gives the command. -/
theorem map_exCommand (progress : Progress) :
    (Node.exCommand <$> Grammar.exCommand) progress =
      match Grammar.exCommand progress with
      | (.ok command, later) => (.ok (.exCommand command), later)
      | (.error fault, later) => (.error fault, later) := by
  have hmap : (Node.exCommand <$> Grammar.exCommand) =
      Grammar.exCommand >>= fun command => pure (Node.exCommand command) := rfl
  rw [hmap]
  cases hread : Grammar.exCommand progress with
  | mk outcome later =>
    simp only [Bind.bind, hread]
    cases outcome <;> rfl

/-- What a line is read as that is neither blank nor a comment. -/
def readWords (line : SourceLine) : List Token × Node :=
  match keyword? line.progress with
  | some (keyword, later) => conclude line keyword.statementKind (Grammar.statement keyword later)
  | none => command line line.progress

/-- A line whose first character behind blanks may open a word is neither blank
nor a comment. -/
theorem readLine_of_word {line : SourceLine} {first : Char} {tail : List Char}
    (h : line.text.dropWhile isBlank = first :: tail) (hfirst : isWordChar first = true) :
    readLine line = readWords line := by
  have hatEnd : line.progress.cursor.atEnd = false := by
    have hunread : line.progress.cursor.unread = first :: tail := line.sees_text.trans h
    rw [Cursor.atEnd, Cursor.skipBlanks_rest, hunread]
    rfl
  rcases line.accept_quoteMark with ⟨token, later, after, -, htext, -⟩ | ⟨haccept, -⟩
  · rw [h] at htext
    rw [(List.cons.inj htext).1] at hfirst
    exact absurd hfirst (by decide)
  · simp only [readLine, hatEnd, haccept, Bool.false_eq_true, if_false]
    rfl

/-- A line that opens with a command is looked at as one. -/
theorem opensWithCommand_of_invokes {line : SourceLine} {blanks body : List Char}
    {command : ExCommand} (hblanks : Blanks blanks) (htext : line.text = blanks ++ body)
    (h : Invokes body command) : opensWithCommand line.progress.cursor = true := by
  obtain ⟨rest, hbody, hrest, hname⟩ := exists_name_of_invokes h
  have hfield : Field (' ' :: line.text) command.name rest := by
    refine ⟨' ' :: blanks, gap_of_blanks hblanks, ?_, hrest⟩
    rw [htext, hbody]
    rfl
  obtain ⟨token, later, haccept, -⟩ :=
    Progress.accept_of_field Request.knows_commandName line.sees_gap hfield hname.commandWord
  rw [opensWithCommand_eq, haccept, Option.isSome_some]

/-- A line of blanks is read as blank. -/
theorem readLine_of_blanks {line : SourceLine} (hblanks : Blanks line.text) :
    (readLine line).2 = .blank := by
  have hunread : line.progress.cursor.unread = [] := by
    rw [line.sees_text]
    exact dropWhile_eq_nil_iff_blanks.mpr hblanks
  rw [readLine, Cursor.atEnd, Cursor.skipBlanks_rest, hunread]
  rfl

/-- A line with a quote mark behind blanks is read as a comment. -/
theorem readLine_of_quoteMark {line : SourceLine} {after : List Char}
    (h : line.text.dropWhile isBlank = '"' :: after) :
    (readLine line).2 = .comment (String.ofList after) := by
  have hatEnd : line.progress.cursor.atEnd = false := by
    rw [Cursor.atEnd, Cursor.skipBlanks_rest, line.sees_text, h]
    rfl
  rcases line.accept_quoteMark with ⟨token, later, after', haccept, h', hstands⟩ | ⟨-, hnone⟩
  · rw [h, List.cons.injEq] at h'
    simp only [readLine, hatEnd, haccept, comment_node, hstands.1, h'.2, Bool.false_eq_true,
      if_false]
  · exact absurd h (hnone after)

/-- A line with the clause of the keyword that it opens with is read by the clause. -/
theorem readLine_of_clause {line : SourceLine} {keyword : Keyword} {rest : List Char}
    {node : Node} (hopens : Opens keyword line.text rest) (hclause : Clause keyword rest node) :
    (readLine line).2 = node := by
  obtain ⟨later, hkeyword, hstands⟩ := keyword?_of_opens hopens
  have hdrop := (opens_iff.mp hopens).dropWhile_eq (isWord_literal keyword).visible
  obtain ⟨first, tail, hliteral, hfirst⟩ := (isWord_literal keyword).exists_cons
  obtain ⟨-, -, -, hrest⟩ := hopens
  rw [hliteral, List.cons_append] at hdrop
  obtain ⟨value, last, hread, rfl, -⟩ :=
    (Grammar.realizes_statement keyword).complete hstands.sees hrest ⟨hclause, rfl⟩
  rw [readLine_of_word hdrop hfirst, readWords, hkeyword]
  simp only [hread, conclude_ok]
  rfl

/-- A line with a command behind blanks is read as the command, unless it opens
with a keyword. -/
theorem readLine_of_invokes {line : SourceLine} {blanks body : List Char} {command : ExCommand}
    (hnone : ∀ keyword rest, ¬ Opens keyword line.text rest) (hblanks : Blanks blanks)
    (htext : line.text = blanks ++ body) (hinvokes : Invokes body command) :
    (readLine line).2 = .exCommand command := by
  have hkeyword : keyword? line.progress = none := by
    cases hfound : keyword? line.progress with
    | none => rfl
    | some found =>
      obtain ⟨rest, hopens, -⟩ := keyword?_eq_some hfound
      exact absurd hopens (hnone _ rest)
  obtain ⟨rest, hbody, -, hname⟩ := exists_name_of_invokes hinvokes
  obtain ⟨first, tail, hcons, hfirst⟩ := (Recogniser.isWord_of_commandName hname).exists_cons
  have hdrop : line.text.dropWhile isBlank = first :: (tail ++ rest) := by
    rw [htext, dropWhile_blanks hblanks, hbody, hcons]
    exact List.dropWhile_cons_of_neg (by simp [isBlank_of_isWordChar hfirst])
  have hcommand : CommandField (' ' :: line.text) command :=
    commandField_iff.mpr ⟨blanks, body, hblanks, htext, hinvokes⟩
  obtain ⟨value, last, hread, rfl, -⟩ :=
    Grammar.realizes_exCommand.complete line.sees_gap line.fieldEnd_gap ⟨hcommand, rfl⟩
  rw [readLine_of_word hdrop hfirst, readWords, hkeyword]
  simp only [Reader.command, opensWithCommand_of_invokes hblanks htext hinvokes, if_true,
    map_exCommand, hread, conclude_ok]
  rfl

/-- A line that denotes a node is read as that node. -/
theorem readLine_of_denotes {line : SourceLine} {node : Node} (h : Denotes line.text node) :
    (readLine line).2 = node := by
  generalize htext : line.text = text at h
  cases h with
  | blank hblanks => exact readLine_of_blanks (htext ▸ hblanks)
  | @comment blanks after hblanks =>
    have hdrop : line.text.dropWhile isBlank = '"' :: after := by
      rw [htext, dropWhile_blanks hblanks]
      exact List.dropWhile_cons_of_neg (by decide)
    exact readLine_of_quoteMark hdrop
  | statement hopens hclause =>
    rw [← htext] at hopens
    exact readLine_of_clause hopens hclause
  | exCommand hnone hblanks hinvokes =>
    rw [← htext] at hnone
    exact readLine_of_invokes hnone hblanks htext hinvokes

/-- What the grammar of a keyword concludes is denoted or malformed. -/
theorem denotes_conclude_statement {line : SourceLine} {keyword : Keyword} {later : Progress}
    (h : keyword? line.progress = some (keyword, later)) :
    Denotes line.text
        (conclude line keyword.statementKind (Grammar.statement keyword later)).2 ∨
      ∃ cause fallback, (conclude line keyword.statementKind
        (Grammar.statement keyword later)).2 = malformed line cause fallback := by
  obtain ⟨rest, hopens, hstands⟩ := keyword?_eq_some h
  obtain ⟨-, -, -, hrest⟩ := opens_iff.mp hopens
  cases hread : Grammar.statement keyword later with
  | mk outcome last =>
    cases outcome with
    | ok node =>
      obtain ⟨-, ⟨hclause, -⟩, -⟩ :=
        (Grammar.realizes_statement keyword).sound hstands.sees hrest hread
      rw [conclude_ok]
      exact .inl (.statement hopens hclause)
    | error fault => exact .inr ⟨_, _, conclude_error line _ fault last⟩

/-- What a line without a keyword is read as is denoted or malformed. -/
theorem denotes_command {line : SourceLine} (h : keyword? line.progress = none) :
    Denotes line.text (command line line.progress).2 ∨
      ∃ cause fallback, (command line line.progress).2 = malformed line cause fallback := by
  rw [command]
  split
  · rw [map_exCommand]
    cases hread : Grammar.exCommand line.progress with
    | mk outcome last =>
      cases outcome with
      | ok found =>
        obtain ⟨-, ⟨hcommand, -⟩, -⟩ :=
          Grammar.realizes_exCommand.sound line.sees_gap line.fieldEnd_gap hread
        obtain ⟨blanks, body, hblanks, htext, hinvokes⟩ := commandField_iff.mp hcommand
        have hnone := keyword?_eq_none h
        rw [htext] at hnone ⊢
        exact .inl (.exCommand hnone hblanks hinvokes)
      | error fault => exact .inr ⟨_, _, conclude_error line _ fault last⟩
  · exact .inr ⟨_, _, rfl⟩

/-- A line is read as a node that it denotes, or as malformed. -/
theorem denotes_readLine (line : SourceLine) :
    Denotes line.text (readLine line).2 ∨
      ∃ cause fallback, (readLine line).2 = malformed line cause fallback := by
  rw [readLine]
  split
  · next hatEnd =>
    rw [Cursor.atEnd, List.isEmpty_iff] at hatEnd
    have hblanks := dropWhile_eq_nil_iff_blanks.mp (line.sees_text.symm.trans hatEnd)
    exact .inl (.blank hblanks)
  · rcases line.accept_quoteMark with ⟨token, later, after, haccept, htext, hstands⟩ |
      ⟨haccept, -⟩
    · obtain ⟨blanks, hblanks, he⟩ := exists_blanks line.text
      simp only [haccept, comment_node, hstands.1]
      rw [he, htext]
      exact .inl (.comment hblanks)
    · simp only [haccept]
      cases hkeyword : keyword? line.progress with
      | some found => exact denotes_conclude_statement hkeyword
      | none => exact denotes_command hkeyword

/-- What a line denotes is never malformed. -/
theorem kind_of_denotes {l : List Char} {node : Node} (h : Denotes l node) :
    node.kind ≠ .malformed := by
  cases h with
  | blank => exact StatementKind.noConfusion
  | comment => exact StatementKind.noConfusion
  | statement _ hclause => cases hclause <;> exact StatementKind.noConfusion
  | exCommand => exact StatementKind.noConfusion

/-- A line is read as the one node that it denotes. If it denotes none, it is read
as malformed, with its content verbatim. -/
theorem readLine_meaning (line : SourceLine) :
    (∀ node, Denotes line.text node ↔ (readLine line).2 = node ∧ node.kind ≠ .malformed) ∧
      ((∀ node, ¬ Denotes line.text node) ↔
        ∃ diagnostic, (readLine line).2 = .malformed diagnostic (String.ofList line.content)) := by
  rcases denotes_readLine line with hdenotes | ⟨cause, fallback, hmalformed⟩
  · have hkind := kind_of_denotes hdenotes
    constructor
    · intro node
      constructor
      · intro h
        exact ⟨readLine_of_denotes h, kind_of_denotes h⟩
      · rintro ⟨rfl, -⟩
        exact hdenotes
    · constructor
      · intro hnone
        exact absurd hdenotes (hnone _)
      · rintro ⟨diagnostic, he⟩
        rw [he] at hkind
        exact absurd rfl hkind
  · have hnone : ∀ node, ¬ Denotes line.text node := by
      intro node h
      have hkind := kind_of_denotes h
      rw [← readLine_of_denotes h, hmalformed] at hkind
      exact hkind rfl
    constructor
    · intro node
      constructor
      · intro h
        exact absurd h (hnone node)
      · rintro ⟨he, hkind⟩
        rw [← he, hmalformed] at hkind
        exact absurd rfl hkind
    · exact ⟨fun _ => ⟨_, hmalformed⟩, fun _ => hnone⟩

/-- A line is read as malformed exactly when it denotes nothing. -/
theorem malformed_iff (line : SourceLine) :
    (readLine line).2.kind = .malformed ↔ ∀ node, ¬ Denotes line.text node := by
  constructor
  · intro hkind node h
    rw [readLine_of_denotes h] at hkind
    exact kind_of_denotes h hkind
  · intro hnone
    obtain ⟨diagnostic, he⟩ := (readLine_meaning line).2.mp hnone
    rw [he]
    rfl

end Reader

/-- A line denotes one node at most. -/
theorem denotes_unique {l : List Char} {node other : Node} (h : Denotes l node)
    (h' : Denotes l other) : node = other := by
  have htext : SourceLine.text ⟨1, 1, l⟩ = l := by simp [SourceLine.text, lineText]
  rw [← htext] at h h'
  exact (Reader.readLine_of_denotes h).symm.trans (Reader.readLine_of_denotes h')

namespace Program

open Reader

/-- The statement of a line, by the line feeds before it. -/
theorem statement_of_isLine {before : List Char} {line : Line} {after : List Char}
    (h : IsLine before line after) {text : String}
    (ht : text.toList = before ++ (line.toList ++ after)) :
    (parse text).statements[before.count '\n']? =
      some (readStatement (utf8Length before) (1 + before.count '\n') line) := by
  have hlength := length_lines h.starts
  rw [parse, ht, lines_of_isLine h, readLines_append, flatMap_toList_lines, Nat.zero_add, hlength,
    readLines]
  have hcount : (readLines 0 1 (lines before)).length = before.count '\n' := by
    rw [length_readLines, hlength]
  rw [List.getElem?_append_right (Nat.le_of_eq hcount), hcount, Nat.sub_self,
    List.getElem?_cons_zero]

/-- Every line of a text is read as the one node that it denotes. If it denotes
none, it is read as malformed, with its content verbatim. -/
theorem parse_denotes {before : List Char} {line : Line} {after : List Char}
    (h : IsLine before line after) {text : String}
    (ht : text.toList = before ++ (line.toList ++ after)) :
    ∃ statement, (parse text).statements[before.count '\n']? = some statement ∧
      (∀ node, Denotes (lineText (before = []) line.content) node ↔
        statement.node = node ∧ node.kind ≠ .malformed) ∧
      ((∀ node, ¬ Denotes (lineText (before = []) line.content) node) ↔
        ∃ diagnostic, statement.node = .malformed diagnostic (String.ofList line.content)) := by
  have hmeaning := readLine_meaning ⟨utf8Length before, 1 + before.count '\n', line.content⟩
  have htext : SourceLine.text ⟨utf8Length before, 1 + before.count '\n', line.content⟩ =
      lineText (before = []) line.content := lineText_congr utf8Length_eq_zero line.content
  rw [htext] at hmeaning
  exact ⟨_, statement_of_isLine h ht, hmeaning⟩

/-- A line with a mark at its start and a URL that ends with a blank. -/
def markedLine : Line := ⟨"\uFEFFquickmark g http://a ".toList, ['\r', '\n']⟩

/-- The first of two lines is read as it denotes, less its mark. -/
theorem parse_denotes_markedLine :
    IsLine [] markedLine "set".toList ∧
      ∃ statement, (parse "\uFEFFquickmark g http://a \r\nset").statements[0]? = some statement ∧
        (∀ node, Denotes (lineText (([] : List Char) = []) markedLine.content) node ↔
          statement.node = node ∧ node.kind ≠ .malformed) ∧
        ((∀ node, ¬ Denotes (lineText (([] : List Char) = []) markedLine.content) node) ↔
          ∃ diagnostic,
            statement.node = .malformed diagnostic (String.ofList markedLine.content)) :=
  have hline : IsLine [] markedLine "set".toList :=
    ⟨atLineStart_nil, by decide, by decide, .inr (.inl rfl), by decide⟩
  have htext : "\uFEFFquickmark g http://a \r\nset".toList =
      [] ++ (markedLine.toList ++ "set".toList) := by decide
  ⟨hline, parse_denotes hline htext⟩

end Program

end RcScript
