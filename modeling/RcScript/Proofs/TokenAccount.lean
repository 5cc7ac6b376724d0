import RcScript.Proofs.FormatStability
import RcScript.Proofs.ReadingRun

/-!
# Tokens account for their line

The tokens of a line stand in source order and do not overlap, each is the slice of
the text that its span covers, and nothing but blanks stands before them and between
them. Behind the last token of a statement that is not malformed there are blanks
only, so that tokens and blanks together spell the line. The byte-order mark at the
very start of a text counts as a blank here; what a malformed line holds behind its
last token is not accounted for.
-/

namespace RcScript

open Text

/-- The span of a piece of a line behind the given characters of the line. -/
def SourceLine.spanBehind (line : SourceLine) (before piece : List Char) : Span :=
  ⟨line.origin + utf8Length before, line.origin + utf8Length before + utf8Length piece,
    line.number, utf8Length before + 1⟩

/-- The characters of a line up to the end of its last token, spelled by tokens with
blanks before each. -/
inductive Spells (line : SourceLine) : List Char → List Token → Prop
  | nil : Spells line [] []
  | token {before gap : List Char} {tokens : List Token} {token : Token} :
      Spells line before tokens →
      Blanks (lineText (line.origin + utf8Length before = 0) gap) → token.text.toList ≠ [] →
      token.span = line.spanBehind (before ++ gap) token.text.toList →
      Spells line (before ++ (gap ++ token.text.toList)) (tokens ++ [token])

namespace Cursor

/-- A cursor stands behind the bytes that were passed on its line. -/
theorem position_eq (cursor : Cursor) :
    cursor.position = cursor.origin + utf8Length cursor.before := by
  rw [position, before, utf8Length_reverse, cursor.offset_eq]

/-- Advancing adds the characters that were passed to those before. -/
theorem before_advance (cursor : Cursor) (count : Nat) :
    (cursor.advance count).before = cursor.before ++ cursor.rest.take count := by
  rw [before, advance_passed, List.reverse_append, List.reverse_reverse, before]

/-- Only blanks are skipped, and a mark at the start of the text. Elsewhere a mark is no blank, and
so there is none to take away. -/
theorem blanks_take (cursor : Cursor) :
    Blanks (lineText (cursor.position = 0) (cursor.rest.take cursor.blankCount)) := by
  have hrun : ∀ cs : List Char, Blanks (cs.take (runLength isBlank cs)) := by
    intro cs
    rw [take_runLength]
    exact List.all_eq_true.mp List.all_takeWhile
  rw [blankCount_eq]
  split
  · next hmark =>
    simp only [atMark, Bool.and_eq_true, beq_iff_eq] at hmark
    obtain ⟨hposition, hhead⟩ := hmark
    obtain ⟨tail, htail⟩ := List.head?_eq_some_iff.mp hhead
    rw [lineText, if_pos hposition, htail, List.tail_cons, Nat.add_comm, List.take_succ_cons,
      unmarked, List.head?_cons, if_pos rfl]
    exact hrun tail
  · have hblanks := hrun cursor.rest
    have hhead : (cursor.rest.take (runLength isBlank cursor.rest)).head? ≠
        some byteOrderMark := by
      intro hmark
      have hblank := hblanks byteOrderMark (List.mem_of_mem_head? hmark)
      exact absurd hblank (by decide)
    rw [lineText, unmarked, if_neg hhead, ite_self]
    exact hblanks

/-- Where nothing is unread, only blanks are left. -/
theorem blanks_rest {cursor : Cursor} (h : cursor.unread = []) :
    Blanks (lineText (cursor.position = 0) cursor.rest) := by
  have hall : cursor.rest.take cursor.blankCount = cursor.rest := by
    rw [unread, skipBlanks, advance_rest, List.drop_eq_nil_iff] at h
    exact List.take_of_length_le h
  have hblanks := cursor.blanks_take
  rwa [hall] at hblanks

/-- A request is answered behind blanks. -/
theorem before_ready (cursor : Cursor) (request : Request) :
    ∃ gap, (cursor.ready request).before = cursor.before ++ gap ∧
      Blanks (lineText (cursor.position = 0) gap) := by
  rw [ready]
  split
  · exact ⟨_, before_advance cursor _, cursor.blanks_take⟩
  · refine ⟨[], (List.append_nil _).symm, ?_⟩
    rw [lineText, unmarked, List.tail_nil, ite_self, ite_self]
    exact blanks_nil

/-- Neither skipping blanks nor moving on leaves the line. -/
theorem ready_line (cursor : Cursor) (request : Request) :
    (cursor.ready request).origin = cursor.origin ∧ (cursor.ready request).line = cursor.line ∧
      (cursor.ready request).content = cursor.content := by
  rw [ready]
  split
  · exact ⟨rfl, rfl, content_advance cursor _⟩
  · exact ⟨rfl, rfl, rfl⟩

end Cursor

namespace Progress

/-- A progress on a line whose tokens spell what it has passed. -/
structure Accounts (line : SourceLine) (progress : Progress) : Prop where
  /-- The line starts where it should. -/
  origin : progress.cursor.origin = line.origin
  /-- The line has its number. -/
  number : progress.cursor.line = line.number
  /-- Nothing of the content is lost. -/
  content : progress.cursor.content = line.content
  /-- The tokens and the blanks before them are all that was passed. -/
  spells : Spells line progress.cursor.before progress.tokens

/-- A token that is taken accounts for what is passed with it. -/
theorem Accounts.accept {line : SourceLine} {progress later : Progress} {request : Request}
    {token : Token} (h : Accounts line progress) (hsolid : request.Solid)
    (haccept : progress.accept request = some (token, later)) : Accounts line later := by
  have htokens := tokens_of_accept haccept
  rw [accept_eq, Option.map_eq_some_iff] at haccept
  obtain ⟨lexeme, hlexeme, he⟩ := haccept
  obtain ⟨rfl, rfl⟩ := Prod.mk.inj he
  obtain ⟨horigin, hnumber, hcontent⟩ := progress.cursor.ready_line request
  obtain ⟨gap, hbefore, hgap⟩ := progress.cursor.before_ready request
  have hposition := (progress.cursor.ready request).position_eq
  have hoffset := (progress.cursor.ready request).offset_eq
  rw [← utf8Length_reverse] at hoffset
  rw [progress.cursor.position_eq, h.origin] at hgap
  refine ⟨horigin.trans h.origin, hnumber.trans h.number, ?_, ?_⟩
  · exact (Cursor.content_advance _ _).trans (hcontent.trans h.content)
  · have htext : ((progress.cursor.ready request).token lexeme).text.toList =
        (progress.cursor.ready request).rest.take lexeme.count := String.toList_ofList
    rw [htokens, Cursor.before_advance, hbefore, List.append_assoc, ← htext]
    refine .token h.spells hgap ?_ ?_
    · rw [htext]
      exact hsolid _ _ _ hlexeme
    · have hlength : (progress.cursor.ready request).offset =
          utf8Length (progress.cursor.before ++ gap) := hoffset.trans (congrArg _ hbefore)
      rw [htext, SourceLine.spanBehind, Cursor.token, hposition, hbefore, horigin, h.origin,
        hnumber, h.number, hlength]

/-- Every progress that is reached on a line accounts for what it has passed. -/
theorem Reaches.accounts {line : SourceLine} {progress : Progress}
    (h : line.progress.Reaches progress) : progress.Accounts line := by
  induction h with
  | start => exact ⟨rfl, rfl, rfl, .nil⟩
  | accept _ hsolid haccept ih => exact ih.accept hsolid haccept

end Progress

/-- Where the last of some tokens stops, or the given byte if there is none. -/
def lastStop (start : Nat) (tokens : List Token) : Nat :=
  (tokens.getLast?.map fun token => token.span.stop).getD start

/-- Nothing but blanks stands between two bytes of a text, apart from a mark at its
very start. -/
def BlankBetween (text : List Char) (start stop : Nat) : Prop :=
  Blanks (lineText (start = 0) (sliceBytes start stop text))

/-- The tokens of a statement account for its line, of which the content ends at byte
`contentEnd` of the text. -/
structure Statement.Accounted (statement : Statement) (text : List Char) (contentEnd : Nat) :
    Prop where
  /-- The tokens stand in source order and do not overlap. -/
  ordered : statement.tokens.Pairwise fun first second => first.span.stop ≤ second.span.start
  /-- No token is empty or reaches out of the content. -/
  inside : ∀ token ∈ statement.tokens, statement.span.start ≤ token.span.start ∧
    token.span.start < token.span.stop ∧ token.span.stop ≤ contentEnd
  /-- A token is the piece of the text between the ends of its span. -/
  spelled : ∀ token ∈ statement.tokens, isBoundary token.span.start text = true ∧
    isBoundary token.span.stop text = true ∧
    token.text.toList = sliceBytes token.span.start token.span.stop text
  /-- A token has the line of its statement and the column of its first byte. -/
  placed : ∀ token ∈ statement.tokens, token.span.line = statement.span.line ∧
    token.span.column = token.span.start - statement.span.start + 1
  /-- Only blanks stand before the first token and between two tokens. -/
  parted : ∀ (index : Nat) (token : Token), statement.tokens[index]? = some token →
    BlankBetween text (lastStop statement.span.start (statement.tokens.take index))
      token.span.start
  /-- Only blanks stand behind the last token, unless the line is malformed. -/
  closed : statement.node.kind ≠ .malformed →
    BlankBetween text (lastStop statement.span.start statement.tokens) contentEnd

namespace Spells

variable {line : SourceLine} {before : List Char} {tokens : List Token}

/-- The tokens stop where they have spelled the line to. -/
theorem lastStop_eq (h : Spells line before tokens) :
    lastStop line.origin tokens = line.origin + utf8Length before := by
  cases h with
  | nil => rfl
  | token _ _ _ hspan =>
    rw [lastStop, List.getLast?_concat, Option.map_some, Option.getD_some, hspan,
      ← List.append_assoc, utf8Length_append _ (Token.text _).toList, ← Nat.add_assoc]
    rfl

/-- Every token is a piece of the line, at its place. -/
theorem exists_piece (h : Spells line before tokens) :
    ∀ token ∈ tokens, ∃ ahead behind, before = ahead ++ (token.text.toList ++ behind) ∧
      token.text.toList ≠ [] ∧ token.span = line.spanBehind ahead token.text.toList := by
  induction h with
  | nil => simp
  | @token before gap tokens token _ _ hne hspan ih =>
    intro other hmem
    rcases List.mem_append.mp hmem with hmem | hmem
    · obtain ⟨ahead, behind, rfl, hother⟩ := ih other hmem
      exact ⟨ahead, behind ++ (gap ++ token.text.toList), by simp [List.append_assoc], hother⟩
    · obtain rfl := List.mem_singleton.mp hmem
      exact ⟨before ++ gap, [], by simp [List.append_assoc], hne, hspan⟩

/-- No token goes back behind the one before it. -/
theorem ordered (h : Spells line before tokens) :
    tokens.Pairwise fun first second => first.span.stop ≤ second.span.start := by
  induction h with
  | nil => exact List.Pairwise.nil
  | @token before gap tokens token hspells _ _ hspan ih =>
    refine List.pairwise_append.mpr ⟨ih, List.pairwise_singleton _ _, ?_⟩
    intro first hfirst second hsecond
    obtain rfl := List.mem_singleton.mp hsecond
    obtain ⟨ahead, behind, rfl, -, hplace⟩ := hspells.exists_piece first hfirst
    rw [hplace, hspan]
    simp only [SourceLine.spanBehind, utf8Length_append]
    omega

/-- What stands before a token, back to the one before it, is blank. -/
theorem exists_gap (h : Spells line before tokens) {index : Nat} {token : Token}
    (hget : tokens[index]? = some token) :
    ∃ ahead gap behind, before = ahead ++ (gap ++ behind) ∧
      lastStop line.origin (tokens.take index) = line.origin + utf8Length ahead ∧
      token.span.start = line.origin + utf8Length (ahead ++ gap) ∧
      Blanks (lineText (line.origin + utf8Length ahead = 0) gap) := by
  induction h with
  | nil => simp at hget
  | @token before gap tokens last hspells hgap _ hspan ih =>
    rcases Nat.lt_or_ge index tokens.length with hlt | hge
    · rw [List.getElem?_append_left hlt] at hget
      obtain ⟨ahead, blanks, behind, rfl, hstop, hstart, hblanks⟩ := ih hget
      refine ⟨ahead, blanks, behind ++ (gap ++ last.text.toList), by simp [List.append_assoc],
        ?_, hstart, hblanks⟩
      rw [List.take_append_of_le_length (Nat.le_of_lt hlt), hstop]
    · rw [List.getElem?_append_right hge, List.getElem?_singleton] at hget
      obtain ⟨hindex, hlast⟩ := Option.ite_none_right_eq_some.mp hget
      obtain rfl := Option.some.inj hlast
      obtain rfl : index = tokens.length := by omega
      refine ⟨before, gap, last.text.toList, rfl, ?_, by rw [hspan, SourceLine.spanBehind], hgap⟩
      rw [List.take_left, hspells.lastStop_eq]

end Spells

/-- A text has a line at its place. -/
def SourceLine.LiesIn (line : SourceLine) (text : List Char) : Prop :=
  ∃ prior after, text = prior ++ (line.content ++ after) ∧ utf8Length prior = line.origin

namespace SourceLine.LiesIn

variable {line : SourceLine} {text ahead piece behind : List Char}

/-- A piece of a line is the slice of the text between its ends, which are boundaries. -/
theorem slice (h : line.LiesIn text) (hcontent : line.content = ahead ++ (piece ++ behind)) :
    isBoundary (line.origin + utf8Length ahead) text = true ∧
      isBoundary (line.origin + utf8Length (ahead ++ piece)) text = true ∧
      sliceBytes (line.origin + utf8Length ahead) (line.origin + utf8Length (ahead ++ piece))
        text = piece := by
  obtain ⟨prior, after, rfl, hprior⟩ := h
  have htext : prior ++ (line.content ++ after) =
      (prior ++ ahead) ++ (piece ++ (behind ++ after)) := by
    rw [hcontent]
    simp only [List.append_assoc]
  have hstart : line.origin + utf8Length ahead = utf8Length (prior ++ ahead) := by
    rw [utf8Length_append, hprior]
  have hstop : line.origin + utf8Length (ahead ++ piece) =
      utf8Length ((prior ++ ahead) ++ piece) := by
    rw [List.append_assoc, utf8Length_append prior, hprior]
  rw [htext, hstart, hstop]
  refine ⟨isBoundary_iff.mpr ⟨_, _, rfl, rfl⟩, ?_, sliceBytes_append _ _ _⟩
  exact isBoundary_iff.mpr ⟨_, behind ++ after, (List.append_assoc _ _ _).symm, rfl⟩

/-- A blank piece of a line is blank in the text. -/
theorem blankBetween (h : line.LiesIn text) (hcontent : line.content = ahead ++ (piece ++ behind))
    (hblanks : Blanks (lineText (line.origin + utf8Length ahead = 0) piece)) :
    BlankBetween text (line.origin + utf8Length ahead)
      (line.origin + utf8Length (ahead ++ piece)) := by
  rw [BlankBetween, (h.slice hcontent).2.2]
  exact hblanks

end SourceLine.LiesIn

namespace Reader

/-- The statement of a line accounts for it. A line that is no error is read to its end, and so only
blanks are left behind its last token. -/
theorem accounted_readStatement {origin number : Nat} {line : Line} {text : List Char}
    (h : SourceLine.LiesIn ⟨origin, number, line.content⟩ text) :
    (readStatement origin number line).Accounted text (origin + utf8Length line.content) := by
  obtain ⟨progress, hreaches, htokens, hclosed⟩ := readTo_readLine ⟨origin, number, line.content⟩
  have haccounts := hreaches.accounts
  have hspells := haccounts.spells
  have hcontent : line.content = progress.cursor.before ++ progress.cursor.rest :=
    haccounts.content.symm
  have hlength := congrArg utf8Length hcontent
  rw [utf8Length_append] at hlength
  have hpieces := hspells.exists_piece
  constructor
  all_goals simp only [readStatement, htokens]
  case ordered => exact hspells.ordered
  case inside =>
    intro token hmem
    obtain ⟨ahead, behind, hbefore, hne, hspan⟩ := hpieces token hmem
    have hpos := utf8Length_pos hne
    have hcut := congrArg utf8Length hbefore
    rw [utf8Length_append, utf8Length_append] at hcut
    simp only [hspan, SourceLine.spanBehind]
    omega
  case spelled =>
    intro token hmem
    obtain ⟨ahead, behind, hbefore, -, hspan⟩ := hpieces token hmem
    have hcut : line.content =
        ahead ++ (token.text.toList ++ (behind ++ progress.cursor.rest)) := by
      rw [hcontent, hbefore]
      simp only [List.append_assoc]
    have hslice := h.slice hcut
    rw [utf8Length_append, ← Nat.add_assoc] at hslice
    rw [hspan, SourceLine.spanBehind]
    exact ⟨hslice.1, hslice.2.1, hslice.2.2.symm⟩
  case placed =>
    intro token hmem
    obtain ⟨ahead, behind, -, -, hspan⟩ := hpieces token hmem
    simp [hspan, SourceLine.spanBehind]
  case parted =>
    intro index token hget
    obtain ⟨ahead, gap, behind, hbefore, hstop, hstart, hblanks⟩ := hspells.exists_gap hget
    have hcut : line.content = ahead ++ (gap ++ (behind ++ progress.cursor.rest)) := by
      rw [hcontent, hbefore]
      simp only [List.append_assoc]
    rw [hstart, hstop]
    exact h.blankBetween hcut hblanks
  case closed =>
    intro hkind
    have hblanks := Cursor.blanks_rest (hclosed hkind)
    rw [Cursor.position_eq, haccounts.origin] at hblanks
    have hcut : line.content = progress.cursor.before ++ (progress.cursor.rest ++ []) := by
      rw [List.append_nil, hcontent]
    have hlast := h.blankBetween hcut hblanks
    rw [hspells.lastStop_eq, hcontent]
    exact hlast

end Reader

namespace Program

/-- The tokens of every statement of a text account for the line of the statement. -/
theorem accounted_parse {text : String} {index : Nat} {statement : Statement}
    (h : (parse text).statements[index]? = some statement) :
    ∃ line, (lines text.toList)[index]? = some line ∧
      statement.span.start = utf8Length (((lines text.toList).take index).flatMap Line.toList) ∧
      statement.span.stop = statement.span.start + utf8Length line.toList ∧
      statement.Accounted text.toList (statement.span.start + utf8Length line.content) := by
  rw [parse, Reader.getElem?_readLines, Option.map_eq_some_iff] at h
  obtain ⟨line, hline, rfl⟩ := h
  refine ⟨line, hline, Nat.zero_add _, rfl, Reader.accounted_readStatement ?_⟩
  obtain ⟨hlt, hget⟩ := List.getElem?_eq_some_iff.mp hline
  refine ⟨((lines text.toList).take index).flatMap Line.toList,
    line.terminator ++ ((lines text.toList).drop (index + 1)).flatMap Line.toList, ?_,
    (Nat.zero_add _).symm⟩
  calc text.toList = (lines text.toList).flatMap Line.toList :=
        (flatMap_toList_lines text.toList).symm
    _ = ((lines text.toList).take index ++ (lines text.toList).drop index).flatMap
          Line.toList := by rw [List.take_append_drop]
    _ = _ := by
      rw [List.drop_eq_getElem_cons hlt, hget, List.flatMap_append, List.flatMap_cons,
        Line.toList, List.append_assoc]

/-- A marked text with a setting and a malformed binding. -/
def markedText : String := "\uFEFFset\tx 1\r\nbind --mode=hint 12"

/-- The tokens of the malformed line of `markedText` account for it. -/
theorem accounted_parse_markedText :
    ∃ statement, (parse markedText).statements[1]? = some statement ∧
      ∃ line, (lines markedText.toList)[1]? = some line ∧
        statement.span.start =
          utf8Length (((lines markedText.toList).take 1).flatMap Line.toList) ∧
        statement.span.stop = statement.span.start + utf8Length line.toList ∧
        statement.Accounted markedText.toList
          (statement.span.start + utf8Length line.content) :=
  have hstatement : (parse markedText).statements[1]?.isSome = true := by decide +kernel
  ⟨_, Option.eq_some_of_isSome hstatement, accounted_parse (Option.eq_some_of_isSome hstatement)⟩

end Program

end RcScript
