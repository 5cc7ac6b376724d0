import RcScript.Proofs.ByteChange

/-!
# Looking up by offset

Spans in source order that do not overlap cover an offset once at most. Halving the
statements of a program therefore finds what a search of all of them would, and the
tokens of the statement found stand for those of the whole program. Every byte of a
text is covered by a statement. That a token covers it is not claimed, since blanks,
terminators and what a malformed line holds behind its tokens belong to none. All of this
holds of programs that have come about by reading again as well.
-/

namespace RcScript

open Text

/-- A span covers the offsets from its start up to its end, and not the end itself. -/
theorem Span.contains_iff {span : Span} {offset : Nat} :
    span.contains offset = true ↔ span.start ≤ offset ∧ offset < span.stop := by
  rw [Span.contains, Bool.and_eq_true, decide_eq_true_eq, decide_eq_true_eq]

/-- The spans of some items stand in source order and do not overlap. -/
def InOrder {α : Type} (span : α → Span) (items : List α) : Prop :=
  items.Pairwise fun first second => (span first).stop ≤ (span second).start

/-- Of spans that do not overlap, the first that covers an offset is the only one. -/
theorem InOrder.filter_contains {α : Type} {span : α → Span} {items : List α}
    (h : InOrder span items) (offset : Nat) :
    (items.filter fun item => (span item).contains offset) =
      (items.find? fun item => (span item).contains offset).toList := by
  induction h with
  | nil => rfl
  | @cons first later hfirst _ ih =>
    by_cases hcovers : (span first).contains offset = true
    · have hnone : (later.filter fun item => (span item).contains offset) = [] := by
        refine List.filter_eq_nil_iff.mpr fun item hmem hlater => ?_
        have hle := hfirst item hmem
        rw [Span.contains_iff] at hcovers hlater
        omega
      rw [List.filter_cons, if_pos hcovers, hnone, List.find?_cons, hcovers, Option.toList_some]
    · rw [Bool.not_eq_true] at hcovers
      rw [List.filter_cons, hcovers, if_neg Bool.false_ne_true, ih, List.find?_cons, hcovers]

namespace Reader

/-- The statements of a block cover the bytes of the block and no others. -/
theorem exists_contains_iff {origin number offset : Nat} {block : List Line} :
    (∃ statement ∈ readLines origin number block, statement.span.contains offset = true) ↔
      origin ≤ offset ∧ offset < origin + utf8Length (block.flatMap Line.toList) := by
  induction block generalizing origin number with
  | nil =>
    simp only [readLines, List.not_mem_nil, false_and, exists_false, List.flatMap_nil,
      utf8Length_nil, false_iff]
    omega
  | cons line later ih =>
    have hfirst : (readStatement origin number line).span.contains offset = true ↔
        origin ≤ offset ∧ offset < origin + utf8Length line.toList := Span.contains_iff
    simp only [readLines, List.mem_cons, exists_eq_or_imp, hfirst, ih, List.flatMap_cons,
      utf8Length_append]
    omega

/-- No statement of a block starts before it. -/
theorem le_start_of_mem_readLines {origin number : Nat} {block : List Line}
    {statement : Statement} (h : statement ∈ readLines origin number block) :
    origin ≤ statement.span.start := by
  induction block generalizing origin number with
  | nil => simp [readLines] at h
  | cons line later ih =>
    rcases List.mem_cons.mp h with rfl | hmem
    · exact Nat.le_refl _
    · have hle := ih hmem
      omega

/-- The statements of a block stand in source order. -/
theorem inOrder_readLines (origin number : Nat) (block : List Line) :
    InOrder Statement.span (readLines origin number block) := by
  induction block generalizing origin number with
  | nil => exact List.Pairwise.nil
  | cons line later ih =>
    exact List.pairwise_cons.mpr ⟨fun _ hmem => le_start_of_mem_readLines hmem, ih _ _⟩

end Reader

namespace Program

/-- An offset cuts statements in source order into those that end by it and those that
do not. -/
theorem exists_ended_of_inOrder {statements : List Statement}
    (hordered : InOrder Statement.span statements)
    (hforward : ∀ statement ∈ statements, statement.span.start ≤ statement.span.stop)
    (offset : Nat) :
    ∃ front back, statements = front ++ back ∧
      (∀ statement ∈ front, statement.span.stop ≤ offset) ∧
      ∀ statement ∈ back, offset < statement.span.stop := by
  induction hordered with
  | nil => exact ⟨[], [], rfl, by simp, by simp⟩
  | @cons first later hfirst _ ih =>
    rw [List.forall_mem_cons] at hforward
    by_cases hended : first.span.stop ≤ offset
    · obtain ⟨front, back, rfl, hfront, hback⟩ := ih hforward.2
      exact ⟨first :: front, back, rfl, List.forall_mem_cons.mpr ⟨hended, hfront⟩, hback⟩
    · refine ⟨[], first :: later, rfl, by simp, List.forall_mem_cons.mpr ⟨by omega, ?_⟩⟩
      intro statement hmem
      have hstart := hfirst statement hmem
      have hstop := hforward.2 statement hmem
      omega

/-- Where no statement ends before it starts and they stand in source order, halving
finds the first that covers an offset. An offset that the statement found does not cover lies before
it, and so before all that follow. -/
theorem statementAt?_eq_find? {program : Program}
    (hordered : InOrder Statement.span program.statements)
    (hforward : ∀ statement ∈ program.statements, statement.span.start ≤ statement.span.stop)
    (offset : Nat) :
    program.statementAt? offset =
      program.statements.find? fun statement => statement.span.contains offset := by
  obtain ⟨front, back, hcut, hfront, hback⟩ := exists_ended_of_inOrder hordered hforward offset
  have hfind : (front.find? fun statement => statement.span.contains offset) = none := by
    refine List.find?_eq_none.mpr fun statement hmem hcovers => ?_
    have hstop := hfront statement hmem
    rw [Span.contains_iff] at hcovers
    omega
  rw [statementAt?, endedBy_eq hcut hfront hback, hcut, List.getElem?_append_right (Nat.le_refl _),
    Nat.sub_self, List.find?_append, hfind, Option.none_or]
  cases back with
  | nil => rfl
  | cons next later =>
    rw [List.getElem?_cons_zero, List.find?_cons]
    by_cases hcovers : next.span.contains offset = true
    · rw [Option.filter_some, hcovers, if_pos rfl]
    · have hnone : (later.find? fun statement => statement.span.contains offset) = none := by
        rw [hcut] at hordered
        have hlater := (List.pairwise_cons.mp (List.pairwise_append.mp hordered).2.1).1
        have hopen := hback next List.mem_cons_self
        refine List.find?_eq_none.mpr fun statement hmem hcontains => ?_
        have hstart := hlater statement hmem
        rw [Span.contains_iff] at hcovers hcontains
        omega
      rw [Bool.not_eq_true] at hcovers
      rw [Option.filter_some, hcovers, if_neg Bool.false_ne_true, hnone]

/-- The tokens of a statement of a text account for its line. -/
theorem exists_accounted {text : String} {statement : Statement}
    (h : statement ∈ (parse text).statements) :
    ∃ contentEnd, contentEnd ≤ statement.span.stop ∧
      statement.Accounted text.toList contentEnd := by
  obtain ⟨index, hindex⟩ := List.mem_iff_getElem?.mp h
  obtain ⟨line, hline, rfl⟩ := exists_line hindex
  refine ⟨_, ?_, Reader.accounted_readStatement (Line.liesIn_lines hline (index + 1))⟩
  simp only [Reader.readStatement, Line.toList, utf8Length_append]
  omega

/-- Looking up an offset of a text finds what a search of all statements and of all
tokens would. -/
structure LooksUp (program : Program) (text : String) (offset : Nat) : Prop where
  /-- A statement is found for every byte of the text and for no other offset. -/
  found : (program.statementAt? offset).isSome = true ↔ offset < utf8Length text.toList
  /-- The statement found is the one and only one that covers the offset. -/
  only : (program.statements.filter fun statement => statement.span.contains offset) =
    (program.statementAt? offset).toList
  /-- The statement found has a token for every offset that one of its tokens covers. -/
  tokenFound : ∀ statement ∈ program.statementAt? offset,
    ((statement.tokenAt? offset).isSome = true ↔
      ∃ token ∈ statement.tokens, token.span.contains offset = true)
  /-- The token found is the one and only one of the program that covers the offset. -/
  tokenOnly : (program.tokens.filter fun token => token.span.contains offset) =
    ((program.statementAt? offset).bind fun statement => statement.tokenAt? offset).toList
  /-- The text has at the offset the byte that the token has at the same distance from its
  start. -/
  byte : ∀ statement ∈ program.statementAt? offset, ∀ token ∈ statement.tokenAt? offset,
    ∃ byte, byteAt? offset text.toList = some byte ∧
      byteAt? (offset - token.span.start) token.text.toList = some byte

/-- The tokens that cover an offset are those of the statements that cover it. -/
theorem filter_tokens (text : String) (offset : Nat) :
    ((parse text).tokens.filter fun token => token.span.contains offset) =
      ((parse text).statements.filter fun statement => statement.span.contains offset).flatMap
        fun statement => (statement.tokenAt? offset).toList := by
  have hstatements : ∀ statement ∈ (parse text).statements,
      (statement.tokens.filter fun token => token.span.contains offset) =
        if statement.span.contains offset = true then (statement.tokenAt? offset).toList
        else [] := by
    intro statement hmem
    obtain ⟨contentEnd, hend, haccounted⟩ := exists_accounted hmem
    split
    · exact InOrder.filter_contains haccounted.ordered offset
    · next hcovers =>
      refine List.filter_eq_nil_iff.mpr fun token htoken hcontains => ?_
      have hinside := haccounted.inside token htoken
      rw [Span.contains_iff] at hcovers hcontains
      omega
  rw [tokens]
  generalize (parse text).statements = statements at hstatements
  induction statements with
  | nil => rfl
  | cons first later ih =>
    rw [List.forall_mem_cons] at hstatements
    rw [List.flatMap_cons, List.filter_append, ih hstatements.2, hstatements.1, List.filter_cons]
    split
    · rw [List.flatMap_cons]
    · rw [List.nil_append]

/-- Every offset is looked up in a text that was parsed as a whole. -/
theorem looksUp_statements (text : String) (offset : Nat) : (parse text).LooksUp text offset := by
  have hordered : InOrder Statement.span (parse text).statements := Reader.inOrder_readLines 0 1 _
  have hforward : ∀ statement ∈ (parse text).statements,
      statement.span.start ≤ statement.span.stop :=
    fun statement hmem => (spansWithin_statements text statement hmem).span.ordered
  have hfind := statementAt?_eq_find? hordered hforward offset
  have honly := hordered.filter_contains offset
  rw [← hfind] at honly
  constructor
  case found =>
    rw [hfind, List.find?_isSome, parse, Reader.exists_contains_iff, flatMap_toList_lines]
    omega
  case only => exact honly
  case tokenFound =>
    intro statement _
    rw [Statement.tokenAt?, List.find?_isSome]
  case tokenOnly =>
    rw [filter_tokens, honly]
    cases (parse text).statementAt? offset with
    | none => rfl
    | some statement => exact List.append_nil _
  case byte =>
    intro statement hstatement token htoken
    rw [hfind] at hstatement
    obtain ⟨_, -, haccounted⟩ := exists_accounted (List.mem_of_find?_eq_some hstatement)
    rw [Option.mem_def, Statement.tokenAt?] at htoken
    have hmem := List.mem_of_find?_eq_some htoken
    have hcovers := List.find?_some htoken
    rw [Span.contains_iff] at hcovers
    obtain ⟨hstart, hstop, hspelled⟩ := haccounted.spelled token hmem
    have hinside := haccounted.inside token hmem
    have hslice : slice? token.span.start token.span.stop text.toList =
        some token.text.toList :=
      slice?_eq_some_iff.mpr ⟨by omega, le_of_isBoundary hstop, hstart, hstop, hspelled.symm⟩
    exact exists_byteAt?_of_slice? hslice hcovers.1 hcovers.2

/-- The programs of a text: what reading it gives, and what reading again gives for it after
a change that describes how it differs from another text, if the old program is one of that
text. -/
inductive Current : Program → String → Prop
  | parse (text : String) : Current (parse text) text
  | reparse {program : Program} {old new : String} {change : Change} : Current program old →
      change.Describes old.toList new.toList → Current (program.reparse change new).program new

/-- A text has one program only, however it has come about. -/
theorem Current.eq_parse {program : Program} {text : String} (h : program.Current text) :
    program = Program.parse text := by
  induction h with
  | parse => rfl
  | reparse _ hchange ih => rw [ih, reparse_of_describes hchange]

/-- In every program of a text, looking up an offset finds what a search of all statements
and of all tokens would. -/
theorem Current.looksUp {program : Program} {text : String} (h : program.Current text)
    (offset : Nat) : program.LooksUp text offset := by
  rw [h.eq_parse]
  exact looksUp_statements text offset

/-- The argument of a command is looked up where a comment has pushed it to, inside a
character of which the second byte has changed. -/
theorem Current.looksUp_accent :
    (((Program.parse "bind j echo \u00E9").reparse (Edit.change ⟨0, 0, "\" q\n"⟩)
        (Edit.apply ⟨0, 0, "\" q\n"⟩ "bind j echo \u00E9")).program.reparse ⟨17, 18, 1⟩
      "\" q\nbind j echo \u00E8").program.LooksUp "\" q\nbind j echo \u00E8" 17 :=
  have hfits : Edit.fits ⟨0, 0, "\" q\n"⟩ "bind j echo \u00E9" = true := by decide +kernel
  have hchange : Change.Describes ⟨17, 18, 1⟩
      (Edit.apply ⟨0, 0, "\" q\n"⟩ "bind j echo \u00E9").toList
      "\" q\nbind j echo \u00E8".toList :=
    ⟨by decide, by decide +kernel, [0xA8], rfl, by decide +kernel⟩
  (Current.reparse (.reparse (.parse _) (Edit.describes hfits)) hchange).looksUp 17

example : (((Program.parse "\" q\nset a 12\r\n").statementAt? 11).bind
    fun statement => statement.tokenAt? 11) = some ⟨.number, "12", ⟨10, 12, 2, 7⟩⟩ := by
  decide +kernel

end Program

end RcScript
