import RcScript.Proofs.DiagnosticPlace
import RcScript.Proofs.DiagnosticReach

/-!
# Reports of nothing that shows

What a diagnostic reports as found is a part of what is left where its line fails, and more
than blanks is left there. The first word of it shows. Behind a complete statement all of it
is reported, however, less the white space at its end, and white space need not be blank.
So nothing is reported where nothing but white space is left, as for a no-break space behind
an unbinding. It is shown that nothing is reported in no other case. The lines are described
by the statements that they would be without the gap and the white space at their end.
-/

namespace RcScript

open Text

/-- The kinds of statements that can end before their line. -/
def StatementKind.endingEarly : List StatementKind :=
  [.aliasDef, .autocontain, .unbinding, .quickmark, .setting]

/-- A line that goes on behind a complete statement and a gap with white space alone, of which the
first character is no blank. -/
def TrailsOff (l : List Char) : Prop :=
  ∃ core gap white node, l = core ++ (gap ++ white) ∧ Denotes core node ∧
    node.kind ∈ StatementKind.endingEarly ∧ Gap gap ∧ Visible white ∧
    ∀ c ∈ white, isWhiteSpace c = true

/-- A statement ends early exactly if its keyword does. -/
theorem endingEarly_iff {keyword : Keyword} {cs : List Char} {node : Node}
    (h : Clause keyword cs node) :
    node.kind ∈ StatementKind.endingEarly ↔ keyword.endsEarly = true := by
  have hkind : node.kind = keyword.statementKind := by cases h <;> rfl
  rw [hkind]
  cases keyword <;> decide

/-- What is behind a first part of a text does not matter to a field that ends before the text. -/
theorem FieldEnd.exchange {piece rest after : List Char} (h : FieldEnd (piece ++ rest))
    (hafter : FieldEnd after) : FieldEnd (piece ++ after) := by
  cases piece with
  | nil => exact hafter
  | cons c piece => exact fieldEnd_cons.mpr (fieldEnd_cons.mp h)

/-- What stands in front of the rest of a text is a phrase in front of any text that a field can
end before. -/
def Fronts (Phrase : List Char → List Char → Prop) (cs rest : List Char) : Prop :=
  ∃ front, cs = front ++ rest ∧ ∀ after, FieldEnd after → Phrase (front ++ after) after

namespace Fronts

variable {First Second : List Char → List Char → Prop} {cs mid rest : List Char}

/-- A front of one phrase is a front of every phrase that follows from it. -/
theorem imp (h : Fronts First cs rest) (himp : ∀ cs rest, First cs rest → Second cs rest) :
    Fronts Second cs rest := by
  obtain ⟨front, hcs, hfront⟩ := h
  exact ⟨front, hcs, fun after hafter => himp _ _ (hfront after hafter)⟩

/-- One phrase behind the other. -/
theorem trans (h : Fronts First cs mid) (h' : Fronts Second mid rest) (hend : FieldEnd mid) :
    Fronts (fun cs rest => ∃ mid, First cs mid ∧ Second mid rest) cs rest := by
  obtain ⟨front, rfl, hfront⟩ := h
  obtain ⟨later, rfl, hlater⟩ := h'
  refine ⟨front ++ later, (List.append_assoc _ _ _).symm, fun after hafter => ?_⟩
  rw [List.append_assoc]
  exact ⟨later ++ after, hfront _ (hend.exchange hafter), hlater after hafter⟩

end Fronts

section

variable {cs rest : List Char} {text : String}

/-- Behind a field a field can end. -/
theorem Field.fieldEnd (h : Field cs text rest) : FieldEnd rest := by
  obtain ⟨-, -, -, hend⟩ := h
  exact hend

/-- A field is one in front of any text that a field can end before. -/
theorem Field.fronts (h : Field cs text rest) :
    Fronts (fun cs rest => Field cs text rest) cs rest := by
  obtain ⟨gap, hgap, rfl, -⟩ := h
  refine ⟨gap ++ text.toList, (List.append_assoc _ _ _).symm, fun after hafter => ?_⟩
  exact ⟨gap, hgap, List.append_assoc _ _ _, hafter⟩

/-- A field of a pattern is one in front of any text that a field can end before. -/
theorem PatternField.fronts {pattern : Pattern} (h : PatternField pattern cs text rest) :
    Fronts (fun cs rest => PatternField pattern cs text rest) cs rest :=
  h.1.fronts.imp fun _ _ hfield => ⟨hfield, h.2⟩

/-- Fields in sequence are such in front of any text that a field can end before. -/
theorem Fields.fronts {texts : List String} (h : Fields cs texts rest) :
    Fronts (fun cs rest => Fields cs texts rest) cs rest := by
  induction h with
  | nil => exact ⟨[], rfl, fun _ _ => .nil⟩
  | cons hfield _ ih =>
    refine (hfield.fronts.trans ih hfield.fieldEnd).imp ?_
    rintro cs rest ⟨mid, hfield, hfields⟩
    exact .cons hfield hfields

/-- A key is one in front of any text that a field can end before. -/
theorem KeyField.fronts {key : Key} (h : KeyField cs key rest) :
    Fronts (fun cs rest => KeyField cs key rest) cs rest :=
  h.1.fronts.imp fun _ _ hfield => ⟨hfield, h.2⟩

/-- A mode, or none, is read in front of any text that a field can end before. -/
theorem ModeField.fronts {mode? : Option Mode} (h : ModeField cs mode? rest) :
    Fronts (fun cs rest => ModeField cs mode? rest) cs rest := by
  cases h with
  | absent => exact ⟨[], rfl, fun _ _ => .absent⟩
  | present hfield => exact hfield.fronts.imp fun _ _ => .present

/-- Behind a mode a field can end, and where there is none it can end where it did. -/
theorem ModeField.fieldEnd {mode? : Option Mode} (h : ModeField cs mode? rest)
    (hend : FieldEnd cs) : FieldEnd rest := by
  cases h with
  | absent => exact hend
  | present hfield => exact hfield.fieldEnd

/-- A flag with its pattern is one in front of any text that a field can end before. -/
theorem Grammar.ContainField.fronts {shown : ContainFlag × String}
    (h : Grammar.ContainField cs shown rest) :
    Fronts (fun cs rest => Grammar.ContainField cs shown rest) cs rest := by
  obtain ⟨mid, hflag, hpattern⟩ := h
  exact hflag.fronts.trans hpattern.fronts hflag.fieldEnd

/-- Behind a flag with its pattern a field can end. -/
theorem Grammar.ContainField.fieldEnd {shown : ContainFlag × String}
    (h : Grammar.ContainField cs shown rest) : FieldEnd rest := by
  obtain ⟨mid, -, hpattern⟩ := h
  exact hpattern.1.fieldEnd

end

/-- Where no word of some patterns is next, none of fewer patterns is. -/
theorem NoField.subset {allowed others : List Pattern} {cs : List Char}
    (h : NoField (PatternWord allowed) cs) (hsub : others ⊆ allowed) :
    NoField (PatternWord others) cs := by
  rintro text rest kind hfield ⟨pattern, hmem, hkind, hlang⟩
  exact h text rest kind hfield ⟨pattern, hsub hmem, hkind, hlang⟩

/-- A clause that runs no command is the same in front of any text that a field can end before, if
no word that the clause could take is next there. -/
theorem Grammar.ClauseTo.exists_front {keyword : Keyword} {cs rest : List Char} {node : Node}
    (h : ClauseTo keyword cs node rest) (hend : FieldEnd cs) :
    ∃ front, cs = front ++ rest ∧ ∀ after, FieldEnd after →
      NoField (PatternWord [.identifier, .number]) after →
      ClauseTo keyword (front ++ after) node after := by
  cases h with
  | aliasDef hname hfields hwords _ =>
    obtain ⟨front, rfl, hfront⟩ := hname.fronts.trans hfields.fronts hname.1.fieldEnd
    refine ⟨front, rfl, fun after hafter hno => ?_⟩
    obtain ⟨mid, hname, hfields⟩ := hfront after hafter
    exact .aliasDef hname hfields hwords (hno.subset (by simp))
  | autocontain hcontain hcontainer =>
    obtain ⟨front, rfl, hfront⟩ :=
      hcontain.fronts.trans hcontainer.fronts hcontain.fieldEnd
    refine ⟨front, rfl, fun after hafter _ => ?_⟩
    obtain ⟨mid, hcontain, hcontainer⟩ := hfront after hafter
    exact .autocontain hcontain hcontainer
  | unbinding hmode hkey =>
    obtain ⟨front, rfl, hfront⟩ := hmode.fronts.trans hkey.fronts (hmode.fieldEnd hend)
    refine ⟨front, rfl, fun after hafter _ => ?_⟩
    obtain ⟨mid, hmode, hkey⟩ := hfront after hafter
    exact .unbinding hmode hkey
  | quickmark hkey hurl =>
    obtain ⟨front, rfl, hfront⟩ := hkey.fronts.trans hurl.fronts hkey.1.fieldEnd
    refine ⟨front, rfl, fun after hafter _ => ?_⟩
    obtain ⟨mid, hkey, hurl⟩ := hfront after hafter
    exact .quickmark hkey hurl
  | setting hname hfields hvalues _ =>
    obtain ⟨front, rfl, hfront⟩ := hname.fronts.trans hfields.fronts hname.1.fieldEnd
    refine ⟨front, rfl, fun after hafter hno => ?_⟩
    obtain ⟨mid, hname, hfields⟩ := hfront after hafter
    exact .setting hname hfields hvalues hno

/-- White space opens no word of a clause. -/
theorem noField_of_white {after white : List Char} (h : after.dropWhile isBlank = white)
    (hwhite : ∀ c ∈ white, isWhiteSpace c = true) :
    NoField (PatternWord [.identifier, .number]) after := by
  rintro text rest kind hfield ⟨pattern, hmem, -, hlang⟩
  have htext := hfield.dropWhile_eq (Pattern.visible_of_lang hlang)
  have hword : IsWord text.toList := by
    simp only [List.mem_cons, List.not_mem_nil, or_false] at hmem
    rcases hmem with rfl | rfl
    · exact ⟨hlang.1, fun c hc => isWordChar_of_isNameChar (hlang.2 c hc)⟩
    · exact ⟨hlang.1, fun c hc =>
        isWordChar_of_isLabelChar (isLabelChar_of_isDigit (hlang.2 c hc))⟩
  obtain ⟨first, tail, hfirst, hchar⟩ := hword.exists_cons
  rw [h, hfirst] at htext
  have hnot := isWhiteSpace_of_isWordChar hchar
  rw [hwhite first (by rw [htext]; simp)] at hnot
  exact absurd hnot (by decide)

namespace Grammar

/-- What is left behind a clause that runs no command is behind a gap, and what is in front of
that is the clause. -/
theorem exists_clause_of_ofKeyword {keyword : Keyword} {progress later : Progress}
    {cs : List Char} {node : Node} (hsees : progress.Sees cs) (hend : FieldEnd cs)
    (h : ofKeyword keyword progress = (.ok node, later)) (hunread : later.cursor.unread ≠ []) :
    keyword.endsEarly = true ∧ ∃ front gap, cs = front ++ (gap ++ later.cursor.unread) ∧
      Gap gap ∧ Visible later.cursor.unread ∧ FieldEnd front ∧ Clause keyword front node := by
  have hearly : keyword.endsEarly = true := by
    cases hearly : keyword.endsEarly with
    | true => rfl
    | false => exact absurd (exhausts_ofKeyword hearly _ _ _ h) hunread
  obtain ⟨rest, hto, hrest, hlater⟩ := (realizes_clauseTo hearly).sound hsees hend h
  obtain ⟨front, rfl, hfront⟩ := hto.exists_front hend
  obtain ⟨first, tail, hcons⟩ := List.exists_cons_of_ne_nil hunread
  have hvisible : Visible later.cursor.unread :=
    ⟨first, tail, hcons, isBlank_of_dropWhile (hlater.symm.trans hcons)⟩
  obtain ⟨gap, hgap, hsplit⟩ := exists_gap hrest hvisible (hlater.symm.trans (List.append_nil _).symm)
  rw [List.append_nil] at hsplit
  have hnone := hfront [] fieldEnd_nil (noField_of_white List.dropWhile_nil (by simp))
  have hfieldEnd := hend.exchange fieldEnd_nil
  rw [List.append_nil] at hnone hfieldEnd
  refine ⟨hearly, front, gap, by rw [hsplit], hgap, hvisible, hfieldEnd, ?_⟩
  exact (clauseTo_iff hearly).mp ⟨[], hnone, blanks_nil⟩

/-- A clause that runs no command is read in front of a gap and white space, which is left. -/
theorem exists_ofKeyword_of_clause {keyword : Keyword} {progress : Progress}
    {front gap white : List Char} {node : Node} (hearly : keyword.endsEarly = true)
    (hclause : Clause keyword front node) (hend : FieldEnd front) (hgap : Gap gap)
    (hvisible : Visible white) (hwhite : ∀ c ∈ white, isWhiteSpace c = true)
    (hsees : progress.Sees (front ++ (gap ++ white))) :
    ∃ later, ofKeyword keyword progress = (.ok node, later) ∧ later.cursor.unread = white := by
  obtain ⟨blanks, hto, hblanks⟩ := (clauseTo_iff hearly).mpr hclause
  obtain ⟨core, rfl, hcore⟩ := hto.exists_front hend
  have hleft : (blanks ++ (gap ++ white)).dropWhile isBlank = white := by
    have hshown := dropWhile_visible hvisible []
    rw [List.append_nil] at hshown
    rw [dropWhile_blanks hblanks, dropWhile_blanks hgap.2, hshown]
  have hstop : FieldEnd (blanks ++ (gap ++ white)) := by
    rw [← List.append_assoc]
    have hall : Gap (blanks ++ gap) :=
      ⟨fun hnil => hgap.1 (List.append_eq_nil_iff.mp hnil).2, hblanks.append hgap.2⟩
    exact hall.fieldEnd white
  have hlonger := hcore _ hstop (noField_of_white hleft hwhite)
  rw [List.append_assoc] at hsees
  have hfirst : FieldEnd (core ++ (blanks ++ (gap ++ white))) := hend.exchange hstop
  obtain ⟨value, later, hread, rfl, -, hlater⟩ :=
    (realizes_clauseTo hearly).complete hsees hfirst hlonger
  exact ⟨later, hread, hlater.trans hleft⟩

/-- A statement stops behind its clause where something is left. -/
theorem statement_of_unread {keyword : Keyword} {progress later : Progress} {node : Node}
    (h : ofKeyword keyword progress = (.ok node, later)) (hunread : later.cursor.unread ≠ []) :
    statement keyword progress = (.error .trailing, later) := by
  have hatEnd : later.cursor.atEnd = false := by
    simpa [Cursor.atEnd, Cursor.skipBlanks_rest] using hunread
  simp only [statement, Bind.bind, h, Reading.finish, hatEnd, Bool.false_eq_true, if_false]

end Grammar

/-- The next word is no empty text. -/
theorem Cursor.nextWord?_ne (cursor : Cursor) : cursor.nextWord? ≠ some "" := by
  intro hnext
  rw [nextWord?] at hnext
  split at hnext
  · exact absurd hnext (by simp)
  · next hunread => exact ofList_firstWord_ne (by simpa using hunread) (Option.some.inj hnext)

namespace Reader

variable {line : SourceLine}

/-- A line that reports nothing has the clause of its keyword and then nothing but white space. -/
theorem exists_ofKeyword_of_empty {diagnostic : Diagnostic} {content : String}
    (h : (readLine line).2 = .malformed diagnostic content)
    (hfound : diagnostic.cause.found? = some "") :
    ∃ keyword opened node progress, keyword? line.progress = some (keyword, opened) ∧
      Grammar.ofKeyword keyword opened = (.ok node, progress) ∧ progress.cursor.unread ≠ [] ∧
      ∀ c ∈ progress.cursor.unread, isWhiteSpace c = true := by
  rcases cause_of_malformed h with ⟨keyword, opened, fault, progress, hkeyword, hread, hcause⟩ |
    ⟨hunread, hcause⟩
  · rw [hcause] at hfound
    rcases Grammar.fault_of_statement hread with ⟨expected, -, rfl⟩ | ⟨rfl, hunread⟩
    · exact absurd hfound progress.cursor.nextWord?_ne
    · obtain ⟨node, hclause⟩ := Grammar.exists_of_trailing hread
      have hnothing : trimEnd isWhiteSpace progress.cursor.unread = [] :=
        String.ofList_injective (Option.some.inj hfound)
      exact ⟨keyword, opened, node, progress, hkeyword, hclause, hunread,
        trimEnd_eq_nil_iff.mp hnothing⟩
  · rw [hcause] at hfound
    exact absurd (Option.some.inj hfound) (Cursor.ofList_firstWord_ne hunread)

/-- A line that reports nothing is a statement but for what it goes on with. -/
theorem trailsOff_of_empty {diagnostic : Diagnostic} {content : String}
    (h : (readLine line).2 = .malformed diagnostic content)
    (hfound : diagnostic.cause.found? = some "") : TrailsOff line.text := by
  obtain ⟨keyword, opened, node, progress, hkeyword, hread, hunread, hwhite⟩ :=
    exists_ofKeyword_of_empty h hfound
  obtain ⟨rest, hopens, hstands⟩ := keyword?_eq_some hkeyword
  obtain ⟨blanks, hblanks, hline, hend⟩ := hopens
  obtain ⟨hearly, front, gap, rfl, hgap, hvisible, hfront, hclause⟩ :=
    Grammar.exists_clause_of_ofKeyword hstands.sees hend hread hunread
  refine ⟨blanks ++ (keyword.literal.toList ++ front), gap, progress.cursor.unread, node, ?_, ?_,
    (endingEarly_iff hclause).mpr hearly, hgap, hvisible, hwhite⟩
  · rw [hline]
    simp only [List.append_assoc]
  · exact .statement ⟨blanks, hblanks, rfl, hfront⟩ hclause

/-- A line that is a statement and goes on with white space reports nothing. -/
theorem exists_empty_of_trailsOff (h : TrailsOff line.text) :
    ∃ diagnostic content, (readLine line).2 = .malformed diagnostic content ∧
      diagnostic.cause.found? = some "" := by
  obtain ⟨core, gap, white, node, hline, hdenotes, hkind, hgap, hvisible, hwhite⟩ := h
  cases hdenotes with
  | blank => exact absurd hkind (show StatementKind.blank ∉ StatementKind.endingEarly by decide)
  | comment =>
    exact absurd hkind (show StatementKind.comment ∉ StatementKind.endingEarly by decide)
  | exCommand =>
    exact absurd hkind (show StatementKind.exCommand ∉ StatementKind.endingEarly by decide)
  | @statement _ front keyword _ hopens hclause =>
    have hearly := (endingEarly_iff hclause).mp hkind
    obtain ⟨blanks, hblanks, rfl, hfront⟩ := hopens
    have hend : FieldEnd (front ++ (gap ++ white)) := by
      rw [← List.append_nil front] at hfront
      exact hfront.exchange (hgap.fieldEnd white)
    have hopened : Opens keyword line.text (front ++ (gap ++ white)) := by
      refine ⟨blanks, hblanks, ?_, hend⟩
      rw [hline]
      simp only [List.append_assoc]
    obtain ⟨opened, hkeyword, hstands⟩ := keyword?_of_opens hopened
    obtain ⟨later, hread, hleft⟩ := Grammar.exists_ofKeyword_of_clause hearly hclause hfront hgap
      hvisible hwhite hstands.sees
    have hfails := Grammar.statement_of_unread hread (hleft.symm ▸ hvisible.ne_nil)
    obtain ⟨first, tail, hliteral, hfirst⟩ := (isWord_literal keyword).exists_cons
    have hdrop := (opens_iff.mp hopened).dropWhile_eq (isWord_literal keyword).visible
    rw [hliteral, List.cons_append] at hdrop
    have hnothing : String.ofList (trimEnd isWhiteSpace later.cursor.unread) = "" := by
      rw [hleft, trimEnd_eq_nil_iff.mpr hwhite]
    refine ⟨⟨.trailing keyword.statementKind _, line.errorSpan, none⟩, String.ofList line.content,
      ?_, congrArg some hnothing⟩
    rw [readLine_of_word hdrop hfirst, readWords, hkeyword]
    simp only [hfails, conclude_error]
    rfl

end Reader

namespace Program

/-- The statement at a place of a program is malformed, and its diagnostic reports an empty text. -/
def ReportsEmpty (program : Program) (index : Nat) : Prop :=
  ∃ statement diagnostic content, program.statements[index]? = some statement ∧
    statement.node = .malformed diagnostic content ∧ diagnostic.cause.found? = some ""

/-- The line of a text at a place reports nothing exactly if it trails off. -/
theorem reportsEmpty_iff {text : String} {index : Nat} {line : Line}
    (h : (lines text.toList)[index]? = some line) :
    (parse text).ReportsEmpty index ↔ TrailsOff (lineText (index = 0) line.content) := by
  obtain ⟨hlt, -⟩ := List.getElem?_eq_some_iff.mp h
  have htext : lineText (index = 0) line.content = SourceLine.text
      ⟨utf8Length (((lines text.toList).take index).flatMap Line.toList), index + 1,
        line.content⟩ :=
    lineText_congr (origin_eq_zero_iff hlt).symm _
  rw [htext, ReportsEmpty, getElem?_statements, h]
  constructor
  · rintro ⟨statement, diagnostic, content, hstatement, hnode, hfound⟩
    obtain rfl := Option.some.inj hstatement
    exact Reader.trailsOff_of_empty hnode hfound
  · intro htrails
    obtain ⟨diagnostic, content, hnode, hfound⟩ := Reader.exists_empty_of_trailsOff htrails
    exact ⟨_, diagnostic, content, rfl, hnode, hfound⟩

/-- What is reported as found is no empty text if no statement reports one. -/
theorem found_ne_iff {program : Program} :
    (∀ diagnostic ∈ program.diagnostics, ∀ found ∈ diagnostic.cause.found?, found ≠ "") ↔
      ∀ index, ¬ program.ReportsEmpty index := by
  constructor
  · rintro hall index ⟨statement, diagnostic, content, hstatement, hnode, hfound⟩
    have hmem := List.mem_of_getElem? hstatement
    exact hall diagnostic (mem_diagnostics_iff.mpr ⟨statement, hmem, content, hnode⟩) "" hfound rfl
  · rintro hnone diagnostic hmem found hfound rfl
    obtain ⟨statement, hstatement, content, hnode⟩ := mem_diagnostics_iff.mp hmem
    obtain ⟨index, hindex⟩ := List.mem_iff_getElem?.mp hstatement
    exact hnone index ⟨statement, diagnostic, content, hindex, hnode, hfound⟩

/-- The diagnostic of a line of a text reports an empty text as found exactly where the line trails
off in white space. A text has no such diagnostic exactly if none of its lines does. -/
theorem reports_empty_iff (text : String) :
    (∀ index, (parse text).ReportsEmpty index ↔
        ∃ line ∈ (lines text.toList)[index]?, TrailsOff (lineText (index = 0) line.content)) ∧
      ((∀ diagnostic ∈ (parse text).diagnostics, ∀ found ∈ diagnostic.cause.found?, found ≠ "") ↔
        ∀ index, ∀ line ∈ (lines text.toList)[index]?,
          ¬ TrailsOff (lineText (index = 0) line.content)) := by
  have hlines : ∀ index, (parse text).ReportsEmpty index ↔
      ∃ line ∈ (lines text.toList)[index]?, TrailsOff (lineText (index = 0) line.content) := by
    intro index
    constructor
    · rintro ⟨statement, diagnostic, content, hstatement, hreports⟩
      obtain ⟨line, hline, -⟩ := exists_line hstatement
      have hempty := (reportsEmpty_iff hline).mp ⟨_, diagnostic, content, hstatement, hreports⟩
      exact ⟨line, hline, hempty⟩
    · rintro ⟨line, hline, htrails⟩
      exact (reportsEmpty_iff hline).mpr htrails
  refine ⟨hlines, ?_⟩
  rw [found_ne_iff]
  simp only [hlines, not_exists, not_and]

/-- A no-break space behind an unbinding is reported as nothing. -/
theorem reports_empty_noBreakSpace :
    ∃ diagnostic ∈ (parse "unbind j \u00A0").diagnostics, diagnostic.cause.found? = some "" ∧
      diagnostic.message = "unexpected '' after unbind statement at line 1, column 1" := by
  have hdiagnostics : (parse "unbind j \u00A0").diagnostics =
      [⟨.trailing .unbinding "", ⟨0, 11, 1, 1⟩, none⟩] := by
    decide +kernel
  rw [hdiagnostics]
  exact ⟨_, List.mem_singleton_self _, rfl, by decide +kernel⟩

end Program

end RcScript
