import RcScript.Proofs.StatementLookup

/-!
# Statements tile their text

The statements of a text cut it into its lines: the first starts at the first byte,
each starts where the one before it stops, and the last stops at the end. Every one of
them covers a byte at least and has one line feed, as its last byte; only the last can
have none. Their number is therefore that of the line feeds, and one more where the
text ends in anything else.
-/

namespace RcScript

open Text

namespace Program

/-- The statements of a program tile a text. -/
structure Tiles (program : Program) (text : List Char) : Prop where
  /-- No statement is empty. -/
  nonempty : ∀ statement ∈ program.statements, statement.span.start < statement.span.stop
  /-- The first statement starts at the first byte. -/
  starts : ∀ statement ∈ program.statements.head?, statement.span.start = 0
  /-- A statement starts where the one before it stops. -/
  meets : ∀ (index : Nat) (statement next : Statement),
    program.statements[index]? = some statement →
    program.statements[index + 1]? = some next → next.span.start = statement.span.stop
  /-- The last statement stops at the end of the text. -/
  stops : (program.statements.getLast?.map fun statement => statement.span.stop).getD 0 =
    utf8Length text
  /-- Statements are numbered from one and start in the first column. -/
  placed : ∀ (index : Nat) (statement : Statement),
    program.statements[index]? = some statement →
    statement.span.line = index + 1 ∧ statement.span.column = 1
  /-- Statements start and stop between characters. -/
  cut : ∀ statement ∈ program.statements, isBoundary statement.span.start text = true ∧
    isBoundary statement.span.stop text = true
  /-- A statement has one line feed, at its end; the last may have none. -/
  closed : ∀ (index : Nat) (statement : Statement),
    program.statements[index]? = some statement →
    ∃ body, '\n' ∉ body ∧
      (sliceBytes statement.span.start statement.span.stop text = body ++ ['\n'] ∨
        index + 1 = program.statements.length ∧
          sliceBytes statement.span.start statement.span.stop text = body)

namespace Tiles

variable {program : Program} {text : List Char}

/-- A program that tiles a text covers all of it, unless there is nothing to cover. -/
theorem span?_eq (h : program.Tiles text) :
    program.span? = if text = [] then none else some ⟨0, utf8Length text, 1, 1⟩ := by
  have hstops := h.stops
  cases hlast : program.statements.getLast? with
  | none =>
    have hnone := List.getLast?_eq_none_iff.mp hlast
    rw [hlast, Option.map_none, Option.getD_none] at hstops
    have hempty := utf8Length_eq_zero.mp hstops.symm
    simp only [span?, hnone, List.head?_nil, hempty, if_true]
  | some last =>
    rw [hlast, Option.map_some, Option.getD_some] at hstops
    have hne : text ≠ [] := by
      intro hempty
      have hlt := h.nonempty last (List.mem_of_getLast? hlast)
      rw [hempty, utf8Length_nil] at hstops
      omega
    cases hfirst : program.statements.head? with
    | none =>
      rw [List.head?_eq_none_iff.mp hfirst] at hlast
      simp at hlast
    | some first =>
      have hstart := h.starts first hfirst
      rw [List.head?_eq_getElem?] at hfirst
      have hplace := h.placed 0 first hfirst
      rw [← List.head?_eq_getElem?] at hfirst
      simp only [span?, hfirst, hlast, if_neg hne, hstart, hstops, hplace.1, hplace.2]

end Tiles

/-- The statement of a line covers the line. -/
theorem covers_line {text : String} {index : Nat} {statement : Statement}
    (h : (parse text).statements[index]? = some statement) :
    ∃ before line after, text.toList = before ++ (line.toList ++ after) ∧
      IsLine before line after ∧ statement.span.start = utf8Length before ∧
      statement.span.stop = utf8Length (before ++ line.toList) ∧
      (after = [] → index + 1 = (parse text).statements.length) := by
  obtain ⟨line, hline, rfl⟩ := exists_line h
  have hcut := isLine_of_lines (lines_cut hline)
  refine ⟨_, line, _, eq_append_of_getElem?_lines hline, hcut, rfl, ?_, fun hlast => ?_⟩
  · rw [utf8Length_append]
    rfl
  · rw [length_statements]
    exact length_lines_of_last hline hlast

/-- The statements of every text tile it. -/
theorem tiled_statements (text : String) : (parse text).Tiles text.toList := by
  constructor
  case nonempty =>
    intro statement hmem
    obtain ⟨index, hindex⟩ := List.mem_iff_getElem?.mp hmem
    obtain ⟨before, line, after, -, hline, hstart, hstop, -⟩ := covers_line hindex
    have hpos := utf8Length_pos hline.nonempty
    rw [hstart, hstop, utf8Length_append]
    omega
  case starts =>
    intro statement hmem
    rw [List.head?_eq_getElem?] at hmem
    obtain ⟨line, hline, rfl⟩ := exists_line hmem
    rfl
  case meets =>
    intro index statement next hstatement hnext
    obtain ⟨line, hline, rfl⟩ := exists_line hstatement
    obtain ⟨line', hline', rfl⟩ := exists_line hnext
    have htake : (lines text.toList).take (index + 1) =
        (lines text.toList).take index ++ [line] := by
      rw [List.take_add_one, hline, Option.toList_some]
    simp only [Reader.readStatement, htake, List.flatMap_append, List.flatMap_singleton,
      utf8Length_append]
  case stops =>
    have hstop := Reader.stop_readLines 0 1 (lines text.toList)
    rw [flatMap_toList_lines, Nat.zero_add] at hstop
    exact hstop
  case placed =>
    intro index statement hstatement
    obtain ⟨line, hline, rfl⟩ := exists_line hstatement
    exact ⟨rfl, rfl⟩
  case cut =>
    intro statement hmem
    obtain ⟨index, hindex⟩ := List.mem_iff_getElem?.mp hmem
    obtain ⟨before, line, after, htext, -, hstart, hstop, -⟩ := covers_line hindex
    rw [hstart, hstop, htext]
    refine ⟨isBoundary_iff.mpr ⟨before, line.toList ++ after, rfl, rfl⟩, ?_⟩
    exact isBoundary_iff.mpr ⟨before ++ line.toList, after, (List.append_assoc _ _ _).symm, rfl⟩
  case closed =>
    intro index statement hindex
    obtain ⟨before, line, after, htext, hline, hstart, hstop, hlast⟩ := covers_line hindex
    have hslice := sliceBytes_append before line.toList after
    rw [← htext, ← hstart, ← hstop] at hslice
    obtain ⟨body, hbody, hends⟩ := hline.exists_body
    refine ⟨body, hbody, ?_⟩
    rw [hslice]
    rcases hends with hfeed | ⟨hafter, hnone⟩
    · exact .inl hfeed
    · exact .inr ⟨hlast hafter, hnone⟩

/-- The statements of every text tile it. There are as many as line feeds, and one more
where text follows the last of these. Together they cover the text, if there is any. -/
theorem tiles_parse (text : String) :
    (parse text).Tiles text.toList ∧
      (parse text).statements.length = text.toList.count '\n' +
        (if text ≠ "" ∧ text.toList.getLast? ≠ some '\n' then 1 else 0) ∧
      (parse text).span? =
        if text = "" then none else some ⟨0, utf8Length text.toList, 1, 1⟩ := by
  have htiles := tiled_statements text
  have hempty : text.toList = [] ↔ text = "" := String.toList_eq_nil_iff
  have hstart : ¬ AtLineStart text.toList ↔
      text ≠ "" ∧ text.toList.getLast? ≠ some '\n' := by
    rw [atLineStart_iff, hempty, not_or]
  refine ⟨htiles, ?_, ?_⟩
  · rw [length_statements, length_lines_eq]
    simp only [← hstart, ite_not]
  · rw [htiles.span?_eq]
    simp only [hempty]

end Program

end RcScript
