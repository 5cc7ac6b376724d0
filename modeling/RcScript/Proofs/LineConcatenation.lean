import RcScript.Proofs.StatementLookup

/-!
# Reading a text behind another

Where a line starts behind a first text, reading both texts together is reading each
on its own: the statements of the second follow those of the first, moved by the
bytes and the line feeds of the first. No line therefore has a say in what another is
read as, malformed or not. A byte-order mark that opens the second text is left out,
since it is skipped at the start of a text and nowhere else.
-/

namespace RcScript

open Text

/-- Moving a statement moves its diagnostic. -/
theorem Statement.diagnostic?_shift (statement : Statement) (bytes lines : Int) :
    (statement.shift bytes lines).diagnostic? =
      statement.diagnostic?.map fun diagnostic => diagnostic.shift bytes lines := by
  cases statement with
  | mk span tokens node => cases node <;> rfl

namespace Reader

/-- A text behind others, counted in bytes and lines, is read as the same statements
moved. Only its first line can start at offset zero in one place alone. -/
theorem readLines_behind {origin : Nat} {cs : List Char}
    (h : origin ≠ 0 → cs.head? ≠ some byteOrderMark) (number : Nat) :
    readLines origin (1 + number) (lines cs) =
      (readLines 0 1 (lines cs)).map fun statement => statement.shift origin number := by
  cases hlines : lines cs with
  | nil => rfl
  | cons line later =>
    have hfirst : (lines cs)[0]? = some line := by rw [hlines]; rfl
    have hcut : lines cs = [] ++ line :: later := hlines
    have hlength := utf8Length_pos (isLine_of_lines hcut).nonempty
    have htext := eq_append_of_getElem?_lines hfirst
    have hmark : line.content.head? = some byteOrderMark → (origin = 0 ↔ 0 = 0) := by
      intro hhead
      have hmem : cs.head? = some byteOrderMark := by
        rw [htext, List.take_zero, List.flatMap_nil, List.nil_append, Line.toList,
          List.append_assoc, List.head?_append, hhead, Option.some_or]
      have hzero : origin = 0 := Decidable.not_not.mp fun hne => h hne hmem
      simp only [hzero]
    have hstatement : readStatement origin (1 + number) line =
        (readStatement 0 1 line).shift origin number :=
      readStatement_moved line (by omega) (by omega) hmark
    have hlater : readLines (origin + utf8Length line.toList) (1 + number + 1) later =
        (readLines (0 + utf8Length line.toList) (1 + 1) later).map fun statement =>
          statement.shift origin number :=
      readLines_moved (by omega) (by omega) (by omega) (by omega) later
    rw [readLines, readLines, List.map_cons, hstatement, hlater]

end Reader

namespace Program

open Reader

/-- Behind a text whose last line is closed a second text is read as on its own, but
for its place. -/
theorem statements_parse_behind {front back : List Char} (hfront : AtLineStart front)
    (hback : front ≠ [] → back.head? ≠ some byteOrderMark) :
    (parse (String.ofList (front ++ back))).statements =
      (parse (String.ofList front)).statements ++
        (parse (String.ofList back)).statements.map fun statement =>
          statement.shift (utf8Length front) (front.count '\n') := by
  have hcount := length_lines hfront
  have hmark : utf8Length front ≠ 0 → back.head? ≠ some byteOrderMark := by
    intro hne
    exact hback fun hnil => hne (utf8Length_eq_zero.mpr hnil)
  have hbehind := readLines_behind hmark (front.count '\n')
  simp only [parse, String.toList_ofList]
  rw [lines_append hfront, readLines_append, flatMap_toList_lines, hcount, Nat.zero_add, hbehind]

/-- Reading is a homomorphism over texts of whole lines: the statements and the
diagnostics of two texts read together are those of the first and, moved by its bytes
and lines, those of the second. -/
theorem parse_append {front back : String} (hfront : AtLineStart front.toList)
    (hback : front ≠ "" → back.toList.head? ≠ some byteOrderMark) :
    (parse (front ++ back)).statements = (parse front).statements ++
        (parse back).statements.map (fun statement =>
          statement.shift (utf8Length front.toList) (front.toList.count '\n')) ∧
      (parse (front ++ back)).diagnostics = (parse front).diagnostics ++
        (parse back).diagnostics.map fun diagnostic =>
          diagnostic.shift (utf8Length front.toList) (front.toList.count '\n') := by
  have hmark : front.toList ≠ [] → back.toList.head? ≠ some byteOrderMark := by
    intro hne
    exact hback fun hempty => hne (by rw [hempty]; rfl)
  have hstatements := statements_parse_behind hfront hmark
  rw [← String.toList_append, String.ofList_toList, String.ofList_toList,
    String.ofList_toList] at hstatements
  refine ⟨hstatements, ?_⟩
  rw [diagnostics, hstatements, List.filterMap_append, List.filterMap_map]
  simp only [Function.comp_def, Statement.diagnostic?_shift]
  rw [← List.map_filterMap]
  rfl

/-- A marked text with a malformed line, and a text that fails in another way. -/
theorem parse_append_marked :
    AtLineStart "\uFEFFset\tx 1\r\n42 things\n".toList ∧
      ("\uFEFFset\tx 1\r\n42 things\n" ≠ "" →
        "bind --mode=hint 12\nset y".toList.head? ≠ some byteOrderMark) ∧
      (parse ("\uFEFFset\tx 1\r\n42 things\n" ++ "bind --mode=hint 12\nset y")).statements =
        (parse "\uFEFFset\tx 1\r\n42 things\n").statements ++
          (parse "bind --mode=hint 12\nset y").statements.map (fun statement =>
            statement.shift (utf8Length "\uFEFFset\tx 1\r\n42 things\n".toList)
              ("\uFEFFset\tx 1\r\n42 things\n".toList.count '\n')) ∧
      (parse ("\uFEFFset\tx 1\r\n42 things\n" ++ "bind --mode=hint 12\nset y")).diagnostics =
        (parse "\uFEFFset\tx 1\r\n42 things\n").diagnostics ++
          (parse "bind --mode=hint 12\nset y").diagnostics.map fun diagnostic =>
            diagnostic.shift (utf8Length "\uFEFFset\tx 1\r\n42 things\n".toList)
              ("\uFEFFset\tx 1\r\n42 things\n".toList.count '\n') :=
  have hfront : AtLineStart "\uFEFFset\tx 1\r\n42 things\n".toList := by simp [AtLineStart]
  have hback : "\uFEFFset\tx 1\r\n42 things\n" ≠ "" →
      "bind --mode=hint 12\nset y".toList.head? ≠ some byteOrderMark := fun _ => by decide
  ⟨hfront, hback, parse_append hfront hback⟩

end Program

end RcScript
