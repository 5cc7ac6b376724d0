import RcScript.Program
import RcScript.Proofs.LineSplitting
import RcScript.Proofs.Relocation

/-!
# Looking statements up by offset

The statements of a text end at growing offsets, so any offset cuts them into
those that have ended and those that have not. Binary search finds this cut. A
statement at a place of a text was read from the line there.
-/

namespace RcScript

open Text

/-- Where a predicate holds up to a place and fails from there on, the search
finds the place. -/
theorem firstFailing_eq {holds : Nat → Bool} {low high place : Nat} (hlow : low ≤ place)
    (hhigh : place ≤ high) (hbelow : ∀ i, low ≤ i → i < place → holds i = true)
    (habove : ∀ i, place ≤ i → i < high → holds i = false) :
    firstFailing holds low high = place := by
  fun_induction firstFailing holds low high with
  | case1 low high hlt middle hholds ih =>
    have hm : middle < place := by
      rcases Nat.lt_or_ge middle place with hm | hge
      · exact hm
      · have hf := habove middle hge (by omega)
        rw [hholds] at hf
        contradiction
    exact ih hm hhigh (fun i hi => hbelow i (by omega)) habove
  | case2 low high hlt middle hholds ih =>
    have hm : place ≤ middle := by
      rcases Nat.lt_or_ge middle place with hlt | hm
      · exact absurd (hbelow middle (by omega) hlt) hholds
      · exact hm
    exact ih hlow hm hbelow fun i hi hlt => habove i hi (by omega)
  | case3 low high hlt => omega

namespace Reader

/-- A block has as many statements as lines. -/
@[simp]
theorem length_readLines (origin number : Nat) (block : List Line) :
    (readLines origin number block).length = block.length := by
  induction block generalizing origin number with
  | nil => rfl
  | cons line later ih => simp [readLines, ih]

/-- The statement at a place among the lines. -/
theorem getElem?_readLines (origin number : Nat) (block : List Line) (index : Nat) :
    (readLines origin number block)[index]? = block[index]?.map fun line =>
      readStatement (origin + utf8Length ((block.take index).flatMap Line.toList))
        (number + index) line := by
  induction block generalizing origin number index with
  | nil => simp [readLines]
  | cons line later ih =>
    cases index with
    | zero => simp [readLines]
    | succ index =>
      rw [readLines, List.getElem?_cons_succ, List.getElem?_cons_succ, ih, List.take_succ_cons,
        List.flatMap_cons, utf8Length_append]
      congr 1
      funext found
      congr 1 <;> omega

/-- The statement of the last of several lines. -/
theorem getLast?_readLines_concat (origin number : Nat) (front : List Line) (last : Line) :
    (readLines origin number (front ++ [last])).getLast? =
      some (readStatement (origin + utf8Length (front.flatMap Line.toList))
        (number + front.length) last) := by
  rw [readLines_append, readLines, readLines, List.getLast?_concat]

/-- The last statement of a block ends where the block does. -/
theorem stop_readLines (origin number : Nat) (block : List Line) :
    ((readLines origin number block).getLast?.map fun last => last.span.stop).getD origin =
      origin + utf8Length (block.flatMap Line.toList) := by
  rcases List.eq_nil_or_concat block with rfl | ⟨front, last, rfl⟩
  · simp [readLines]
  · rw [List.concat_eq_append, getLast?_readLines_concat]
    simp only [readStatement, Option.map_some, Option.getD_some, List.flatMap_append,
      List.flatMap_singleton, utf8Length_append]
    omega

/-- The line after a block has the next number. -/
theorem number_readLines (origin number : Nat) (block : List Line) :
    ((readLines origin number block).getLast?.map fun last => last.span.line + 1).getD number =
      number + block.length := by
  rcases List.eq_nil_or_concat block with rfl | ⟨front, last, rfl⟩
  · simp [readLines]
  · rw [List.concat_eq_append, getLast?_readLines_concat]
    simp only [readStatement, Option.map_some, Option.getD_some, List.length_append,
      List.length_singleton]
    omega

/-- No statement of a block ends before the first line of the block does. -/
theorem le_stop_of_mem_readLines {origin number : Nat} {line : Line} {later : List Line}
    {statement : Statement} (h : statement ∈ readLines origin number (line :: later)) :
    origin + utf8Length line.toList ≤ statement.span.stop := by
  induction later generalizing origin number line with
  | nil =>
    obtain rfl := List.mem_singleton.mp h
    exact Nat.le_refl _
  | cons next later ih =>
    rcases List.mem_cons.mp h with rfl | hm
    · exact Nat.le_refl _
    · have hs := ih hm
      omega

/-- No statement of a block stops behind it. -/
theorem stop_le_of_mem_readLines {origin number : Nat} {block : List Line} {statement : Statement}
    (h : statement ∈ readLines origin number block) :
    statement.span.stop ≤ origin + utf8Length (block.flatMap Line.toList) := by
  induction block generalizing origin number with
  | nil => simp [readLines] at h
  | cons line later ih =>
    rw [List.flatMap_cons, utf8Length_append]
    rcases List.mem_cons.mp h with rfl | hmem
    · simp only [readStatement]
      omega
    · have hle := ih hmem
      omega

/-- A predicate on statements cuts a block where it first fails. -/
theorem exists_cut (p : Statement → Bool) (origin number : Nat) (block : List Line) :
    ∃ front back, block = front ++ back ∧
      (∀ statement ∈ readLines origin number front, p statement = true) ∧
      ∀ statement ∈ (readLines (origin + utf8Length (front.flatMap Line.toList))
        (number + front.length) back).head?, p statement = false := by
  induction block generalizing origin number with
  | nil => exact ⟨[], [], rfl, by simp [readLines], by simp [readLines]⟩
  | cons line later ih =>
    by_cases hp : p (readStatement origin number line) = true
    · obtain ⟨front, back, rfl, hfront, hback⟩ :=
        ih (origin + utf8Length line.toList) (number + 1)
      have horigin : origin + utf8Length ((line :: front).flatMap Line.toList) =
          origin + utf8Length line.toList + utf8Length (front.flatMap Line.toList) := by
        rw [List.flatMap_cons, utf8Length_append]
        omega
      have hnumber : number + (line :: front).length = number + 1 + front.length := by
        rw [List.length_cons]
        omega
      refine ⟨line :: front, back, rfl, ?_, ?_⟩
      · intro statement hmem
        rcases List.mem_cons.mp hmem with rfl | hmem
        · exact hp
        · exact hfront statement hmem
      · rw [horigin, hnumber]
        exact hback
    · refine ⟨[], line :: later, rfl, by simp [readLines], ?_⟩
      simpa [readLines] using hp

end Reader

namespace Program

/-- The statements of a text are read from its lines, one from each. -/
theorem getElem?_statements (text : String) (index : Nat) :
    (parse text).statements[index]? = (lines text.toList)[index]?.map fun line =>
      Reader.readStatement (utf8Length (((lines text.toList).take index).flatMap Line.toList))
        (index + 1) line := by
  rw [parse, Reader.getElem?_readLines, Nat.zero_add, Nat.add_comm 1 index]

/-- A statement of a text was read from the line at its place. -/
theorem exists_line {text : String} {index : Nat} {statement : Statement}
    (h : (parse text).statements[index]? = some statement) :
    ∃ line, (lines text.toList)[index]? = some line ∧ statement =
      Reader.readStatement (utf8Length (((lines text.toList).take index).flatMap Line.toList))
        (index + 1) line := by
  rw [getElem?_statements, Option.map_eq_some_iff] at h
  obtain ⟨line, hline, hstatement⟩ := h
  exact ⟨line, hline, hstatement.symm⟩

/-- The diagnostics of a program are those of its malformed statements. -/
theorem mem_diagnostics_iff {program : Program} {diagnostic : Diagnostic} :
    diagnostic ∈ program.diagnostics ↔
      ∃ statement ∈ program.statements, ∃ content,
        statement.node = .malformed diagnostic content := by
  rw [diagnostics, List.mem_filterMap]
  refine exists_congr fun statement => and_congr_right fun _ => ?_
  unfold Statement.diagnostic?
  cases statement.node <;> simp

/-- A text has as many statements as lines. -/
theorem length_statements (text : String) :
    (parse text).statements.length = (lines text.toList).length := by
  rw [parse, Reader.length_readLines]

/-- Only the first line of a text starts at its first byte. -/
theorem origin_eq_zero_iff {cs : List Char} {index : Nat} (h : index < (lines cs).length) :
    utf8Length (((lines cs).take index).flatMap Line.toList) = 0 ↔ index = 0 := by
  rw [utf8Length_eq_zero]
  constructor
  · intro hnil
    cases index with
    | zero => rfl
    | succ index =>
      cases hlines : lines cs with
      | nil => simp [hlines] at h
      | cons line later =>
        have hcut : lines cs = [] ++ line :: later := hlines
        have hline := isLine_of_lines hcut
        rw [hlines, List.take_succ_cons, List.flatMap_cons, List.append_eq_nil_iff] at hnil
        exact absurd hnil.1 hline.nonempty
  · rintro rfl
    rfl

/-- The search finds a cut between statements that have ended and those that have not. -/
theorem endedBy_eq {program : Program} {front back : List Statement} {offset : Nat}
    (h : program.statements = front ++ back)
    (hfront : ∀ statement ∈ front, statement.span.stop ≤ offset)
    (hback : ∀ statement ∈ back, offset < statement.span.stop) :
    program.endedBy offset = front.length := by
  simp only [endedBy, h, List.getElem?_toArray, List.size_toArray]
  apply firstFailing_eq (Nat.zero_le _) (by simp)
  · intro i _ hi
    rw [List.getElem?_append_left hi, List.getElem?_eq_getElem hi]
    simpa using hfront _ (List.getElem_mem hi)
  · intro i hi hlt
    rw [List.getElem?_append_right hi]
    have hb : i - front.length < back.length := by
      rw [List.length_append] at hlt
      omega
    rw [List.getElem?_eq_getElem hb]
    simpa using hback _ (List.getElem_mem hb)

end Program

end RcScript
