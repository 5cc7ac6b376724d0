import RcScript.Program.Edit
import RcScript.Proofs.StatementLookup

/-!
# Reading again after edits

Reading again gives the program of the new text whenever the change describes
how the texts differ. Both cuts that it makes in the old statements fall where a
line starts in the new text as well: the kept front ends in a line feed that the
edit leaves alone, and the moved back opens right behind one. So the lines of the
new text are those of the front, those between the cuts and those of the back.
The agreement carries over to any run of edits, each of which fits the text that
the one before has left.
-/

namespace RcScript

open Text

namespace Text

/-- Lines found behind a text without a line feed cover that text and more, since the line feed of
the first of them does not stand in it. -/
theorem lt_length_first {rest tail : List Char} (hrest : '\n' ∉ rest)
    (hne : rest = [] ∨ tail ≠ []) {line : Line} {later : List Line}
    (h : lines (rest ++ tail) = line :: later) : utf8Length rest < utf8Length line.toList := by
  have hcut : lines (rest ++ tail) = [] ++ line :: later := h
  have hline := isLine_of_lines hcut
  have hcover := flatMap_toList_lines (rest ++ tail)
  rw [h, List.flatMap_cons] at hcover
  refine Nat.lt_of_not_le fun hle => ?_
  obtain ⟨middle, hmiddle, htail⟩ := exists_middle_of_utf8Length_le hcover hle
  obtain ⟨body, -, hfeed | ⟨hlast, -⟩⟩ := hline.exists_body
  · refine hrest ?_
    rw [hmiddle, hfeed]
    simp
  · rw [hlast] at htail
    obtain ⟨rfl, rfl⟩ := List.append_eq_nil_iff.mp htail.symm
    have hnil : line.toList = [] := by
      rcases hne with hnil | hne
      · simpa [hnil] using hmiddle.symm
      · exact absurd rfl hne
    exact hline.nonempty hnil

end Text

namespace Program

/-- The byte before an offset is a line feed exactly when the first part that
the offset measures ends in one. -/
theorem atLineStart_of_followsLineFeed {before after : List Char}
    (h : followsLineFeed (before ++ after) (utf8Length before) = true) : AtLineStart before := by
  simp only [followsLineFeed, Bool.and_eq_true, decide_eq_true_eq, beq_iff_eq] at h
  obtain ⟨hpos, hc⟩ := h
  obtain ⟨front, back, he, hl⟩ := exists_of_charAt?_eq_some hc
  have hfeed : ('\n' : Char).utf8Size = 1 := by decide
  have hle : utf8Length (front ++ ['\n']) ≤ utf8Length before := by
    rw [utf8Length_append, utf8Length_cons, utf8Length_nil, hfeed]
    omega
  have heq : (front ++ ['\n']) ++ back = before ++ after := by
    rw [he, List.append_assoc]
    rfl
  obtain ⟨middle, rfl, -⟩ := exists_middle_of_utf8Length_le heq hle
  have hz : middle = [] := by
    rw [utf8Length_append, utf8Length_append, utf8Length_cons, utf8Length_nil, hfeed] at hl
    exact utf8Length_eq_zero.mp (by omega)
  rw [hz, List.append_nil]
  exact atLineStart_feed front

/-- Behind a closed text, the byte before is a line feed. -/
theorem followsLineFeed_of_atLineStart {before : List Char} (h : AtLineStart before)
    (hne : before ≠ []) (after : List Char) :
    followsLineFeed (before ++ after) (utf8Length before) = true := by
  rcases atLineStart_iff.mp h with hnil | hlast
  · exact absurd hnil hne
  · obtain ⟨front, rfl⟩ := List.getLast?_eq_some_iff.mp hlast
    have hfeed : utf8Length (front ++ ['\n']) = utf8Length front + 1 := by
      rw [utf8Length_append]
      rfl
    have hchar := charAt?_append front '\n' after
    rw [hfeed, followsLineFeed, Nat.add_sub_cancel, List.append_assoc, List.singleton_append,
      hchar]
    simp

end Program

namespace Reader

/-- Dropping statements from a block is dropping their lines. -/
theorem exists_dropWhile_readLines (p : Statement → Bool) (origin number : Nat)
    (block : List Line) :
    ∃ front back, block = front ++ back ∧
      (readLines origin number block).dropWhile p =
        readLines (origin + utf8Length (front.flatMap Line.toList)) (number + front.length)
          back ∧
      ∀ statement ∈ (readLines (origin + utf8Length (front.flatMap Line.toList))
        (number + front.length) back).head?, p statement = false := by
  obtain ⟨front, back, rfl, hfront, hback⟩ := exists_cut p origin number block
  refine ⟨front, back, rfl, ?_, hback⟩
  rw [readLines_append, List.dropWhile_append_of_pos hfront]
  cases back with
  | nil => rfl
  | cons line later =>
    have hfirst := hback _ rfl
    exact List.dropWhile_cons_of_neg (by simp [hfirst])

end Reader

namespace Change

/-- The change that puts `insert` in the place of `removed` behind `before`. -/
def splice (before removed insert : List Char) : Change :=
  ⟨utf8Length before, utf8Length (before ++ removed), utf8Length insert⟩

/-- A splice moves what follows by the bytes it puts in, less those it takes out. -/
theorem splice_delta (before removed insert : List Char) :
    (splice before removed insert).delta = (utf8Length insert : Int) - utf8Length removed := by
  simp only [delta, splice, utf8Length_append]
  omega

end Change

/-- An edit that fits a text cuts it in three and replaces the middle. -/
theorem Edit.exists_splice {edit : Edit} {text : String} (h : edit.fits text = true) :
    ∃ before removed after, text.toList = before ++ (removed ++ after) ∧
      edit.change = Change.splice before removed edit.insert.toList ∧
      edit.apply text = String.ofList (before ++ (edit.insert.toList ++ after)) := by
  simp only [fits, Bool.and_eq_true, decide_eq_true_eq, isBoundary_iff] at h
  obtain ⟨⟨hle, before, tail, ht, hstart⟩, front, after, ht', hstop⟩ := h
  obtain ⟨removed, rfl, rfl⟩ : ∃ middle, front = before ++ middle ∧ tail = middle ++ after :=
    exists_middle_of_utf8Length_le (ht.symm.trans ht') (by omega)
  refine ⟨before, removed, after, ht, ?_, ?_⟩
  · rw [change, Change.splice, hstart, hstop]
  · rw [apply, ← hstart, ← hstop, ht', dropBytes_append, ← ht', ht, takeBytes_append,
      List.append_assoc]

namespace Program

open Reader

/-- The last statement of a closed text ends its line whatever comes behind the text. -/
theorem endsLine_of_atLineStart {front : List Char} (h : AtLineStart front) (after : List Char) :
    ∀ last ∈ (readLines 0 1 (lines front)).getLast?, endsLine (front ++ after) last = true := by
  rcases List.eq_nil_or_concat (lines front) with hnil | ⟨init, line, hconcat⟩
  · simp [hnil, readLines]
  · rw [List.concat_eq_append] at hconcat
    have hpos := utf8Length_pos (isLine_of_lines hconcat).nonempty
    have hcover := flatMap_toList_lines front
    rw [hconcat, List.flatMap_append, List.flatMap_singleton] at hcover
    have hlength := congrArg utf8Length hcover
    rw [utf8Length_append] at hlength
    have hne : front ≠ [] := by
      rintro rfl
      rw [utf8Length_nil] at hlength
      omega
    have hfeed := followsLineFeed_of_atLineStart h hne after
    intro last hlast
    rw [hconcat, getLast?_readLines_concat, Option.mem_some_iff] at hlast
    rw [← hlast, endsLine, Span.isEmpty, readStatement, Bool.and_eq_true, Bool.not_eq_true',
      beq_eq_false_iff_ne]
    simp only [Nat.zero_add, hlength]
    exact ⟨by omega, hfeed⟩

/-- The statements that end before a change are kept if the last of them ends its line. -/
theorem keptBefore_of_closed {program : Program} {front back : List Statement} {change : Change}
    {text : List Char} (h : program.statements = front ++ back)
    (hended : ∀ statement ∈ front, statement.span.stop ≤ change.start)
    (hopen : ∀ statement ∈ back, change.start < statement.span.stop)
    (hends : ∀ last ∈ front.getLast?, endsLine text last = true) :
    program.keptBefore change text = front.length := by
  rw [keptBefore, endedBy_eq h hended hopen, h, List.take_left, if_neg]
  cases hlast : front.getLast? with
  | none => simp
  | some last => simp [hends last hlast]

/-- A last statement that does not end its line is not kept. -/
theorem keptBefore_of_open {program : Program} {front : List Statement} {last : Statement}
    {change : Change} {text : List Char} (h : program.statements = front ++ [last])
    (hended : ∀ statement ∈ front ++ [last], statement.span.stop ≤ change.start)
    (hends : endsLine text last = false) : program.keptBefore change text = front.length := by
  have hall : program.statements = (front ++ [last]) ++ [] := by rw [h, List.append_nil]
  rw [keptBefore, endedBy_eq hall hended (by simp), hall, List.take_left, List.getLast?_concat]
  simp [hends]

/-- The statements kept before a change are those of the lines that are closed before it. The line
that the change is on ends behind its start, or, where the change starts at the end of a text
without a last line feed, it is the last line and open. -/
theorem keptBefore_eq (before removed insert tail after : List Char) :
    (parse (String.ofList (before ++ tail))).keptBefore (Change.splice before removed insert)
      (before ++ after) = before.count '\n' := by
  obtain ⟨front, rest, rfl, hfront, hrest⟩ := exists_lastFeed before
  have hcount : (front ++ rest).count '\n' = (readLines 0 1 (lines front)).length := by
    rw [List.count_append, List.count_eq_zero_of_not_mem hrest, length_readLines,
      length_lines hfront, Nat.add_zero]
  have hstatements : (parse (String.ofList (front ++ rest ++ tail))).statements =
      readLines 0 1 (lines front) ++
        readLines (utf8Length front) (1 + (lines front).length) (lines (rest ++ tail)) := by
    rw [parse, String.toList_ofList, List.append_assoc, lines_append hfront, readLines_append,
      flatMap_toList_lines, Nat.zero_add]
  have hended : ∀ statement ∈ readLines 0 1 (lines front),
      statement.span.stop ≤ utf8Length (front ++ rest) := by
    intro statement hmem
    have hle := stop_le_of_mem_readLines hmem
    rw [flatMap_toList_lines] at hle
    rw [utf8Length_append]
    omega
  rw [hcount]
  by_cases hcase : rest = [] ∨ tail ≠ []
  · have hends := endsLine_of_atLineStart hfront (rest ++ after)
    rw [← List.append_assoc] at hends
    refine keptBefore_of_closed hstatements hended (fun statement hmem => ?_) hends
    cases hlines : lines (rest ++ tail) with
    | nil => simp [hlines, readLines] at hmem
    | cons line later =>
      rw [hlines] at hmem
      have hle := le_stop_of_mem_readLines hmem
      have hlt := lt_length_first hrest hcase hlines
      simp only [Change.splice, utf8Length_append]
      omega
  · obtain ⟨hne, htail⟩ := not_or.mp hcase
    rw [Classical.not_not.mp htail, List.append_nil, List.append_nil, lines_last hne hrest]
      at hstatements
    rw [Classical.not_not.mp htail, List.append_nil]
    have hstop : (readStatement (utf8Length front) (1 + (lines front).length)
        (Line.ofReversed rest.reverse [])).span.stop = utf8Length (front ++ rest) := by
      simp only [readStatement, toList_ofReversed, List.reverse_reverse, List.append_nil,
        utf8Length_append]
    refine keptBefore_of_open hstatements (fun statement hmem => ?_) ?_
    · rcases List.mem_append.mp hmem with hmem | hmem
      · exact hended statement hmem
      · exact (List.mem_singleton.mp hmem) ▸ Nat.le_of_eq hstop
    · rw [endsLine, hstop, Bool.and_eq_false_iff]
      right
      refine Bool.eq_false_iff.mpr fun hfeed => ?_
      exact not_atLineStart hne hrest (atLineStart_of_followsLineFeed hfeed).of_append

/-- The kept front covers whole lines of the text before the edit, and a line starts
behind it. -/
theorem exists_keptBefore (before removed insert tail after : List Char) :
    ∃ front back middle,
      lines (before ++ tail) = front ++ back ∧
      before = front.flatMap Line.toList ++ middle ∧
      AtLineStart (front.flatMap Line.toList) ∧
      (parse (String.ofList (before ++ tail))).keptBefore (Change.splice before removed insert)
        (before ++ after) = front.length := by
  have hkept := keptBefore_eq before removed insert tail after
  obtain ⟨front, rest, rfl, hfront, hrest⟩ := exists_lastFeed before
  rw [List.count_append, List.count_eq_zero_of_not_mem hrest, Nat.add_zero,
    ← length_lines hfront] at hkept
  refine ⟨lines front, lines (rest ++ tail), rest, ?_, ?_, ?_, hkept⟩
  · rw [List.append_assoc, lines_append hfront]
  · rw [flatMap_toList_lines]
  · rw [flatMap_toList_lines]
    exact hfront

/-- A statement that moves whole lies behind the edit, and a line starts where
it moves to. -/
theorem exists_of_movesWhole {before removed insert after covered rest : List Char}
    {statement : Statement} (hcover : covered ++ rest = before ++ (removed ++ after))
    (hstart : statement.span.start = utf8Length covered)
    (h : movesWhole (Change.splice before removed insert) (before ++ (insert ++ after))
      statement = true) :
    ∃ between, covered = before ++ (removed ++ between) ∧ after = between ++ rest ∧
      AtLineStart (before ++ (insert ++ between)) ∧
      0 < utf8Length covered ∧ 0 < utf8Length (before ++ (insert ++ between)) ∧
      (utf8Length (before ++ (insert ++ between)) : Int) =
        utf8Length covered + (Change.splice before removed insert).delta := by
  simp only [movesWhole, Bool.and_eq_true, decide_eq_true_eq, hstart] at h
  obtain ⟨⟨⟨⟨hstop, hpos⟩, hnewStop⟩, hnewPos⟩, hfeed⟩ := h
  have hle : utf8Length (before ++ removed) ≤ utf8Length covered := hstop
  have heq : (before ++ removed) ++ after = covered ++ rest := by
    rw [hcover, List.append_assoc]
  obtain ⟨between, hcov, hafter⟩ := exists_middle_of_utf8Length_le heq hle
  have hmove : (utf8Length (before ++ (insert ++ between)) : Int) =
      utf8Length covered + (Change.splice before removed insert).delta := by
    rw [Change.splice_delta, hcov]
    simp only [utf8Length_append]
    omega
  have hto : ((utf8Length covered : Int) +
      (Change.splice before removed insert).delta).toNat =
      utf8Length (before ++ (insert ++ between)) := by
    rw [← hmove, Int.toNat_natCast]
  have hnew : before ++ (insert ++ after) = (before ++ (insert ++ between)) ++ rest := by
    rw [hafter]
    simp
  rw [hto, hnew] at hfeed
  rw [← hmove] at hnewPos
  exact ⟨between, by rw [hcov, List.append_assoc], hafter,
    atLineStart_of_followsLineFeed hfeed, hpos, by omega, hmove⟩

/-- The statements of a text in three parts, where a line starts behind the
first and, unless the third is empty, behind the second. -/
theorem statements_parse_append {front : List Char} (hfront : AtLineStart front)
    (middle back : List Char) (hmiddle : back = [] ∨ AtLineStart middle) :
    (parse (String.ofList (front ++ (middle ++ back)))).statements =
      readLines 0 1 (lines front) ++
        (readLines (utf8Length front) (1 + (lines front).length) (lines middle) ++
          readLines (utf8Length front + utf8Length middle)
            (1 + (lines front).length + (lines middle).length) (lines back)) := by
  have hsplit : lines (middle ++ back) = lines middle ++ lines back := by
    rcases hmiddle with rfl | hm
    · simp
    · exact lines_append hm back
  rw [parse, String.toList_ofList, lines_append hfront, readLines_append, hsplit,
    readLines_append, flatMap_toList_lines, flatMap_toList_lines, Nat.zero_add]

/-- The cuts that reading again makes in the old lines when `insert` takes the
place of `removed` between `before` and `after`. -/
structure RereadCut (before removed insert after : List Char) where
  /-- The lines kept in front. -/
  front : List Line
  /-- The lines that the edit touches. -/
  touched : List Line
  /-- The lines kept behind. -/
  kept : List Line
  /-- What stands between the front and the edit. -/
  middle : List Char
  before_eq : before = front.flatMap Line.toList ++ middle
  covers : (front ++ touched).flatMap Line.toList ++ kept.flatMap Line.toList =
    before ++ (removed ++ after)
  starts : AtLineStart (front.flatMap Line.toList)
  lines_front : lines (front.flatMap Line.toList) = front
  lines_kept : lines (kept.flatMap Line.toList) = kept
  take_eq : (parse (String.ofList (before ++ (removed ++ after)))).statements.take
    ((parse (String.ofList (before ++ (removed ++ after)))).keptBefore
      (Change.splice before removed insert) (before ++ (insert ++ after))) =
    readLines 0 1 front
  dropWhile_eq : (((parse (String.ofList (before ++ (removed ++ after)))).statements.drop
    front.length).dropWhile fun statement => !movesWhole (Change.splice before removed insert)
      (before ++ (insert ++ after)) statement) =
    readLines (utf8Length ((front ++ touched).flatMap Line.toList))
      (1 + front.length + touched.length) kept
  moves : ∀ statement ∈ (readLines (utf8Length ((front ++ touched).flatMap Line.toList))
    (1 + front.length + touched.length) kept).head?,
    movesWhole (Change.splice before removed insert) (before ++ (insert ++ after))
      statement = true

/-- Reading again cuts any text so. -/
theorem nonempty_rereadCut (before removed insert after : List Char) :
    Nonempty (RereadCut before removed insert after) := by
  obtain ⟨front, back, middle, hlines, hbefore, hfront, hkept⟩ :=
    exists_keptBefore before removed insert (removed ++ after) (insert ++ after)
  obtain ⟨touched, kept, rfl, hdropWhile, hhead⟩ := exists_dropWhile_readLines
    (fun statement => !movesWhole (Change.splice before removed insert)
      (before ++ (insert ++ after)) statement)
    (utf8Length (front.flatMap Line.toList)) (1 + front.length) back
  rw [← utf8Length_append, ← List.flatMap_append] at hdropWhile hhead
  have hold : (parse (String.ofList (before ++ (removed ++ after)))).statements =
      readLines 0 1 front ++ readLines (utf8Length (front.flatMap Line.toList))
        (1 + front.length) (touched ++ kept) := by
    rw [parse, String.toList_ofList, hlines, readLines_append, Nat.zero_add]
  have hlength := length_readLines 0 1 front
  obtain ⟨hfrontLines, -, -⟩ := lines_eq_append hlines
  have hassoc : lines (before ++ (removed ++ after)) = (front ++ touched) ++ kept := by
    rw [hlines, List.append_assoc]
  obtain ⟨-, hkeptLines, -⟩ := lines_eq_append hassoc
  have hcover := flatMap_toList_lines (before ++ (removed ++ after))
  rw [hassoc, List.flatMap_append] at hcover
  refine ⟨⟨front, touched, kept, middle, hbefore, hcover, hfront, hfrontLines, hkeptLines,
    ?_, ?_, ?_⟩⟩
  · rw [hkept, hold, ← hlength, List.take_left]
  · rw [hold, ← hlength, List.drop_left, hlength, hdropWhile]
  · intro statement hm
    simpa using hhead statement hm

/-- Reading again after a splice is reading the new text. Where nothing is kept behind the change,
all from the front on is read again. Otherwise the first line that is kept moves whole, a line of the
new text starts where it moves to, and all that follows moves with it. -/
theorem reparse_splice (before removed insert after : List Char) :
    ((parse (String.ofList (before ++ (removed ++ after)))).reparse
      (Change.splice before removed insert)
      (String.ofList (before ++ (insert ++ after)))).program =
      parse (String.ofList (before ++ (insert ++ after))) := by
  obtain ⟨⟨front, touched, kept, middle, rfl, hcover, hstarts, hfront, hkept, htake, hdrop,
    hmoves⟩⟩ := nonempty_rereadCut before removed insert after
  have hstop := stop_readLines 0 1 front
  rw [Nat.zero_add] at hstop
  generalize front.flatMap Line.toList = covered at *
  simp only [reparse, String.toList_ofList, htake, length_readLines, hdrop, hstop,
    number_readLines]
  refine congrArg Program.mk ?_
  cases kept with
  | nil =>
    have hnew : covered ++ middle ++ (insert ++ after) =
        covered ++ ((middle ++ (insert ++ after)) ++ []) := by
      simp
    have hslice := sliceBytes_append covered (middle ++ (insert ++ after)) []
    have hparse := statements_parse_append hstarts (middle ++ (insert ++ after)) [] (.inl rfl)
    rw [← hnew, hfront] at hparse
    rw [← hnew, ← List.append_assoc] at hslice
    simp only [readLines, List.head?_nil, Option.map_none, Option.getD_none, hslice,
      List.append_nil]
    refine Eq.trans ?_ hparse.symm
    simp [readLines]
  | cons next later =>
    have hhead : ∀ origin number, (readLines origin number (next :: later)).head? =
        some (readStatement origin number next) := fun _ _ => rfl
    have hmoves' := hmoves _ (hhead _ _)
    obtain ⟨between, hcov, rfl, hstart, hpos, hnewPos, hmove⟩ :=
      exists_of_movesWhole hcover rfl hmoves'
    generalize hdelta : (Change.splice (covered ++ middle) removed insert).delta = delta at *
    generalize hrest : (next :: later).flatMap Line.toList = rest at *
    have hto : ((utf8Length ((front ++ touched).flatMap Line.toList) : Int) + delta).toNat =
        utf8Length (covered ++ middle ++ (insert ++ between)) := by
      rw [← hmove, Int.toNat_natCast]
    have hnew : covered ++ middle ++ (insert ++ (between ++ rest)) =
        covered ++ ((middle ++ (insert ++ between)) ++ rest) := by
      simp
    have hmiddle : AtLineStart (middle ++ (insert ++ between)) := by
      rw [List.append_assoc] at hstart
      exact hstart.of_append
    have hslice := sliceBytes_append covered (middle ++ (insert ++ between)) rest
    rw [← hnew, ← List.append_assoc covered, ← hto] at hslice
    have hparse := statements_parse_append hstarts (middle ++ (insert ++ between)) rest
      (.inr hmiddle)
    rw [← hnew, hfront, hkept, ← utf8Length_append, ← List.append_assoc covered] at hparse
    have hdown : ((1 + front.length + (lines (middle ++ (insert ++ between))).length : Nat) : Int) =
        (1 + front.length + touched.length : Nat) +
          ((1 + front.length + (lines (middle ++ (insert ++ between))).length : Nat) -
            (1 + front.length + touched.length : Nat)) := by
      omega
    have hmoved := readLines_moved hpos hnewPos hmove hdown (next :: later)
    have hat : ∀ origin number, (readStatement origin number next).span.start = origin ∧
        (readStatement origin number next).span.line = number := fun _ _ => ⟨rfl, rfl⟩
    simp only [hhead, Option.map_some, Option.getD_some, hat, hslice]
    rw [← hmoved, List.append_assoc]
    exact hparse.symm

/-- The diagnostics that reading again reports are those of its program. -/
theorem diagnostics_reparse (old : Program) (change : Change) (newText : String) :
    (old.reparse change newText).diagnostics = (old.reparse change newText).program.diagnostics :=
  rfl

/-- An edit that fits the text of a program is read again as the edited text. -/
theorem reparse_edit {edit : Edit} {text : String} (h : edit.fits text = true) :
    ((parse text).reparse edit.change (edit.apply text)).program = parse (edit.apply text) := by
  obtain ⟨before, removed, after, htext, hchange, happly⟩ := edit.exists_splice h
  have hold : text = String.ofList (before ++ (removed ++ after)) := by
    rw [← htext, String.ofList_toList]
  rw [happly, hchange, hold]
  exact reparse_splice before removed edit.insert.toList after

end Program

namespace Edit

/-- Whether each of some edits fits the text that those before it have left. -/
def fitsInTurn : String → List Edit → Bool
  | _, [] => true
  | text, edit :: later => edit.fits text && fitsInTurn (edit.apply text) later

/-- The texts that some edits leave one after the other. -/
def textsInTurn : String → List Edit → List String
  | _, [] => []
  | text, edit :: later => edit.apply text :: textsInTurn (edit.apply text) later

end Edit

namespace Program

/-- The outcomes of reading again after each of some edits. The program of each
outcome is the old one of the next. -/
def reparseInTurn : Program → String → List Edit → List Reparse
  | _, _, [] => []
  | program, text, edit :: later =>
    let again := program.reparse edit.change (edit.apply text)
    again :: reparseInTurn again.program (edit.apply text) later

/-- Along any run of edits that fit, reading again gives after every edit the
program and the diagnostics of the text that the edit has left. -/
theorem reparseInTurn_eq_parse {text : String} {edits : List Edit}
    (h : Edit.fitsInTurn text edits = true) :
    ((parse text).reparseInTurn text edits).map
        (fun again => (again.program, again.diagnostics)) =
      (Edit.textsInTurn text edits).map fun left => (parse left, (parse left).diagnostics) := by
  induction edits generalizing text with
  | nil => rfl
  | cons edit later ih =>
    rw [Edit.fitsInTurn, Bool.and_eq_true] at h
    obtain ⟨hedit, hlater⟩ := h
    have hprogram := reparse_edit hedit
    rw [reparseInTurn, Edit.textsInTurn, List.map_cons, List.map_cons, diagnostics_reparse,
      hprogram, ih hlater]

/-- A mark is pushed off the start of its text, a line is joined to the next and
a carriage return parted from its line feed. -/
theorem reparseInTurn_eq_parse_mark :
    Edit.fitsInTurn "\uFEFFset a 1\r\nbind j x"
        [⟨0, 0, "\n"⟩, ⟨11, 12, ""⟩, ⟨11, 12, "\rq\n"⟩] = true ∧
      ((parse "\uFEFFset a 1\r\nbind j x").reparseInTurn "\uFEFFset a 1\r\nbind j x"
          [⟨0, 0, "\n"⟩, ⟨11, 12, ""⟩, ⟨11, 12, "\rq\n"⟩]).map
          (fun again => (again.program, again.diagnostics)) =
        (Edit.textsInTurn "\uFEFFset a 1\r\nbind j x"
          [⟨0, 0, "\n"⟩, ⟨11, 12, ""⟩, ⟨11, 12, "\rq\n"⟩]).map
          fun left => (parse left, (parse left).diagnostics) :=
  have hfits : Edit.fitsInTurn "\uFEFFset a 1\r\nbind j x"
      [⟨0, 0, "\n"⟩, ⟨11, 12, ""⟩, ⟨11, 12, "\rq\n"⟩] = true := by decide +kernel
  ⟨hfits, reparseInTurn_eq_parse hfits⟩

end Program

end RcScript
