import RcScript.Proofs.IncrementalReading

/-!
# What is read again after an edit

Both cuts of an edited text are as tight as lines allow. In front, every line that is
closed before the edit is kept. Behind, every line is kept that starts behind the first
line feed to follow the edit. Only the line that the edit starts on is left, with those
that the edit puts in, so the number of lines read again does not depend on the text or
on how much of it is deleted. Nothing is said of the time that the search for the cuts
takes.
-/

namespace RcScript

open Text

/-- An outcome of reading again that counts every statement once and reads few again. -/
structure Reparse.IsLocal (again : Reparse) (insert : List Char) : Prop where
  /-- Every statement is either kept or read again. -/
  counted : again.reused + again.reparsed = again.program.statements.length
  /-- One line is read again, and one more for each line feed that is put in. -/
  few : again.reparsed ≤ 1 + insert.count '\n'

namespace Program

open Reader

/-- A statement that starts behind a change and behind a line feed moves whole. -/
theorem movesWhole_of_atLineStart {before removed insert between rest : List Char}
    {statement : Statement} (hne : between ≠ []) (hline : AtLineStart between)
    (hstart : statement.span.start = utf8Length (before ++ (removed ++ between))) :
    movesWhole (Change.splice before removed insert) (before ++ (insert ++ (between ++ rest)))
      statement = true := by
  have hpos := utf8Length_pos hne
  have hmove : (utf8Length (before ++ (removed ++ between)) : Int) +
      (Change.splice before removed insert).delta =
      (utf8Length (before ++ (insert ++ between)) : Nat) := by
    rw [Change.splice_delta]
    simp only [utf8Length_append]
    omega
  have hopen : AtLineStart (before ++ (insert ++ between)) := by
    rw [← List.append_assoc, atLineStart_append hne]
    exact hline
  have hfeed := followsLineFeed_of_atLineStart hopen (by simp [hne]) rest
  simp only [List.append_assoc] at hfeed
  simp only [movesWhole, hstart, hmove, Int.toNat_natCast, hfeed, Bool.and_true, Bool.and_eq_true,
    decide_eq_true_eq]
  simp only [Change.splice, Change.newStop, utf8Length_append]
  omega

/-- Dropping stops at the latest where the predicate fails. -/
theorem length_le_dropWhile {α : Type} {p : α → Bool} {front back : List α}
    (h : ∀ first ∈ back.head?, p first = false) :
    back.length ≤ ((front ++ back).dropWhile p).length := by
  have hback : back.dropWhile p = back := by
    cases back with
    | nil => rfl
    | cons first later => exact List.dropWhile_cons_of_neg (by simp [h first rfl])
  rw [List.dropWhile_append]
  split
  · exact Nat.le_of_eq (congrArg List.length hback.symm)
  · rw [List.length_append]
    omega

/-- The statements behind the first line feed that follows a change are kept. -/
theorem length_le_keptBehind {before removed between : List Char} {kept : Nat}
    (hne : between ≠ []) (hline : AtLineStart between)
    (hkept : kept ≤ (lines (before ++ (removed ++ between))).length) (insert rest : List Char) :
    (lines rest).length ≤
      (((parse (String.ofList (before ++ (removed ++ (between ++ rest))))).statements.drop
        kept).dropWhile fun statement => !movesWhole (Change.splice before removed insert)
          (before ++ (insert ++ (between ++ rest))) statement).length := by
  have hopen : AtLineStart (before ++ (removed ++ between)) := by
    rw [← List.append_assoc, atLineStart_append hne]
    exact hline
  have hsplit : before ++ (removed ++ (between ++ rest)) =
      (before ++ (removed ++ between)) ++ rest := by
    simp only [List.append_assoc]
  have hlength := length_readLines 0 1 (lines (before ++ (removed ++ between)))
  rw [parse, String.toList_ofList, hsplit, lines_append hopen, readLines_append,
    flatMap_toList_lines, Nat.zero_add, List.drop_append_of_le_length (by rw [hlength]; exact hkept),
    ← length_readLines (utf8Length (before ++ (removed ++ between)))
      (1 + (lines (before ++ (removed ++ between))).length) (lines rest)]
  refine length_le_dropWhile fun first hfirst => ?_
  cases hlines : lines rest with
  | nil => simp [hlines, readLines] at hfirst
  | cons line later =>
    rw [hlines, readLines, List.head?_cons, Option.mem_some_iff] at hfirst
    rw [← hfirst, movesWhole_of_atLineStart hne hline rfl]
    rfl

/-- Every statement of the outcome is either kept or read again. -/
theorem reused_add_reparsed (old : Program) (change : Change) (newText : String) :
    (old.reparse change newText).reused + (old.reparse change newText).reparsed =
      (old.reparse change newText).program.statements.length := by
  simp only [reparse, List.length_append]
  generalize (List.drop _ old.statements).dropWhile _ = after
  cases after with
  | nil => simp
  | cons next later =>
    simp only [List.head?_cons, List.length_map]
    omega

/-- The number of statements kept on both sides of a change. -/
theorem reused_splice (before removed insert after : List Char) :
    ((parse (String.ofList (before ++ (removed ++ after)))).reparse
      (Change.splice before removed insert) (String.ofList (before ++ (insert ++ after)))).reused =
      before.count '\n' + (((parse (String.ofList (before ++ (removed ++ after)))).statements.drop
        (before.count '\n')).dropWhile fun statement =>
          !movesWhole (Change.splice before removed insert) (before ++ (insert ++ after))
            statement).length := by
  have hkept := keptBefore_eq before removed insert (removed ++ after) (insert ++ after)
  have hle : before.count '\n' ≤
      (parse (String.ofList (before ++ (removed ++ after)))).statements.length := by
    rw [length_statements, String.toList_ofList, length_lines_eq, List.count_append]
    omega
  simp only [reparse, String.toList_ofList, hkept, List.length_take, Nat.min_eq_left hle]

/-- A change has one line read again, and one more for each line feed that it puts in. -/
theorem reparsed_splice_le (before removed insert after : List Char) :
    ((parse (String.ofList (before ++ (removed ++ after)))).reparse
      (Change.splice before removed insert)
      (String.ofList (before ++ (insert ++ after)))).reparsed ≤ 1 + insert.count '\n' := by
  have hsum := reused_add_reparsed (parse (String.ofList (before ++ (removed ++ after))))
    (Change.splice before removed insert) (String.ofList (before ++ (insert ++ after)))
  rw [reparse_splice, reused_splice, length_statements, String.toList_ofList, length_lines_eq]
    at hsum
  by_cases hfeed : '\n' ∈ after
  · obtain ⟨first, rest, rfl, hfirst⟩ := List.eq_append_cons_of_mem hfeed
    have hline := atLineStart_feed first
    have hlength : before.count '\n' ≤
        (lines (before ++ (removed ++ (first ++ ['\n'])))).length := by
      rw [length_lines_eq, List.count_append]
      omega
    have hbehind := length_le_keptBehind (by simp) hline hlength insert rest
    have hstart : AtLineStart (before ++ (insert ++ (first ++ '\n' :: rest))) ↔
        AtLineStart rest := by
      rw [← List.append_assoc, ← List.append_assoc, atLineStart_feed_iff]
    rw [List.append_assoc, List.singleton_append, length_lines_eq] at hbehind
    simp only [hstart, List.count_append, List.count_cons_self] at hsum
    rw [List.count_eq_zero_of_not_mem hfirst] at hsum
    omega
  · rw [List.count_append, List.count_append, List.count_eq_zero_of_not_mem hfeed] at hsum
    split at hsum <;> omega

/-- Reading again after an edit that fits counts every statement once and reads no more
lines again than the edit puts in and one. -/
theorem reparse_local {edit : Edit} {text : String} (h : edit.fits text = true) :
    ((parse text).reparse edit.change (edit.apply text)).IsLocal edit.insert.toList := by
  obtain ⟨before, removed, after, htext, hchange, happly⟩ := edit.exists_splice h
  have hold : text = String.ofList (before ++ (removed ++ after)) := by
    rw [← htext, String.ofList_toList]
  refine ⟨reused_add_reparsed _ _ _, ?_⟩
  rw [happly, hchange, hold]
  exact reparsed_splice_le before removed edit.insert.toList after

/-- A line put in before a first line with a mark has that line read again too, which is
as much as the bound allows. -/
theorem reparse_local_mark :
    Edit.fits ⟨0, 0, "x\n"⟩ "\uFEFFset a 1\r\nbind j x" = true ∧
      ((parse "\uFEFFset a 1\r\nbind j x").reparse (Edit.change ⟨0, 0, "x\n"⟩)
        (Edit.apply ⟨0, 0, "x\n"⟩ "\uFEFFset a 1\r\nbind j x")).IsLocal "x\n".toList ∧
      ((parse "\uFEFFset a 1\r\nbind j x").reparse (Edit.change ⟨0, 0, "x\n"⟩)
        (Edit.apply ⟨0, 0, "x\n"⟩ "\uFEFFset a 1\r\nbind j x")).reparsed =
          1 + "x\n".toList.count '\n' :=
  have hfits : Edit.fits ⟨0, 0, "x\n"⟩ "\uFEFFset a 1\r\nbind j x" = true := by decide +kernel
  ⟨hfits, reparse_local hfits, by decide +kernel⟩

end Program

end RcScript
