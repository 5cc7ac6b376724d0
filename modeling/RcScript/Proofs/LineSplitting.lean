import RcScript.Text.Line

/-!
# Splitting a text into lines

A text is empty, or one line without a line feed, or such a line, a line feed
and a text. Splitting follows these three cases, so the lines of a text whose
first part closes its last line are those of the first part followed by those of
the second. `IsLine` says what a line of a text is without the splitter; the
lines that the splitter finds are exactly these.
-/

namespace RcScript.Text

/-- A line starts behind these characters: they are none, or end in a line feed. -/
def AtLineStart (before : List Char) : Prop := ∀ c ∈ before.getLast?, c = '\n'

instance (before : List Char) : Decidable (AtLineStart before) :=
  inferInstanceAs (Decidable (∀ c ∈ before.getLast?, c = '\n'))

/-- Either there are no characters or the last one is a line feed. -/
theorem atLineStart_iff {before : List Char} :
    AtLineStart before ↔ before = [] ∨ before.getLast? = some '\n' := by
  cases hlast : before.getLast? with
  | none => simp [AtLineStart, List.getLast?_eq_none_iff.mp hlast]
  | some c =>
    have hne : before ≠ [] := by
      rintro rfl
      simp at hlast
    simp [AtLineStart, hlast, hne]

/-- A line starts where nothing stands in front. -/
theorem atLineStart_nil : AtLineStart [] := by
  simp [AtLineStart]

/-- A line starts behind a line feed. -/
theorem atLineStart_feed (cs : List Char) : AtLineStart (cs ++ ['\n']) := by
  simp [AtLineStart]

/-- Nothing but what comes last decides whether a line starts. -/
theorem atLineStart_append {before after : List Char} (h : after ≠ []) :
    AtLineStart (before ++ after) ↔ AtLineStart after := by
  simp only [AtLineStart, List.getLast?_append, List.getLast?_eq_some_getLast h, Option.some_or]

/-- A line starts behind two parts when one starts behind each. -/
theorem AtLineStart.append {before after : List Char} (hb : AtLineStart before)
    (ha : AtLineStart after) : AtLineStart (before ++ after) := by
  by_cases h : after = []
  · simpa [h] using hb
  · exact (atLineStart_append h).mpr ha

/-- A line that starts behind two parts starts behind the second. -/
theorem AtLineStart.of_append {before after : List Char} (h : AtLineStart (before ++ after)) :
    AtLineStart after := by
  by_cases hne : after = []
  · rw [hne]
    exact atLineStart_nil
  · exact (atLineStart_append hne).mp h

/-- A line also starts behind what follows a first line feed. -/
theorem AtLineStart.of_feed {first later : List Char}
    (h : AtLineStart (first ++ '\n' :: later)) : AtLineStart later := by
  rw [← List.singleton_append] at h
  exact h.of_append.of_append

/-- Whether a line starts behind a line feed and more is decided by what is more. -/
theorem atLineStart_feed_iff (first later : List Char) :
    AtLineStart (first ++ '\n' :: later) ↔ AtLineStart later := by
  constructor
  · exact AtLineStart.of_feed
  · intro h
    have hboth := (atLineStart_feed first).append h
    rwa [List.append_assoc, List.singleton_append] at hboth

/-- Behind characters without a line feed no line starts. -/
theorem not_atLineStart {cs : List Char} (hne : cs ≠ []) (h : '\n' ∉ cs) : ¬ AtLineStart cs := by
  intro hs
  have he := hs (cs.getLast hne) (List.getLast_mem_getLast? hne)
  exact h (he ▸ List.getLast_mem hne)

/-- The three forms of a text, as an induction principle. -/
theorem line_induction {motive : List Char → Prop} (nil : motive [])
    (last : ∀ cs, cs ≠ [] → '\n' ∉ cs → motive cs)
    (feed : ∀ first later, '\n' ∉ first → motive later → motive (first ++ '\n' :: later))
    (cs : List Char) : motive cs := by
  by_cases h : '\n' ∈ cs
  · obtain ⟨first, later, rfl, hf⟩ := List.eq_append_cons_of_mem h
    exact feed first later hf (line_induction nil last feed later)
  · by_cases hne : cs = []
    · exact hne ▸ nil
    · exact last cs hne h
termination_by cs.length
decreasing_by
  subst_vars
  simp
  omega

/-- Without a line feed only the characters given before grow. -/
theorem linesFrom_append {cs : List Char} (h : '\n' ∉ cs) (reversed later : List Char) :
    linesFrom reversed (cs ++ later) = linesFrom (cs.reverse ++ reversed) later := by
  induction cs generalizing reversed with
  | nil => rfl
  | cons c cs ih =>
    have hc := List.ne_of_not_mem_cons h
    rw [List.cons_append, linesFrom, if_neg (by simpa using hc.symm),
      ih (List.not_mem_of_not_mem_cons h)]
    simp

/-- The empty text has no line. -/
@[simp]
theorem lines_nil : lines [] = [] := rfl

/-- A text without a line feed is one line. -/
theorem lines_last {cs : List Char} (hne : cs ≠ []) (h : '\n' ∉ cs) :
    lines cs = [Line.ofReversed cs.reverse []] := by
  have hs := linesFrom_append h [] []
  rw [List.append_nil, List.append_nil] at hs
  rw [lines, hs, linesFrom, if_neg (by simpa using hne)]

/-- The first line feed ends the first line. -/
theorem lines_feed {first : List Char} (h : '\n' ∉ first) (later : List Char) :
    lines (first ++ '\n' :: later) = Line.ofReversed first.reverse ['\n'] :: lines later := by
  rw [lines, linesFrom_append h, linesFrom, if_pos (beq_self_eq_true _), List.append_nil, lines]

/-- Lines split where a line starts. -/
theorem lines_append {before : List Char} (hb : AtLineStart before) (after : List Char) :
    lines (before ++ after) = lines before ++ lines after := by
  induction before using line_induction with
  | nil => rfl
  | last cs hne h => exact absurd hb (not_atLineStart hne h)
  | feed first later h ih =>
    rw [List.append_assoc, List.cons_append, lines_feed h, lines_feed h, ih hb.of_feed]
    rfl

/-- A text has a line for every line feed, and one more if it ends in anything else. -/
theorem length_lines_eq (cs : List Char) :
    (lines cs).length = cs.count '\n' + if AtLineStart cs then 0 else 1 := by
  induction cs using line_induction with
  | nil => rw [if_pos atLineStart_nil, lines_nil, List.length_nil, List.count_nil]
  | last cs hne hf =>
    have hcount := List.count_eq_zero_of_not_mem hf
    rw [lines_last hne hf, if_neg (not_atLineStart hne hf), hcount]
    rfl
  | feed first later hf ih =>
    have hcount := List.count_eq_zero_of_not_mem hf
    rw [lines_feed hf, List.length_cons, ih, List.count_append, List.count_cons_self, hcount]
    simp only [atLineStart_feed_iff]
    omega

/-- A closed text has as many lines as line feeds. -/
theorem length_lines {before : List Char} (hb : AtLineStart before) :
    (lines before).length = before.count '\n' := by
  rw [length_lines_eq, if_pos hb, Nat.add_zero]

/-- A text is cut behind its last line feed. -/
theorem exists_lastFeed (cs : List Char) :
    ∃ front rest, cs = front ++ rest ∧ AtLineStart front ∧ '\n' ∉ rest := by
  induction cs using line_induction with
  | nil => exact ⟨[], [], rfl, atLineStart_nil, List.not_mem_nil⟩
  | last cs _ hf => exact ⟨[], cs, rfl, atLineStart_nil, hf⟩
  | feed first later _ ih =>
    obtain ⟨front, rest, rfl, hfront, hrest⟩ := ih
    refine ⟨first ++ '\n' :: front, rest, ?_, (atLineStart_feed_iff first front).mpr hfront, hrest⟩
    rw [List.append_assoc, List.cons_append]

/-- Lines found at the front of a text are the lines of the part that they
cover, and those behind them are the lines of the rest. -/
theorem lines_eq_append {cs : List Char} {front back : List Line} (h : lines cs = front ++ back) :
    lines (front.flatMap Line.toList) = front ∧ lines (back.flatMap Line.toList) = back ∧
      (back ≠ [] → AtLineStart (front.flatMap Line.toList)) := by
  induction cs using line_induction generalizing front with
  | nil =>
    obtain ⟨rfl, rfl⟩ := List.append_eq_nil_iff.mp h.symm
    simp
  | last cs hne hf =>
    cases front with
    | nil =>
      have hb : back = lines cs := h.symm
      subst hb
      simp [flatMap_toList_lines, atLineStart_nil]
    | cons line front =>
      rw [lines_last hne hf, List.cons_append, List.cons_eq_cons] at h
      obtain ⟨rfl, hnil⟩ := h
      obtain ⟨rfl, rfl⟩ := List.append_eq_nil_iff.mp hnil.symm
      simp [toList_ofReversed, lines_last hne hf]
  | feed first later hf ih =>
    cases front with
    | nil =>
      have hb : back = lines (first ++ '\n' :: later) := h.symm
      subst hb
      simp [flatMap_toList_lines, atLineStart_nil]
    | cons line front =>
      rw [lines_feed hf, List.cons_append, List.cons_eq_cons] at h
      obtain ⟨rfl, hlater⟩ := h
      obtain ⟨hfront, hback, hstart⟩ := ih hlater
      have hcover : (Line.ofReversed first.reverse ['\n'] :: front).flatMap Line.toList =
          first ++ '\n' :: front.flatMap Line.toList := by
        simp [toList_ofReversed]
      rw [hcover]
      refine ⟨by rw [lines_feed hf, hfront], hback, fun hne => ?_⟩
      have hs := (atLineStart_feed first).append (hstart hne)
      simpa using hs

/-- A line of the text that is `before`, the line and `after` in turn: a line
starts behind `before`, the terminator is the first to come, and no carriage
return next to the end stays in the content. -/
structure IsLine (before : List Char) (line : Line) (after : List Char) : Prop where
  /-- Nothing or a line feed stands before the line. -/
  starts : AtLineStart before
  /-- There is a line to speak of. -/
  nonempty : line.toList ≠ []
  /-- The content ends at the first line feed. -/
  content_feed : '\n' ∉ line.content
  /-- The terminator has a line feed unless the text ends with it. -/
  terminator : line.terminator = ['\n'] ∨ line.terminator = ['\r', '\n'] ∨
    (after = [] ∧ (line.terminator = [] ∨ line.terminator = ['\r']))
  /-- A carriage return next to the end belongs to the terminator. -/
  content_return : line.terminator.head? ≠ some '\r' → line.content.getLast? ≠ some '\r'

/-- The one carriage return at the end moves to the terminator. -/
theorem ofReversed_return (cs lineFeed : List Char) :
    Line.ofReversed (cs ++ ['\r']).reverse lineFeed = ⟨cs, '\r' :: lineFeed⟩ := by
  simp [Line.ofReversed]

/-- Without a carriage return at the end nothing moves. -/
theorem ofReversed_of_getLast {cs : List Char} (h : cs.getLast? ≠ some '\r')
    (lineFeed : List Char) : Line.ofReversed cs.reverse lineFeed = ⟨cs, lineFeed⟩ := by
  unfold Line.ofReversed
  split
  · next rest hr => simp [← List.head?_reverse, hr] at h
  · simp

/-- What a line is by description, the splitter finds. -/
theorem lines_of_isLine {before : List Char} {line : Line} {after : List Char}
    (h : IsLine before line after) :
    lines (before ++ (line.toList ++ after)) = lines before ++ line :: lines after := by
  rw [lines_append h.starts]
  congr 1
  have hf := h.content_feed
  obtain ⟨content, terminator⟩ := line
  simp only [Line.toList] at hf ⊢
  have hr : '\n' ∉ content ++ ['\r'] := by simpa using hf
  rcases h.terminator with ht | ht | ⟨rfl, ht | ht⟩
  · obtain rfl := ht
    have hl := h.content_return (by simp)
    rw [List.append_assoc, List.singleton_append, lines_feed hf, ofReversed_of_getLast hl]
  · obtain rfl := ht
    have he : content ++ ['\r', '\n'] ++ after = (content ++ ['\r']) ++ '\n' :: after := by simp
    rw [he, lines_feed hr, ofReversed_return]
  · obtain rfl := ht
    have hl := h.content_return (by simp)
    have hne : content ≠ [] := by simpa [Line.toList] using h.nonempty
    rw [List.append_nil, List.append_nil, lines_last hne hf, ofReversed_of_getLast hl, lines_nil]
  · obtain rfl := ht
    rw [List.append_nil, lines_last (by simp) hr, ofReversed_return, lines_nil]

/-- Characters up to a line feed or the end, with a return at their end or not. -/
theorem ofReversed_cases (cs lineFeed : List Char) :
    (cs.getLast? ≠ some '\r' ∧ Line.ofReversed cs.reverse lineFeed = ⟨cs, lineFeed⟩) ∨
      ∃ content, cs = content ++ ['\r'] ∧
        Line.ofReversed cs.reverse lineFeed = ⟨content, '\r' :: lineFeed⟩ := by
  by_cases h : cs.getLast? = some '\r'
  · obtain ⟨content, rfl⟩ := List.getLast?_eq_some_iff.mp h
    exact .inr ⟨content, rfl, ofReversed_return content lineFeed⟩
  · exact .inl ⟨h, ofReversed_of_getLast h lineFeed⟩

/-- What the splitter finds is a line by description, whichever of its three forms the text that is
left from it on has. -/
theorem isLine_of_lines {cs : List Char} {front back : List Line} {line : Line}
    (h : lines cs = front ++ line :: back) :
    IsLine (front.flatMap Line.toList) line (back.flatMap Line.toList) := by
  obtain ⟨-, hback, hstart⟩ := lines_eq_append h
  have hs := hstart (by simp)
  generalize front.flatMap Line.toList = before at hs ⊢
  generalize ht : (line :: back).flatMap Line.toList = tail at hback
  induction tail using line_induction with
  | nil => simp at hback
  | last cs hne hf =>
    rw [lines_last hne hf, List.cons_eq_cons] at hback
    obtain ⟨rfl, rfl⟩ := hback
    rcases ofReversed_cases cs [] with ⟨hl, he⟩ | ⟨content, rfl, he⟩
    · rw [he]
      exact ⟨hs, by simpa [Line.toList] using hne, hf, by simp, fun _ => hl⟩
    · rw [he]
      exact ⟨hs, by simp [Line.toList], by simpa using hf, by simp, by simp⟩
  | feed first later hf _ =>
    rw [lines_feed hf, List.cons_eq_cons] at hback
    obtain ⟨rfl, rfl⟩ := hback
    rcases ofReversed_cases first ['\n'] with ⟨hl, he⟩ | ⟨content, rfl, he⟩
    · rw [he]
      exact ⟨hs, by simp [Line.toList], hf, by simp, fun _ => hl⟩
    · rw [he]
      exact ⟨hs, by simp [Line.toList], by simpa using hf, by simp, by simp⟩

/-- The line at a place parts the lines of a text. -/
theorem lines_cut {cs : List Char} {index : Nat} {line : Line}
    (h : (lines cs)[index]? = some line) :
    lines cs = (lines cs).take index ++ line :: (lines cs).drop (index + 1) := by
  obtain ⟨hlt, hget⟩ := List.getElem?_eq_some_iff.mp h
  rw [← hget, ← List.drop_eq_getElem_cons hlt, List.take_append_drop]

/-- The line at a place stands between the lines before it and those after it. -/
theorem eq_append_of_getElem?_lines {cs : List Char} {index : Nat} {line : Line}
    (h : (lines cs)[index]? = some line) :
    cs = ((lines cs).take index).flatMap Line.toList ++
      (line.toList ++ ((lines cs).drop (index + 1)).flatMap Line.toList) := by
  calc cs = (lines cs).flatMap Line.toList := (flatMap_toList_lines cs).symm
    _ = ((lines cs).take index ++ line :: (lines cs).drop (index + 1)).flatMap Line.toList :=
      congrArg (List.flatMap Line.toList) (lines_cut h)
    _ = _ := by rw [List.flatMap_append, List.flatMap_cons]

/-- A line has one line feed, at its end, unless it ends the text. -/
theorem IsLine.exists_body {before : List Char} {line : Line} {after : List Char}
    (h : IsLine before line after) :
    ∃ body, '\n' ∉ body ∧ (line.toList = body ++ ['\n'] ∨ after = [] ∧ line.toList = body) := by
  have hcontent := h.content_feed
  have hreturn : '\n' ∉ line.content ++ ['\r'] := by simpa using hcontent
  rcases h.terminator with ht | ht | ⟨hafter, ht | ht⟩
  · exact ⟨line.content, hcontent, .inl (by rw [Line.toList, ht])⟩
  · exact ⟨line.content ++ ['\r'], hreturn, .inl (by rw [Line.toList, ht, List.append_assoc]; rfl)⟩
  · exact ⟨line.content, hcontent, .inr ⟨hafter, by rw [Line.toList, ht, List.append_nil]⟩⟩
  · exact ⟨line.content ++ ['\r'], hreturn, .inr ⟨hafter, by rw [Line.toList, ht]⟩⟩

/-- Nothing stands behind a line of a text only where it is the last. -/
theorem length_lines_of_last {cs : List Char} {index : Nat} {line : Line}
    (h : (lines cs)[index]? = some line)
    (hlast : ((lines cs).drop (index + 1)).flatMap Line.toList = []) :
    index + 1 = (lines cs).length := by
  have hcut : lines cs = ((lines cs).take index ++ [line]) ++ (lines cs).drop (index + 1) := by
    rw [List.append_assoc, List.singleton_append]
    exact lines_cut h
  have hback := (lines_eq_append hcut).2.1
  rw [hlast, lines_nil] at hback
  have hle := List.drop_eq_nil_iff.mp hback.symm
  have hlt := (List.getElem?_eq_some_iff.mp h).1
  omega

end RcScript.Text
