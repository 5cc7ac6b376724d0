import RcScript.Proofs.CheckedReading

/-!
# Reading a text by byte offsets is never refused

For every text, the reader that slices the text at byte offsets gives the program of the
text. It makes no access that is refused on the way: no slice with ends crossed, out of
the text or inside a character, no byte out of range and no difference below zero. It
also comes to an end, since its loops give a result only if they do.
-/

namespace RcScript

open Text

variable {text : List Char} {line : SourceLine} {state : LineState} {progress : Progress}

/-- What a line is read as that gives a node or a diagnostic. -/
def LineState.settled (line : SourceLine) (outcome : Except Diagnostic Node × LineState) :
    List Token × Node :=
  match outcome with
  | (.ok node, later) => (later.tokens, node)
  | (.error diagnostic, later) =>
    (later.tokens, .malformed diagnostic (String.ofList line.content))

/-- Reading by offsets is not refused, and the line is read as `read`. -/
def Scanning.Settles (line : SourceLine) (scanning : Scanning Node) (state : LineState)
    (read : List Token × Node) : Prop :=
  ∃ outcome, scanning state = some outcome ∧ LineState.settled line outcome = read

namespace Cursor

variable {cursor : Cursor} {request : Request} {token : Token}

/-- A token does not end before it starts. -/
theorem start_le_stop (h : (cursor.answer request).1 = some token) :
    token.span.start ≤ token.span.stop := by
  rw [answer_eq] at h
  cases hfound : (cursor.ready request).lexeme? request with
  | none => simp [hfound, grant] at h
  | some lexeme =>
    rw [hfound, grant, Option.some.injEq] at h
    rw [← h, Cursor.token]
    exact Nat.le_add_right _ _

end Cursor

/-- Behind a token the cursor stands at its end. -/
theorem Progress.stop_of_accept {later : Progress} {request : Request} {token : Token}
    (h : progress.accept request = some (token, later)) :
    token.span.stop = later.cursor.position := by
  rw [accept_eq, Option.map_eq_some_iff] at h
  obtain ⟨lexeme, -, he⟩ := h
  obtain ⟨rfl, rfl⟩ := Prod.mk.inj he
  rw [Cursor.advance_position]
  rfl

namespace Scanning

/-- A statement that is read to its end or to a fault settles its line. -/
theorem Follows.settles {scanning : Scanning Node} {reading : Reading Node}
    (h : Follows text line scanning reading) (htracks : state.Tracks text line progress) :
    Settles line scanning state (Reader.conclude line state.kind (reading progress)) := by
  obtain ⟨later, hread, -, hlater⟩ := h state progress htracks
  refine ⟨_, hread, ?_⟩
  cases hmodel : reading progress with
  | mk outcome last =>
    rw [hmodel] at hlater
    cases outcome with
    | ok node =>
      rw [Reader.conclude, ← hlater.tokens]
      rfl
    | error fault =>
      rw [Reader.conclude, ← hlater.tokens]
      rfl

/-- What follows a value settles the line, if it does so from there. -/
theorem settles_of_ok {scanning : Scanning α} {next : α → Scanning Node} {value : α}
    {later : LineState} {read : List Token × Node} (h : scanning state = some (.ok value, later))
    (hn : Settles line (next value) later read) : Settles line (scanning >>= next) state read := by
  rwa [Settles, bind_of_ok h]

/-- A node that is there already settles the line with the tokens taken so far. -/
theorem settles_pure {node : Node} : Settles line (pure node) state (state.tokens, node) :=
  ⟨_, rfl, rfl⟩

/-- A comment is the rest of the line behind its quote mark. -/
theorem settles_comment (hline : line.LiesIn text) {quote : Token} {next : Progress}
    (haccept : progress.accept .quoteMark = some (quote, next))
    (htracks : LineState.Tracks text line
      ⟨next.cursor.scanner text, state.tokens ++ [quote], state.kind⟩ next) :
    Settles line (comment quote) ⟨next.cursor.scanner text, state.tokens, state.kind⟩
      (Reader.comment next) := by
  have hrest := (htracks.liesIn hline).rest_scanner
  have hbody : slice? quote.span.stop next.cursor.lineEnd text = some next.cursor.rest := by
    rw [Progress.stop_of_accept haccept]
    exact hrest
  have hfollows : Follows text line (optional .remainder) (Reading.optional .remainder) :=
    follows_optional hline rfl
  obtain ⟨later, hread, -, hlater⟩ := hfollows _ _ htracks
  simp only [Settles, comment, hbody, Cursor.scanner, Option.bind_eq_bind, Option.bind_some]
  rw [← Cursor.scanner, ← Settles]
  cases hrest : next.accept .remainder with
  | none =>
    simp only [Reading.optional, hrest] at hread hlater
    simp only [Reader.comment, hrest, ← hlater.tokens]
    exact settles_of_ok rfl (settles_of_ok hread (settles_of_ok rfl settles_pure))
  | some taken =>
    simp only [Reading.optional, hrest] at hread hlater
    simp only [Reader.comment, hrest, ← hlater.tokens]
    exact settles_of_ok rfl (settles_of_ok hread (settles_of_ok rfl settles_pure))

/-- The opening of a line is weighed as it is by characters. -/
theorem foundLength_eq (hline : line.LiesIn text) (htracks : state.Tracks text line progress)
    (request : Request) (hskip : request.skipsBlanks = true) :
    state.scanner.foundLength request = some (Reader.foundLength progress.cursor request) := by
  obtain ⟨scanner, hanswer⟩ := htracks.answer_fst hline request hskip
  rw [Scanner.foundLength, hanswer, Reader.foundLength]
  cases hfound : (progress.cursor.answer request).1 with
  | none => rfl
  | some token => exact if_pos (Cursor.start_le_stop hfound)

/-- Whether the line opens with a command is told by offsets as by characters, and moves nothing. -/
theorem opensWithCommand_eq (hline : line.LiesIn text)
    (htracks : state.Tracks text line progress) :
    opensWithCommand state = some (.ok (Reader.opensWithCommand progress.cursor), state) := by
  obtain ⟨scanner, hanswer⟩ := htracks.answer_fst hline .commandName rfl
  have hstructural := foundLength_eq hline htracks (.structural Pattern.priority) rfl
  simp only [opensWithCommand, hstructural, hanswer, Option.bind_eq_bind, Option.bind_some,
    Reader.opensWithCommand]
  cases hfound : (progress.cursor.answer .commandName).1 with
  | none => rfl
  | some token =>
    have hlength : minus? token.span.stop token.span.start = some token.span.length :=
      if_pos (Cursor.start_le_stop hfound)
    simp only [hlength, Option.bind_some, Option.any_some]
    rfl

/-- A line that opens with neither quote nor keyword. -/
theorem settles_command (hline : line.LiesIn text) (htracks : state.Tracks text line progress) :
    Settles line command state (Reader.command line progress) := by
  have hentered := htracks.enter .exCommand
  refine settles_of_ok rfl (settles_of_ok (opensWithCommand_eq hline hentered) ?_)
  rw [Reader.command]
  split
  · have hfollows : Follows text line (exCommand >>= fun command => pure (.exCommand command))
        (Node.exCommand <$> Grammar.exCommand) :=
      (follows_exCommand hline).bind fun _ => follows_pure _
    exact hfollows.settles hentered
  · refine ⟨(.error _, _), ?_, by rw [LineState.settled, hentered.tokens]; rfl⟩
    simp only [unrecognized, hentered.nextWord? hline, Option.bind_eq_bind, Option.bind_some]
    exact fail_eq hentered hline _ _

/-- The keywords are tried in turn. -/
theorem settles_clauseOf (hline : line.LiesIn text) (keywords : List Keyword)
    (htracks : state.Tracks text line progress) :
    Settles line (clauseOf keywords) state
      (match keywords.findSome? fun keyword => (progress.accept (.keyword keyword.literal)).map
          fun found => (keyword, found.2) with
        | some (keyword, later) =>
          Reader.conclude line keyword.statementKind (Grammar.statement keyword later)
        | none => Reader.command line progress) := by
  induction keywords generalizing state with
  | nil => exact settles_command hline htracks
  | cons keyword later ih =>
    rcases (htracks.ready (.keyword keyword.literal) rfl).answer htracks hline with
      ⟨hnone, scanner, hanswer, hlater⟩ | ⟨token, next, hsome, hanswer, hlater⟩
    · rw [List.findSome?_cons, hnone]
      exact settles_of_ok (optional_of_none hanswer) (ih hlater)
    · rw [List.findSome?_cons, hsome]
      refine settles_of_ok (optional_of_some hanswer) (settles_of_ok rfl ?_)
      exact (follows_clause hline keyword).settles (hlater.enter _)

/-- A line that is not blank is read as it is by characters. -/
theorem settles_statement (hline : line.LiesIn text)
    (htracks : state.Tracks text line line.progress)
    (hvisible : line.progress.cursor.atEnd = false) :
    Settles line statement state (Reader.readLine line) := by
  simp only [Reader.readLine, hvisible, Bool.false_eq_true, if_false]
  rcases (htracks.ready .quoteMark rfl).answer htracks hline with
    ⟨hnone, scanner, hanswer, hlater⟩ | ⟨token, next, hsome, hanswer, hlater⟩
  · rw [hnone]
    exact settles_of_ok (find_of_answer hanswer) (settles_clauseOf hline Keyword.all hlater)
  · rw [hsome]
    exact settles_of_ok (find_of_answer hanswer) (settles_comment hline hsome hlater)

end Scanning

/-- A line is read by offsets as it is by characters. -/
theorem Scanner.readLine_eq (hline : line.LiesIn text) :
    (Scanner.mk text line.origin (line.origin + utf8Length line.content) line.number
      line.origin).readLine = some (Reader.readLine line) := by
  have hscanner : Scanner.mk text line.origin (line.origin + utf8Length line.content)
      line.number line.origin = line.progress.cursor.scanner text := rfl
  have hlies : line.progress.cursor.LiesIn text := hline
  rw [readLine, hscanner, hlies.atEnd_scanner]
  cases hatEnd : line.progress.cursor.atEnd with
  | true =>
    simp only [Option.bind_eq_bind, Option.bind_some, Reader.readLine, hatEnd, if_true]
    rfl
  | false =>
    have htracks : LineState.Tracks text line
        ⟨line.progress.cursor.skipBlanks.scanner text, [], .exCommand⟩ line.progress :=
      ⟨⟨_, rfl, Cursor.skipBlanks_skipBlanks _⟩, rfl, rfl, rfl, rfl⟩
    obtain ⟨⟨outcome, later⟩, hread, hsettled⟩ := Scanning.settles_statement hline htracks hatEnd
    have hcontent := hline.slice?_content
    cases outcome with
    | ok node =>
      simp only [Option.bind_eq_bind, Option.bind_some, hread]
      exact congrArg some hsettled
    | error diagnostic =>
      rw [← hscanner]
      simp only [Option.bind_eq_bind, Option.bind_some, hread, hcontent]
      exact congrArg some hsettled

namespace Checked

/-- The end of a line's content is found by the byte in front of its terminator. -/
theorem contentEnd_eq (front first lineFeed after : List Char) :
    contentEnd (front ++ (first ++ after)) (utf8Length front)
        (utf8Length front + utf8Length first) =
      some (utf8Length front +
        utf8Length (Line.ofReversed first.reverse lineFeed).content) := by
  rcases List.eq_nil_or_concat first with rfl | ⟨init, c, rfl⟩
  · simp [contentEnd, Line.ofReversed]
  · rw [List.concat_eq_append]
    have hpos := c.utf8Size_pos
    have hfeed : utf8Length front + utf8Length (init ++ [c]) =
        utf8Length ((front ++ init) ++ [c]) := by
      rw [List.append_assoc, utf8Length_append front]
    have hlast : minus? (utf8Length ((front ++ init) ++ [c])) 1 =
        some (utf8Length ((front ++ init) ++ [c]) - 1) := by
      rw [minus?, if_pos]
      rw [utf8Length_append, utf8Length_cons]
      omega
    have hlt : utf8Length front < utf8Length ((front ++ init) ++ [c]) := by
      simp only [utf8Length_append, utf8Length_cons]
      omega
    obtain ⟨byte, hbyte, hreturn⟩ := exists_byteAt? (front ++ init) c after
    have htext : front ++ ((init ++ [c]) ++ after) = (front ++ init) ++ c :: after := by simp
    rw [htext, hfeed, contentEnd, if_pos hlt, hlast]
    simp only [Option.bind_eq_bind, Option.bind_some, hbyte, hreturn '\r' (by decide)]
    by_cases hc : c = '\r'
    · subst hc
      rw [if_pos rfl, ofReversed_return]
      have hsize : '\r'.utf8Size = 1 := by decide
      simp [hsize, ← Nat.add_assoc]
    · rw [if_neg hc, ofReversed_of_getLast (by simpa using hc), ← hfeed]
      rfl

/-- The line that ends at a line feed or at the end of the text is read by offsets. -/
theorem readStatement_eq (front first lineFeed after : List Char) (number : Nat) :
    readStatement (front ++ (first ++ (lineFeed ++ after))) (utf8Length front)
        (utf8Length front + utf8Length first) (utf8Length front + utf8Length (first ++ lineFeed))
        number =
      some (Reader.readStatement (utf8Length front) number
        (Line.ofReversed first.reverse lineFeed)) := by
  have hlies := Line.liesIn front number (Line.ofReversed first.reverse lineFeed) after
  rw [toList_ofReversed, List.reverse_reverse, List.append_assoc] at hlies
  have hread := Scanner.readLine_eq hlies
  have hcontent := contentEnd_eq front first lineFeed (lineFeed ++ after)
  simp only [readStatement, hcontent, hread, Option.bind_eq_bind, Option.bind_some,
    Reader.readStatement, toList_ofReversed, List.reverse_reverse]
  rfl

/-- The next line feed is looked for from the start of a line. -/
theorem offsetOf?_feed {first : List Char} (h : '\n' ∉ first) (later : List Char) :
    offsetOf? '\n' (first ++ '\n' :: later) = some (utf8Length first) := by
  have hne : ∀ c ∈ first, (c != '\n') = true := by
    intro c hc
    simpa using fun he : c = '\n' => h (he ▸ hc)
  rw [offsetOf?, if_pos (by simp), runBytes, List.takeWhile_append_of_pos hne]
  simp

/-- The lines of a part of a text are read by offsets as they are by characters. -/
theorem readLines_eq (block front after : List Char) (number : Nat) :
    readLines (front ++ (block ++ after)) (utf8Length front)
        (utf8Length front + utf8Length block) number =
      some (Reader.readLines (utf8Length front) number (lines block)) := by
  have hsize : '\n'.utf8Size = 1 := by decide
  induction block using line_induction generalizing front number with
  | nil =>
    rw [utf8Length_nil, Nat.add_zero, readLines, if_neg (Nat.lt_irrefl _)]
    rfl
  | last cs hne h =>
    have hahead := slice?_append front cs after
    have hstatement := readStatement_eq front cs [] after number
    have hlt : utf8Length front < utf8Length front + utf8Length cs :=
      Nat.lt_add_of_pos_right (utf8Length_pos hne)
    rw [utf8Length_append] at hahead
    rw [List.nil_append, List.append_nil] at hstatement
    rw [readLines, if_pos hlt, hahead]
    simp only [Option.bind_eq_bind, Option.bind_some, offsetOf?, if_neg h, hstatement,
      lines_last hne h]
    rfl
  | feed first later h ih =>
    have hahead := slice?_append front (first ++ '\n' :: later) after
    have hstatement := readStatement_eq front first ['\n'] (later ++ after) number
    have hlater := ih (front ++ (first ++ ['\n'])) (number + 1)
    have hlt : utf8Length front < utf8Length front + utf8Length (first ++ '\n' :: later) :=
      Nat.lt_add_of_pos_right (utf8Length_pos (by simp))
    have hline : utf8Length (first ++ ['\n']) = utf8Length first + 1 := by
      rw [utf8Length_append, utf8Length_cons, utf8Length_nil, hsize]
    have hstop : utf8Length front + utf8Length (first ++ '\n' :: later) =
        utf8Length front + utf8Length first + 1 + utf8Length later := by
      rw [utf8Length_append, utf8Length_cons, hsize]
      omega
    rw [utf8Length_append] at hahead
    rw [utf8Length_append, hline, ← Nat.add_assoc] at hlater
    rw [hline, ← Nat.add_assoc] at hstatement
    rw [readLines, if_pos hlt, hahead]
    simp only [Option.bind_eq_bind, Option.bind_some, offsetOf?_feed h, hstop]
    simp only [List.append_assoc, List.cons_append, List.nil_append] at hstatement hlater ⊢
    simp only [hstatement, hlater, Option.bind_some, lines_feed h, Reader.readLines,
      toList_ofReversed, List.reverse_reverse, hline, ← Nat.add_assoc]
    rfl

end Checked

namespace Program

/-- Every text is read by byte offsets with no access to it refused, and the program is
the one that reading by characters gives. Every span in the program, of a statement, a
token, a diagnostic or the rest of a line that a diagnostic carries, has its ends in
order, within the text and between characters. -/
theorem checkedParse_eq (text : String) :
    checkedParse text = some (parse text) ∧
      ∀ statement ∈ (parse text).statements, statement.SpansWithin text.toList := by
  have hlines := Checked.readLines_eq text.toList [] [] 1
  rw [List.nil_append, List.append_nil, utf8Length_nil, Nat.zero_add] at hlines
  refine ⟨?_, spansWithin_statements text⟩
  simp only [checkedParse, hlines, Option.bind_eq_bind, Option.bind_some]
  rfl

end Program

end RcScript
