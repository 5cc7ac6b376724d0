import RcScript.Proofs.CheckedReader
import RcScript.Proofs.SpanBounds

/-!
# Grammars by byte offsets are never refused

Reading by offsets follows reading by characters step by step: it is never refused, it
takes the same tokens and it gives the same value, or the diagnostic of the same fault.
The scanner may be a few blanks ahead of the cursor, which no later request but one for a
mode name can tell. A mode name is asked for right behind its flag only, where both stand
at the same place.
-/

namespace RcScript

open Text

variable {text : List Char} {line : SourceLine}

/-- A state stands where a progress on a line does, up to blanks. -/
structure LineState.Tracks (text : List Char) (line : SourceLine) (state : LineState)
    (progress : Progress) : Prop where
  /-- The scanner may be ahead of the cursor by blanks. -/
  scanner : ∃ cursor : Cursor, state.scanner = cursor.scanner text ∧
    cursor.skipBlanks = progress.cursor.skipBlanks
  /-- The same tokens were taken. -/
  tokens : state.tokens = progress.tokens
  /-- The line starts where it should. -/
  origin : progress.cursor.origin = line.origin
  /-- The line has its number. -/
  number : progress.cursor.line = line.number
  /-- Nothing of the content is lost. -/
  content : progress.cursor.content = line.content

/-- A request is answered at the same place by the state and by the progress. -/
def LineState.Ready (text : List Char) (state : LineState) (progress : Progress)
    (request : Request) : Prop :=
  ∃ cursor : Cursor, state.scanner = cursor.scanner text ∧
    cursor.skipBlanks = progress.cursor.skipBlanks ∧
    cursor.ready request = progress.cursor.ready request

/-- The diagnostic of a fault at a cursor of the line. -/
def Reader.diagnostic (line : SourceLine) (kind : StatementKind) (fault : Fault)
    (cursor : Cursor) : Diagnostic :=
  ⟨faultCause kind fault cursor, line.errorSpan, faultFallback fault cursor⟩

/-- From a state and a progress, reading by offsets is not refused and gives what reading
by characters gives, with a diagnostic for a fault. -/
def Scanning.FollowsAt (text : List Char) (line : SourceLine) (scanning : Scanning α)
    (reading : Reading α) (state : LineState) (progress : Progress) : Prop :=
  ∃ later, scanning state =
      some ((reading progress).1.mapError fun fault =>
        Reader.diagnostic line state.kind fault (reading progress).2.cursor, later) ∧
    later.kind = state.kind ∧ later.Tracks text line (reading progress).2

/-- Reading by offsets follows reading by characters from wherever a state tracks. -/
def Scanning.Follows (text : List Char) (line : SourceLine) (scanning : Scanning α)
    (reading : Reading α) : Prop :=
  ∀ state progress, state.Tracks text line progress →
    FollowsAt text line scanning reading state progress

namespace SourceLine

/-- The whole content of a line can be sliced from the text. -/
theorem LiesIn.slice?_content (h : line.LiesIn text) :
    slice? line.origin (line.origin + utf8Length line.content) text = some line.content :=
  have hcontent : line.content = [] ++ (line.content ++ []) := (List.append_nil _).symm
  h.slice?_eq hcontent

end SourceLine

namespace Cursor

/-- Skipping blanks loses nothing of the content. -/
theorem content_skipBlanks (cursor : Cursor) : cursor.skipBlanks.content = cursor.content :=
  content_advance cursor _

/-- A request skips no more than the blanks, if it skips them at all. -/
theorem skipBlanks_ready (cursor : Cursor) (request : Request) :
    (cursor.ready request).skipBlanks = cursor.skipBlanks := by
  rw [ready]
  split
  · exact skipBlanks_skipBlanks cursor
  · rfl

/-- Cursors that differ by blanks are on the same line. -/
theorem line_of_skipBlanks {cursor place : Cursor}
    (hplace : place.skipBlanks = cursor.skipBlanks) :
    place.origin = cursor.origin ∧ place.line = cursor.line ∧ place.content = cursor.content := by
  have horigin := congrArg Cursor.origin hplace
  have hnumber := congrArg Cursor.line hplace
  have hcontent := congrArg Cursor.content hplace
  rw [content_skipBlanks, content_skipBlanks] at hcontent
  exact ⟨horigin, hnumber, hcontent⟩

/-- Cursors that differ by blanks lie in the same line of the text. -/
theorem LiesIn.of_skipBlanks {cursor place : Cursor} (h : cursor.LiesIn text)
    (hplace : place.skipBlanks = cursor.skipBlanks) : place.LiesIn text := by
  obtain ⟨horigin, hnumber, hcontent⟩ := line_of_skipBlanks hplace
  rwa [LiesIn, horigin, hnumber, hcontent]

end Cursor

namespace LineState

variable {state : LineState} {progress : Progress} {request : Request}

/-- The cursor that a scanner keeps up with lies in the text. -/
theorem Tracks.liesIn (h : state.Tracks text line progress) (hline : line.LiesIn text) :
    progress.cursor.LiesIn text := by
  rw [Cursor.LiesIn, h.origin, h.number, h.content]
  exact hline

/-- Blanks ahead do not matter to a request that skips them. -/
theorem Tracks.ready (h : state.Tracks text line progress) (request : Request)
    (hskip : request.skipsBlanks = true) :
    state.Ready text progress request := by
  obtain ⟨cursor, hscanner, hblanks⟩ := h.scanner
  refine ⟨cursor, hscanner, hblanks, ?_⟩
  rw [Cursor.ready, if_pos hskip, hblanks, Cursor.ready, if_pos hskip]

/-- The kind of the statement plays no part in where reading stands. -/
theorem Tracks.enter (h : state.Tracks text line progress) (kind : StatementKind) :
    Tracks text line { state with kind := kind } progress :=
  ⟨h.scanner, h.tokens, h.origin, h.number, h.content⟩

/-- Where a request is answered alike, nothing is found on either side, or the same token
is, and the scanner then stands exactly where the cursor does. -/
theorem Ready.answer (hready : state.Ready text progress request)
    (h : state.Tracks text line progress) (hline : line.LiesIn text) :
    (progress.accept request = none ∧
      ∃ scanner, state.scanner.answer request = some (none, scanner) ∧
        Tracks text line { state with scanner := scanner } progress) ∨
    ∃ token next, progress.accept request = some (token, next) ∧
      state.scanner.answer request = some (some token, next.cursor.scanner text) ∧
      Tracks text line ⟨next.cursor.scanner text, state.tokens ++ [token], state.kind⟩ next := by
  obtain ⟨cursor, hscanner, hblanks, hsame⟩ := hready
  have hlies := (h.liesIn hline).of_skipBlanks hblanks
  obtain ⟨after, hanswer, hafter⟩ := hlies.answer_scanner request
  rw [Cursor.answer_eq, hsame] at hanswer hafter
  rw [hscanner, Progress.accept_eq]
  cases hfound : (progress.cursor.ready request).lexeme? request with
  | none =>
    rw [hfound] at hanswer hafter
    refine .inl ⟨rfl, after.scanner text, hanswer, ⟨after, rfl, ?_⟩, h.tokens, h.origin, h.number,
      h.content⟩
    rcases hafter with rfl | ⟨-, rfl⟩
    · exact Cursor.skipBlanks_ready _ _
    · exact hblanks
  | some lexeme =>
    rw [hfound] at hanswer hafter
    rcases hafter with rfl | ⟨hnone, -⟩
    · obtain ⟨horigin, hnumber, hcontent⟩ := progress.cursor.ready_line request
      have htokens : state.tokens ++ [(progress.cursor.ready request).token lexeme] =
          ((progress.cursor.ready request).token lexeme :: progress.taken).reverse := by
        rw [List.reverse_cons, h.tokens, Progress.tokens]
      refine .inr ⟨_, _, rfl, hanswer, ⟨_, rfl, rfl⟩, htokens, horigin.trans h.origin,
        hnumber.trans h.number, ?_⟩
      rw [Cursor.content_advance, hcontent, h.content]
    · simp [Cursor.grant] at hnone

/-- What a request finds without moving on is found on both sides. -/
theorem Tracks.answer_fst (h : state.Tracks text line progress) (hline : line.LiesIn text)
    (request : Request) (hskip : request.skipsBlanks = true) :
    ∃ scanner, state.scanner.answer request =
      some ((progress.cursor.answer request).1, scanner) := by
  obtain ⟨cursor, hscanner, hblanks, hsame⟩ := h.ready request hskip
  have hlies := (h.liesIn hline).of_skipBlanks hblanks
  obtain ⟨after, hanswer, -⟩ := hlies.answer_scanner request
  rw [Cursor.answer_eq, hsame, ← Cursor.answer_eq] at hanswer
  exact ⟨_, hscanner ▸ hanswer⟩

/-- The word that an error quotes can be cut out of the text, and is the one that reading quotes. -/
theorem Tracks.nextWord? (h : state.Tracks text line progress) (hline : line.LiesIn text) :
    state.scanner.nextWord? = some progress.cursor.nextWord? := by
  obtain ⟨scanner, hanswer⟩ := h.answer_fst hline .remainder rfl
  have hword : (progress.cursor.answer .remainder).1.map
      (fun token => String.ofList (firstWord token.text.toList)) = progress.cursor.nextWord? := by
    have hready : progress.cursor.ready .remainder = progress.cursor.skipBlanks := rfl
    rw [Cursor.answer_eq, hready, Cursor.nextWord?, Cursor.lexeme?, Request.recogniser,
      Recogniser.remainder, ← Cursor.skipBlanks_rest]
    split
    · rfl
    · simp [Cursor.grant, Cursor.token]
  rw [Scanner.nextWord?, hanswer]
  exact congrArg some hword

/-- A diagnostic points to the visible part of the line. -/
theorem Tracks.diagnostic (h : state.Tracks text line progress) (hline : line.LiesIn text)
    (cause : Cause) (fallback : Option Token) :
    state.scanner.diagnostic cause fallback = some ⟨cause, line.errorSpan, fallback⟩ := by
  obtain ⟨cursor, hscanner, hblanks⟩ := h.scanner
  obtain ⟨horigin, hnumber, hcontent⟩ := Cursor.line_of_skipBlanks hblanks
  rw [h.origin] at horigin
  rw [h.number] at hnumber
  rw [h.content] at hcontent
  have hstop : cursor.lineEnd = line.origin + utf8Length line.content := by
    rw [Cursor.lineEnd_eq, horigin, ← hcontent, Cursor.content]
  have hvisible : utf8Length line.visible ≤ utf8Length line.content := by
    obtain ⟨front, hfront, -⟩ := line.exists_indent
    rw [hfront, utf8Length_append]
    omega
  have hindent : minus? (utf8Length line.content) (utf8Length line.visible) = some line.indent :=
    if_pos hvisible
  have hbody : (if line.origin = 0 then line.content.dropWhile (· == byteOrderMark)
      else line.content) = line.body := by
    rw [SourceLine.body]
    simp only [beq_iff_eq]
  simp only [Scanner.diagnostic, hscanner, Cursor.scanner, horigin, hnumber, hstop,
    hline.slice?_content, Option.bind_eq_bind, Option.bind_some, hbody]
  rw [← SourceLine.visible, hindent]
  rfl

end LineState

/-- A token that is taken is no empty part of what was left. -/
theorem Request.Solid.exists_front {request : Request} (hsolid : request.Solid)
    {progress later : Progress} {token : Token}
    (h : progress.accept request = some (token, later)) :
    ∃ front, front ≠ [] ∧ progress.cursor.rest = front ++ later.cursor.rest := by
  rw [Progress.accept_eq, Option.map_eq_some_iff] at h
  obtain ⟨lexeme, hlexeme, he⟩ := h
  have htake := hsolid _ _ _ hlexeme
  have hready : ∃ blanks, progress.cursor.rest =
      blanks ++ (progress.cursor.ready request).rest := by
    rw [Cursor.ready]
    split
    · exact ⟨_, (List.take_append_drop progress.cursor.blankCount _).symm⟩
    · exact ⟨[], rfl⟩
  obtain ⟨blanks, hblanks⟩ := hready
  refine ⟨blanks ++ (progress.cursor.ready request).rest.take lexeme.count, ?_, ?_⟩
  · simp [htake]
  · rw [← (Prod.mk.inj he).2, Cursor.advance_rest, List.append_assoc, List.take_append_drop,
      hblanks]

/-- A solid request leaves less of the line than there was. -/
theorem Request.Solid.length_lt {request : Request} (hsolid : request.Solid)
    {progress later : Progress} {token : Token}
    (h : progress.accept request = some (token, later)) :
    later.cursor.rest.length < progress.cursor.rest.length := by
  obtain ⟨front, hne, hrest⟩ := hsolid.exists_front h
  have hpos := List.length_pos_iff.mpr hne
  rw [hrest, List.length_append]
  omega

/-- A token that is taken leaves fewer bytes of the line, blanks ahead or not. -/
theorem LineState.Ready.left_lt {state : LineState} {progress next : Progress}
    {request : Request} {token : Token} (hready : state.Ready text progress request)
    (hsolid : request.Solid) (h : progress.accept request = some (token, next)) :
    (next.cursor.scanner text).left < state.scanner.left := by
  obtain ⟨cursor, hscanner, -, hsame⟩ := hready
  have hcursor : Progress.accept ⟨cursor, progress.taken⟩ request = some (token, next) := by
    rw [← h, Progress.accept_eq, Progress.accept_eq, hsame]
  obtain ⟨front, hne, hrest⟩ := hsolid.exists_front hcursor
  have hleft : ∀ place : Cursor, (place.scanner text).left = utf8Length place.rest :=
    fun place => Nat.add_sub_cancel_left place.position (utf8Length place.rest)
  have hpos := utf8Length_pos hne
  rw [hscanner, hleft, hleft, hrest, utf8Length_append]
  omega

namespace Scanning

variable {state : LineState} {progress : Progress} {request : Request}

/-- A step that gives a value is followed by the next step. -/
theorem bind_of_ok {scanning : Scanning α} {later : LineState} {value : α}
    (h : scanning state = some (.ok value, later)) (next : α → Scanning β) :
    (scanning >>= next) state = next value later := by
  simp only [Bind.bind, h, Option.bind_some]

/-- A step that gives an error is the last one. -/
theorem bind_of_error {scanning : Scanning α} {later : LineState} {diagnostic : Diagnostic}
    (h : scanning state = some (.error diagnostic, later)) (next : α → Scanning β) :
    (scanning >>= next) state = some (.error diagnostic, later) := by
  simp only [Bind.bind, h, Option.bind_some, Option.pure_def]

/-- Steps that agree with readings agree with them in sequence. -/
theorem FollowsAt.bind {scanning : Scanning α} {reading : Reading α} {next : α → Scanning β}
    {nextReading : α → Reading β} (h : FollowsAt text line scanning reading state progress)
    (hn : ∀ value, Follows text line (next value) (nextReading value)) :
    FollowsAt text line (scanning >>= next) (reading >>= nextReading) state progress := by
  obtain ⟨later, hread, hkind, htracks⟩ := h
  cases hreading : reading progress with
  | mk outcome place =>
    rw [hreading] at hread htracks
    cases outcome with
    | error fault =>
      refine ⟨later, ?_, hkind, ?_⟩
      · rw [bind_of_error hread]
        simp only [Bind.bind, hreading]
        rfl
      · simpa only [Bind.bind, hreading] using htracks
    | ok value =>
      obtain ⟨last, hlast, hkindLast, htracksLast⟩ := hn value later place htracks
      refine ⟨last, ?_, hkindLast.trans hkind, ?_⟩
      · rw [bind_of_ok hread, hlast, hkind]
        simp only [Bind.bind, hreading]
      · simpa only [Bind.bind, hreading] using htracksLast

/-- Readings in sequence are followed when each is. -/
theorem Follows.bind {scanning : Scanning α} {reading : Reading α} {next : α → Scanning β}
    {nextReading : α → Reading β} (h : Follows text line scanning reading)
    (hn : ∀ value, Follows text line (next value) (nextReading value)) :
    Follows text line (scanning >>= next) (reading >>= nextReading) :=
  fun state progress htracks => (h state progress htracks).bind hn

/-- A value that is there already needs no access to the text. -/
theorem follows_pure (value : α) :
    Follows text line (pure value : Scanning α) (pure value : Reading α) :=
  fun state _ htracks => ⟨state, rfl, rfl, htracks⟩

/-- A diagnostic is made of slices that are not refused. -/
theorem fail_eq (htracks : state.Tracks text line progress) (hline : line.LiesIn text)
    (cause : Cause) (fallback : Option Token) :
    (fail cause fallback : Scanning α) state =
      some (.error ⟨cause, line.errorSpan, fallback⟩, state) := by
  rw [fail, htracks.diagnostic hline]
  rfl

/-- An error is given where reading faults, with the same diagnostic. -/
theorem follows_missing (hline : line.LiesIn text) (expected : Expected) :
    Follows text line (missing expected : Scanning α) (Reading.missing expected) := by
  intro state progress htracks
  obtain ⟨scanner, hrest⟩ := htracks.answer_fst hline .remainder rfl
  refine ⟨state, ?_, rfl, htracks⟩
  simp only [missing, htracks.nextWord? hline, hrest, Option.bind_eq_bind, Option.bind_some,
    fail_eq htracks hline]
  rfl

/-- A value that is asked for is there in both, or missing with the same diagnostic. -/
theorem follows_require (hline : line.LiesIn text) (expected : Expected) (value? : Option α) :
    Follows text line (require expected value?) (Reading.require expected value?) := by
  cases value? with
  | none => exact follows_missing hline expected
  | some value => exact follows_pure value

/-- What a request is answered with is found, and the scanner stays where the answer leaves it. -/
theorem find_of_answer {found : Option Token} {scanner : Scanner}
    (h : state.scanner.answer request = some (found, scanner)) :
    find request state = some (.ok found, { state with scanner := scanner }) := by
  rw [find, h]
  rfl

/-- A request without an answer takes no token. -/
theorem optional_of_none {scanner : Scanner}
    (h : state.scanner.answer request = some (none, scanner)) :
    optional request state = some (.ok none, { state with scanner := scanner }) := by
  rw [optional, bind_of_ok (find_of_answer h)]
  rfl

/-- A request with an answer takes it as the last token. -/
theorem optional_of_some {token : Token} {scanner : Scanner}
    (h : state.scanner.answer request = some (some token, scanner)) :
    optional request state =
      some (.ok (some token), ⟨scanner, state.tokens ++ [token], state.kind⟩) := by
  rw [optional, bind_of_ok (find_of_answer h)]
  rfl

/-- A request that is answered at the same place is followed. -/
theorem followsAt_optional (hline : line.LiesIn text) (htracks : state.Tracks text line progress)
    (hready : state.Ready text progress request) :
    FollowsAt text line (optional request) (Reading.optional request) state progress := by
  rcases hready.answer htracks hline with
    ⟨hnone, scanner, hanswer, hlater⟩ | ⟨token, next, hsome, hanswer, hlater⟩
  · have hmodel : Reading.optional request progress = (.ok none, progress) := by
      rw [Reading.optional, hnone]
    rw [FollowsAt, optional_of_none hanswer, hmodel]
    exact ⟨_, rfl, rfl, hlater⟩
  · have hmodel : Reading.optional request progress = (.ok (some token), next) := by
      rw [Reading.optional, hsome]
    rw [FollowsAt, optional_of_some hanswer, hmodel]
    exact ⟨_, rfl, rfl, hlater⟩

/-- Behind blanks, what may stand next is found by the scanner as reading finds it. -/
theorem follows_optional (hline : line.LiesIn text) (hskip : request.skipsBlanks = true) :
    Follows text line (optional request) (Reading.optional request) :=
  fun _ _ htracks => followsAt_optional hline htracks (htracks.ready request hskip)

/-- What must stand next is found where the scanner is ready for it. -/
theorem followsAt_need (hline : line.LiesIn text) (expected : Expected)
    (htracks : state.Tracks text line progress) (hready : state.Ready text progress request) :
    FollowsAt text line (need expected request) (Reading.need expected request) state progress :=
  (followsAt_optional hline htracks hready).bind fun token? =>
    (follows_require hline expected token?).bind fun token => follows_pure token.text

/-- Behind blanks, what must stand next is found by the scanner as reading finds it. -/
theorem follows_need (hline : line.LiesIn text) (expected : Expected)
    (hskip : request.skipsBlanks = true) :
    Follows text line (need expected request) (Reading.need expected request) :=
  fun _ _ htracks => followsAt_need hline expected htracks (htracks.ready request hskip)

/-- A word of a pattern is found by the scanner as reading finds it. -/
theorem follows_word (hline : line.LiesIn text) (expected : Expected) (pattern : Pattern) :
    Follows text line (word expected pattern) (Reading.word expected pattern) :=
  follows_need hline expected rfl

/-- The loop takes what is taken with a limit of the characters that are left. -/
theorem takeAll_eq (hline : line.LiesIn text) (hskip : request.skipsBlanks = true)
    (hsolid : request.Solid) {limit : Nat} (htracks : state.Tracks text line progress)
    (hlimit : progress.cursor.rest.length ≤ limit) :
    ∃ later, takeAll request state = some ((progress.acceptUpTo request limit).1, later) ∧
      later.kind = state.kind ∧ later.Tracks text line (progress.acceptUpTo request limit).2 := by
  induction limit generalizing state progress with
  | zero =>
    have hnone : progress.accept request = none := by
      cases haccept : progress.accept request with
      | none => rfl
      | some taken =>
        have hlt := hsolid.length_lt haccept
        omega
    rcases (htracks.ready request hskip).answer htracks hline with
      ⟨-, scanner, hanswer, hlater⟩ | ⟨token, next, hsome, -⟩
    · refine ⟨{ state with scanner := scanner }, ?_, rfl, hlater⟩
      rw [takeAll, hanswer]
      rfl
    · rw [hnone] at hsome
      simp at hsome
  | succ limit ih =>
    rcases (htracks.ready request hskip).answer htracks hline with
      ⟨hnone, scanner, hanswer, hlater⟩ | ⟨token, next, hsome, hanswer, hlater⟩
    · refine ⟨{ state with scanner := scanner }, ?_, rfl, ?_⟩
      · rw [takeAll, hanswer, Progress.acceptUpTo, hnone]
        rfl
      · rw [Progress.acceptUpTo, hnone]
        exact hlater
    · have hlt := hsolid.length_lt hsome
      have hleft := (htracks.ready request hskip).left_lt hsolid hsome
      obtain ⟨last, hlast, hkind, htracksLast⟩ := ih hlater (by omega)
      refine ⟨last, ?_, hkind, ?_⟩
      · rw [takeAll, hanswer, Progress.acceptUpTo, hsome]
        simp only [Option.bind_eq_bind, Option.bind_some, if_pos hleft, hlast]
        rfl
      · rw [Progress.acceptUpTo, hsome]
        exact htracksLast

/-- A run of words is found as reading finds it, since each of them leaves less of the line. -/
theorem follows_many (hline : line.LiesIn text) (hskip : request.skipsBlanks = true)
    (hsolid : request.Solid) :
    Follows text line (many request) (Reading.many request) := by
  intro state progress htracks
  obtain ⟨later, hloop, hkind, hlater⟩ :=
    takeAll_eq hline hskip hsolid htracks (Nat.le_refl progress.cursor.rest.length)
  refine ⟨later, ?_, hkind, hlater⟩
  simp only [many, hloop, Option.bind_eq_bind, Option.bind_some]
  rfl

/-- The end of a statement is found by the scanner as reading finds it. -/
theorem follows_finish (hline : line.LiesIn text) :
    Follows text line finish Reading.finish := by
  intro state progress htracks
  obtain ⟨cursor, hscanner, hblanks⟩ := htracks.scanner
  have hlies := (htracks.liesIn hline).of_skipBlanks hblanks
  have hatEnd : cursor.atEnd = progress.cursor.atEnd := by
    rw [Cursor.atEnd, hblanks, Cursor.atEnd]
  let visible : LineState := { state with scanner := cursor.skipBlanks.scanner text }
  have hvisible : visible.Tracks text line progress :=
    ⟨⟨cursor.skipBlanks, rfl, by rw [Cursor.skipBlanks_skipBlanks, hblanks]⟩, htracks.tokens,
      htracks.origin, htracks.number, htracks.content⟩
  have hrest := hlies.skipBlanks.rest_scanner
  rw [Scanner.rest] at hrest
  simp only [FollowsAt, finish, Reading.finish, hscanner, hlies.atEnd_scanner, hatEnd, hrest,
    Option.bind_eq_bind, Option.bind_some]
  cases progress.cursor.atEnd with
  | true => exact ⟨visible, rfl, rfl, hvisible⟩
  | false =>
    refine ⟨visible, ?_, rfl, hvisible⟩
    simp only [Bool.false_eq_true, if_false]
    rw [fail_eq hvisible hline, Cursor.skipBlanks_rest, Cursor.unread, hblanks, ← Cursor.unread]
    rfl

/-- A command with its arguments is found by the scanner as reading finds it. -/
theorem follows_exCommand (hline : line.LiesIn text) :
    Follows text line exCommand Grammar.exCommand :=
  (follows_need hline _ rfl).bind fun _ =>
    (follows_optional hline rfl).bind fun _ => follows_pure _

/-- Behind the flag the scanner stands exactly where the cursor does. -/
theorem follows_mode (hline : line.LiesIn text) : Follows text line mode Grammar.mode := by
  intro state progress htracks
  have hready := htracks.ready (.flag "--mode=") rfl
  rcases hready.answer htracks hline with
    ⟨hnone, scanner, hanswer, hlater⟩ | ⟨token, next, hsome, hanswer, hlater⟩
  · have hmodel : Grammar.mode progress = (.ok none, progress) := by
      rw [Grammar.mode_eq, hnone]
    refine ⟨{ state with scanner := scanner }, ?_, rfl, hmodel ▸ hlater⟩
    rw [mode, bind_of_ok (optional_of_none hanswer), hmodel]
    rfl
  · have hexact : LineState.Ready text
        ⟨next.cursor.scanner text, state.tokens ++ [token], state.kind⟩ next .modeName :=
      ⟨next.cursor, rfl, rfl, rfl⟩
    obtain ⟨later, hread, hkind, hlast⟩ :=
      (followsAt_need hline .mode hlater hexact).bind fun name =>
        (follows_require hline .mode (Mode.ofName? name)).bind fun found => follows_pure (some found)
    have hmodel : Grammar.mode progress = (Reading.need .mode .modeName >>= fun name =>
        Reading.require .mode (Mode.ofName? name) >>= fun found => pure (some found)) next := by
      simp only [Grammar.mode, Reading.optional, Bind.bind, hsome]
    refine ⟨later, ?_, hkind, hmodel ▸ hlast⟩
    rw [mode, bind_of_ok (optional_of_some hanswer), hmodel]
    exact hread

/-- What is taken for a key denotes one. -/
theorem exists_key {token : Token} {later : Progress}
    (h : progress.accept (.wholeWord [.compoundKey, .singleKey]) = some (token, later)) :
    ∃ key, Key.ofText? token.text = some key := by
  have hknows := Request.knows_wholeWord Recogniser.apart_keys
  rw [Progress.accept_eq, Option.map_eq_some_iff] at h
  obtain ⟨lexeme, hlexeme, he⟩ := h
  obtain ⟨w, rest, hrest, hcount, hword, -⟩ :=
    (hknows.2 (progress.cursor.ready (.wholeWord [.compoundKey, .singleKey]))).exists_word hlexeme
  have htext : token.text = String.ofList w := by
    rw [← (Prod.mk.inj he).1, Cursor.token, hrest, hcount, List.take_left]
  rw [htext]
  exact Grammar.exists_key_of_word hword

/-- The token of a key is always taken, since its text denotes a key. -/
theorem follows_key (hline : line.LiesIn text) : Follows text line key Grammar.key := by
  intro state progress htracks
  have hready := htracks.ready (.wholeWord [.compoundKey, .singleKey]) rfl
  rcases hready.answer htracks hline with
    ⟨hnone, scanner, hanswer, hlater⟩ | ⟨token, next, hsome, hanswer, hlater⟩
  · have hfollows : Follows text line (missing .key : Scanning Token) (Reading.missing .key) :=
      follows_missing hline .key
    obtain ⟨later, hread, hkind, hlast⟩ := hfollows _ progress hlater
    have hmodel : Grammar.key progress = (.error (.missing .key), progress) := by
      simp only [Grammar.key, Bind.bind, Reading.need_eq, hnone]
    refine ⟨later, ?_, hkind, hmodel ▸ hlast⟩
    rw [key, bind_of_ok (find_of_answer hanswer), require, bind_of_error hread, hmodel]
    rfl
  · obtain ⟨found, hfound⟩ := exists_key hsome
    have hmodel : Grammar.key progress = (.ok found, next) := by
      simp only [Grammar.key, Bind.bind, Reading.need_eq, hsome, hfound, Reading.require]
      rfl
    refine ⟨⟨next.cursor.scanner text, state.tokens ++ [token], state.kind⟩, ?_, rfl,
      hmodel ▸ hlater⟩
    rw [key, bind_of_ok (find_of_answer hanswer), require, bind_of_ok rfl, hfound, require,
      bind_of_ok rfl, bind_of_ok rfl, hmodel]
    rfl

/-- A flag with its pattern is found by the scanner as reading finds it. -/
theorem follows_containPattern (hline : line.LiesIn text) :
    Follows text line containPattern Grammar.containPattern := by
  refine (follows_optional hline rfl).bind fun sane => ?_
  cases sane with
  | some token => exact (follows_word hline _ _).bind fun _ => follows_pure _
  | none =>
    refine (follows_optional hline rfl).bind fun url => ?_
    cases url with
    | some token => exact (follows_word hline _ _).bind fun _ => follows_pure _
    | none => exact follows_missing hline _

/-- The grammar of every keyword is followed part by part. -/
theorem follows_ofKeyword (hline : line.LiesIn text) (keyword : Keyword) :
    Follows text line (ofKeyword keyword) (Grammar.ofKeyword keyword) := by
  have hword := fun expected pattern => follows_word hline expected pattern
  cases keyword with
  | aliasDef =>
    exact (hword _ _).bind fun _ => (hword _ _).bind fun _ =>
      (follows_many hline rfl (Request.solid_wholeWord (Recogniser.apart_singleton _))).bind
        fun _ => follows_pure _
  | autocmd =>
    exact (follows_need hline _ rfl).bind fun _ => (follows_require hline _ _).bind fun _ =>
      (hword _ _).bind fun _ => (follows_exCommand hline).bind fun _ => follows_pure _
  | autocontain =>
    exact (follows_containPattern hline).bind fun _ => (hword _ _).bind fun _ => follows_pure _
  | bind =>
    exact (follows_mode hline).bind fun _ => (follows_key hline).bind fun _ =>
      (follows_exCommand hline).bind fun _ => follows_pure _
  | unbind =>
    exact (follows_mode hline).bind fun _ => (follows_key hline).bind fun _ => follows_pure _
  | command =>
    exact (hword _ _).bind fun _ => (follows_exCommand hline).bind fun _ => follows_pure _
  | quickmark =>
    exact (follows_need hline _ rfl).bind fun _ => (follows_require hline _ _).bind fun _ =>
      (hword _ _).bind fun _ => follows_pure _
  | set =>
    exact (hword _ _).bind fun _ =>
      (follows_many hline rfl (Request.solid_wholeWord Recogniser.apart_values)).bind fun _ =>
        follows_pure _

/-- The grammar behind every keyword is found by the scanner as reading finds it. -/
theorem follows_clause (hline : line.LiesIn text) (keyword : Keyword) :
    Follows text line (clause keyword) (Grammar.statement keyword) :=
  (follows_ofKeyword hline keyword).bind fun _ =>
    (follows_finish hline).bind fun _ => follows_pure _

end Scanning

end RcScript
