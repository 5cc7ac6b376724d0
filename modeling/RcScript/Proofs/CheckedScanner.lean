import RcScript.Proofs.CheckedRecogniser
import RcScript.Proofs.TokenAccount

/-!
# Scanning a line by byte offsets

A scanner is a place within a line that is given by offsets into the whole text. It
slices the text anew for every look at it, in front of its place and behind it, and
moves by the lengths in bytes of what it finds. A scanner that stands where a cursor
does is never refused and answers every request as the cursor does.
-/

namespace RcScript

open Text

/-- A place within the content of one line, given by offsets into a text. -/
structure Scanner where
  /-- The whole text. -/
  text : List Char
  /-- Offset of the place. -/
  position : Nat
  /-- Offset of the end of the line's content. -/
  stop : Nat
  /-- Number of the line. -/
  line : Nat
  /-- Offset of the start of the line. -/
  lineStart : Nat
  deriving DecidableEq, Repr

namespace Scanner

/-- What is left of the line. -/
def rest (scanner : Scanner) : Checked (List Char) :=
  slice? scanner.position scanner.stop scanner.text

/-- The scanner moved past a byte-order mark at offset zero. -/
def skipMark (scanner : Scanner) : Checked Scanner :=
  if scanner.position = 0 then do
    return if (← scanner.rest).head? = some byteOrderMark then
      { scanner with position := byteOrderMark.utf8Size } else scanner
  else return scanner

/-- The scanner moved past blanks, and past a byte-order mark at offset zero. -/
def skipBlanks (scanner : Scanner) : Checked Scanner := do
  let marked ← scanner.skipMark
  return { marked with position := marked.position + runBytes isBlank (← marked.rest) }

/-- Whether nothing but blanks is left, with the scanner moved past them. -/
def atEnd (scanner : Scanner) : Checked (Bool × Scanner) := do
  let visible ← scanner.skipBlanks
  return (decide (visible.stop ≤ visible.position), visible)

/-- Whether the scanner stands at a blank or at the end. -/
def atBoundary (scanner : Scanner) : Checked Bool := return (← scanner.rest).head?.all isBlank

/-- The next `length` bytes as a token, with the scanner moved past them. -/
def token (kind : TokenKind) (length : Nat) (scanner : Scanner) : Checked (Token × Scanner) := do
  let stop := scanner.position + length
  let text ← slice? scanner.position stop scanner.text
  let before ← minus? scanner.position scanner.lineStart
  return (⟨kind, String.ofList text, ⟨scanner.position, stop, scanner.line, before + 1⟩⟩,
    { scanner with position := stop })

/-- A way to find the kind and the length of what stands at a scanner. -/
abbrev Finder := Scanner → Checked (Option (TokenKind × Nat))

/-- Find what is recognised in the rest of the line. -/
def ahead (bytes : ByteRecogniser) : Finder := fun scanner => do bytes (← scanner.rest)

/-- Find a quote mark with only blanks before it on the line. -/
def quoteMark : Finder := fun scanner => do
  let leading ← slice? scanner.lineStart scanner.position scanner.text
  let opens := (leading.dropWhile (· == byteOrderMark)).all isBlank
  return if opens && (← scanner.rest).head? == some '"' then some (.quoteMark, 1) else none

/-- Find everything that is left, unless nothing is. -/
def remainder : Finder := fun scanner =>
  if scanner.stop ≤ scanner.position then return none
  else return some (.remainder, ← minus? scanner.stop scanner.position)

/-- Take the token that is found at the scanner, and stay there if none is. -/
def take (find : Finder) (scanner : Scanner) : Checked (Option Token × Scanner) := do
  match ← find scanner with
  | none => return (none, scanner)
  | some (kind, length) =>
    let (token, later) ← scanner.token kind length
    return (some token, later)

/-- Take the token that is found behind blanks, and stay behind them if none is. -/
def takeVisible (find : Finder) (scanner : Scanner) : Checked (Option Token × Scanner) := do
  take find (← scanner.skipBlanks)

/-- Answer a request. A scanner that has looked for a word that stands alone and has not
found it goes back to where it was. -/
def answer (request : Request) (scanner : Scanner) : Checked (Option Token × Scanner) :=
  match request with
  | .quoteMark => scanner.takeVisible quoteMark
  | .keyword word => scanner.takeVisible (ahead (ByteRecogniser.keyword word))
  | .flag word => scanner.takeVisible (ahead (ByteRecogniser.flag word))
  | .modeName => scanner.take (ahead (ByteRecogniser.named .modeName (Mode.all.map Mode.name)))
  | .eventName =>
    scanner.takeVisible (ahead (ByteRecogniser.named .eventName (Event.all.map Event.name)))
  | .commandName => scanner.takeVisible (ahead ByteRecogniser.commandName)
  | .structural allowed => scanner.takeVisible (ahead (ByteRecogniser.structural allowed))
  | .wholeWord allowed => do
    match ← scanner.takeVisible (ahead (ByteRecogniser.structural allowed)) with
    | (some token, later) => return if ← later.atBoundary then (some token, later)
        else (none, scanner)
    | (none, _) => return (none, scanner)
  | .remainder => scanner.takeVisible remainder
  | .next allowed => do
    match ← scanner.takeVisible (ahead (ByteRecogniser.structural allowed)) with
    | (some token, later) => return (some token, later)
    | (none, later) => later.takeVisible remainder

end Scanner

namespace Cursor

/-- The scanner that stands where a cursor does. -/
def scanner (text : List Char) (cursor : Cursor) : Scanner :=
  ⟨text, cursor.position, cursor.lineEnd, cursor.line, cursor.origin⟩

/-- A text has the line of a cursor at its place. -/
def LiesIn (cursor : Cursor) (text : List Char) : Prop :=
  SourceLine.LiesIn ⟨cursor.origin, cursor.line, cursor.content⟩ text

/-- What a cursor answers where it has found what it was asked for, or has not. -/
def grant (cursor : Cursor) (found : Option Lexeme) : Option Token × Cursor :=
  match found with
  | some lexeme => (some (cursor.token lexeme), cursor.advance lexeme.count)
  | none => (none, cursor)

/-- A request is answered with what is found where it starts to look. -/
theorem answer_eq (cursor : Cursor) (request : Request) :
    cursor.answer request =
      (cursor.ready request).grant ((cursor.ready request).lexeme? request) := rfl

/-- Moving on leaves the end of the line where it is. -/
theorem lineEnd_advance (cursor : Cursor) (count : Nat) :
    (cursor.advance count).lineEnd = cursor.lineEnd := by
  have hrest := congrArg utf8Length (List.take_append_drop count cursor.rest)
  rw [utf8Length_append] at hrest
  rw [lineEnd, lineEnd, advance_position, advance_rest]
  omega

/-- Advancing a cursor moves its scanner by the bytes of the characters that were passed. -/
theorem scanner_advance (text : List Char) (cursor : Cursor) (count : Nat) :
    (cursor.advance count).scanner text = { cursor.scanner text with
      position := cursor.position + utf8Length (cursor.rest.take count) } := by
  rw [scanner, lineEnd_advance, advance_position]
  rfl

variable {text : List Char} {cursor : Cursor}

/-- A cursor that advances stays in its line of the text. -/
theorem LiesIn.advance (h : cursor.LiesIn text) (count : Nat) :
    (cursor.advance count).LiesIn text := by
  rw [LiesIn, content_advance]
  exact h

/-- A cursor that skips blanks stays in its line of the text. -/
theorem LiesIn.skipBlanks (h : cursor.LiesIn text) : cursor.skipBlanks.LiesIn text := h.advance _

end Cursor

/-- A piece of a line can be sliced from the text. -/
theorem SourceLine.LiesIn.slice?_eq {line : SourceLine} {text ahead piece behind : List Char}
    (h : line.LiesIn text) (hcontent : line.content = ahead ++ (piece ++ behind)) :
    slice? (line.origin + utf8Length ahead) (line.origin + utf8Length (ahead ++ piece)) text =
      some piece := by
  obtain ⟨hstart, hstop, hslice⟩ := h.slice hcontent
  have hle : line.origin + utf8Length ahead ≤ line.origin + utf8Length (ahead ++ piece) := by
    rw [utf8Length_append]
    omega
  rw [slice?, if_pos ⟨hle, hstart, hstop⟩, hslice]

namespace Cursor

variable {text : List Char} {cursor : Cursor}

/-- A line ends behind what was passed and what is left. -/
theorem lineEnd_eq (cursor : Cursor) :
    cursor.lineEnd = cursor.origin + utf8Length (cursor.before ++ cursor.rest) := by
  rw [lineEnd, position_eq, utf8Length_append, Nat.add_assoc]

/-- What is left of a line can be cut out of the text at the place of the scanner. -/
theorem LiesIn.rest_scanner (h : cursor.LiesIn text) :
    (cursor.scanner text).rest = some cursor.rest := by
  have hcontent : cursor.content = cursor.before ++ (cursor.rest ++ []) := by
    rw [List.append_nil, content]
  have hslice := SourceLine.LiesIn.slice?_eq h hcontent
  rw [← position_eq, ← lineEnd_eq] at hslice
  exact hslice

/-- What was passed of a line can be cut out of the text in front of the scanner. -/
theorem LiesIn.slice?_before (h : cursor.LiesIn text) :
    slice? cursor.origin cursor.position text = some cursor.before := by
  have hcontent : cursor.content = [] ++ (cursor.before ++ cursor.rest) := rfl
  have hslice := SourceLine.LiesIn.slice?_eq h hcontent
  rw [utf8Length_nil, Nat.add_zero, List.nil_append, ← position_eq] at hslice
  exact hslice

/-- The next characters can be sliced from the text. -/
theorem LiesIn.slice?_take (h : cursor.LiesIn text) (count : Nat) :
    slice? cursor.position (cursor.position + utf8Length (cursor.rest.take count)) text =
      some (cursor.rest.take count) := by
  have hcontent : cursor.content =
      cursor.before ++ (cursor.rest.take count ++ cursor.rest.drop count) := by
    rw [List.take_append_drop, content]
  have hslice := SourceLine.LiesIn.slice?_eq h hcontent
  rw [utf8Length_append, ← Nat.add_assoc, ← position_eq] at hslice
  exact hslice

/-- The token of first characters is the one that the cursor gives. -/
theorem LiesIn.token_scanner (h : cursor.LiesIn text) (lexeme : Lexeme) :
    (cursor.scanner text).token lexeme.kind (utf8Length (cursor.rest.take lexeme.count)) =
      some (cursor.token lexeme, (cursor.advance lexeme.count).scanner text) := by
  have hslice := h.slice?_take lexeme.count
  have hbefore : minus? cursor.position cursor.origin = some cursor.offset :=
    minus?_add cursor.offset cursor.origin
  simp only [Scanner.token, scanner, hslice, hbefore, Option.bind_eq_bind, Option.bind_some]
  rw [← scanner, scanner_advance]
  rfl

/-- The mark is skipped when it is next at offset zero. -/
theorem LiesIn.skipMark_scanner (h : cursor.LiesIn text) :
    (cursor.scanner text).skipMark =
      some ((if cursor.atMark then cursor.advance 1 else cursor).scanner text) := by
  have hposition : (cursor.scanner text).position = cursor.position := rfl
  rw [Scanner.skipMark, hposition, h.rest_scanner, atMark]
  by_cases hstart : cursor.position = 0
  · by_cases hmark : cursor.rest.head? = some byteOrderMark
    · obtain ⟨later, hrest⟩ := List.head?_eq_some_iff.mp hmark
      have hmove : (cursor.advance 1).scanner text =
          { cursor.scanner text with position := byteOrderMark.utf8Size } := by
        rw [scanner_advance, hrest, hstart, List.take_succ_cons, List.take_zero,
          utf8Length_cons, utf8Length_nil, Nat.zero_add, Nat.add_zero]
      simp [hstart, hmark, hmove]
    · simp [hstart, hmark]
  · simp [hstart]

/-- The scanner skips the blanks that the cursor skips, and never refuses to. -/
theorem LiesIn.skipBlanks_scanner (h : cursor.LiesIn text) :
    (cursor.scanner text).skipBlanks = some (cursor.skipBlanks.scanner text) := by
  rw [Scanner.skipBlanks, h.skipMark_scanner, Cursor.skipBlanks, blankCount_eq, scanner_advance]
  split
  · simp only [Option.bind_eq_bind, Option.bind_some, (h.advance 1).rest_scanner]
    simp only [scanner_advance, advance_rest, runBytes_eq, utf8Length_take_add, List.drop_one,
      Nat.add_assoc]
    rfl
  · simp only [Option.bind_eq_bind, Option.bind_some, h.rest_scanner, runBytes_eq]
    rfl

/-- The scanner can tell whether only blanks are left, and tells it as the cursor does. -/
theorem LiesIn.atEnd_scanner (h : cursor.LiesIn text) :
    (cursor.scanner text).atEnd = some (cursor.atEnd, cursor.skipBlanks.scanner text) := by
  have hend : decide (cursor.skipBlanks.lineEnd ≤ cursor.skipBlanks.position) = cursor.atEnd := by
    rw [atEnd, lineEnd, Bool.eq_iff_iff, decide_eq_true_iff, List.isEmpty_iff,
      ← utf8Length_eq_zero]
    omega
  rw [Scanner.atEnd, h.skipBlanks_scanner]
  exact congrArg (fun found => some (found, cursor.skipBlanks.scanner text)) hend

/-- The scanner can tell whether a word ends where it stands, and tells it as the cursor does. -/
theorem LiesIn.atBoundary_scanner (h : cursor.LiesIn text) :
    (cursor.scanner text).atBoundary = some cursor.atBoundary := by
  rw [Scanner.atBoundary, h.rest_scanner]
  rfl

/-- Behind the blanks no mark is skipped any more. -/
theorem atMark_skipBlanks (cursor : Cursor) : cursor.skipBlanks.atMark = false := by
  by_cases hnone : cursor.rest.take cursor.blankCount = []
  · rw [skipBlanks, advance_of_take_eq_nil hnone]
    refine Bool.eq_false_iff.mpr fun hmark => ?_
    rw [blankCount_eq, if_pos hmark, Nat.add_comm] at hnone
    simp only [atMark, Bool.and_eq_true, beq_iff_eq] at hmark
    obtain ⟨later, hrest⟩ := List.head?_eq_some_iff.mp hmark.2
    simp [hrest] at hnone
  · exact atMark_advance hnone

/-- Behind the blanks there are no more of them. -/
@[simp]
theorem skipBlanks_skipBlanks (cursor : Cursor) :
    cursor.skipBlanks.skipBlanks = cursor.skipBlanks := by
  have hrun : ∀ cs : List Char, runLength isBlank (cs.dropWhile isBlank) = 0 := by
    intro cs
    cases hcs : cs.dropWhile isBlank with
    | nil => rfl
    | cons first later => simp [runLength, Grammar.isBlank_of_dropWhile hcs]
  have hcount : cursor.skipBlanks.blankCount = 0 := by
    rw [blankCount_eq, atMark_skipBlanks, if_neg Bool.false_ne_true, skipBlanks, advance_rest,
      blankCount_eq]
    split
    · rw [← List.drop_drop, List.drop_one, drop_runLength, hrun]
    · rw [drop_runLength, hrun]
  rw [skipBlanks, hcount]
  exact advance_of_take_eq_nil rfl

/-- A finder finds at the scanner of a cursor what `lexeme?` finds at the cursor. -/
def Finds (find : Scanner.Finder) (lexeme? : Cursor → Option Lexeme) : Prop :=
  ∀ (text : List Char) (cursor : Cursor), cursor.LiesIn text →
    find (cursor.scanner text) = some ((lexeme? cursor).map (Lexeme.measured cursor.rest))

/-- What is recognised by bytes is found. -/
theorem finds_ahead {bytes : ByteRecogniser} {recogniser : Recogniser}
    (hcounts : bytes.Counts recogniser) :
    Finds (Scanner.ahead bytes) fun cursor => recogniser cursor.rest := by
  intro text cursor h
  simp only [Scanner.ahead, h.rest_scanner, Option.bind_eq_bind, Option.bind_some,
    hcounts cursor.rest]

/-- The mark of a comment is looked for in what stands before it on the line, which can be cut out
of the text. -/
theorem finds_quoteMark :
    Finds Scanner.quoteMark fun cursor => cursor.lexeme? .quoteMark := by
  intro text cursor h
  have hbefore := h.slice?_before
  have hrest := h.rest_scanner
  simp only [scanner] at hrest
  simp only [Scanner.quoteMark, scanner, hbefore, hrest, Option.bind_eq_bind, Option.bind_some,
    lexeme?, Request.recogniser]
  rw [← opensLine]
  by_cases hopens : cursor.opensLine = true
  · by_cases hquote : (cursor.rest.head? == some '"') = true
    · obtain ⟨later, hlater⟩ := List.head?_eq_some_iff.mp (beq_iff_eq.mp hquote)
      have hsize : utf8Length (cursor.rest.take 1) = 1 := by
        rw [hlater]
        rfl
      rw [if_pos hopens, Recogniser.quoteMark, if_pos hquote, hopens, hquote, Option.map_some,
        Lexeme.measured, hsize]
      rfl
    · rw [if_pos hopens, Recogniser.quoteMark, if_neg hquote, Bool.eq_false_iff.mpr hquote,
        Bool.and_false]
      rfl
  · rw [if_neg hopens, Bool.eq_false_iff.mpr hopens, Bool.false_and]
    rfl

/-- The length of the rest of a line is a difference that never falls below zero. -/
theorem finds_remainder :
    Finds Scanner.remainder fun cursor => Recogniser.remainder cursor.rest := by
  intro text cursor _
  have hlength : minus? cursor.lineEnd cursor.position = some (utf8Length cursor.rest) :=
    minus?_add _ _
  have hempty : cursor.lineEnd ≤ cursor.position ↔ cursor.rest.isEmpty = true := by
    rw [lineEnd, List.isEmpty_iff, ← utf8Length_eq_zero]
    omega
  simp only [Scanner.remainder, scanner, hlength, Recogniser.remainder, hempty]
  split
  · rfl
  · simp only [Option.bind_eq_bind, Option.bind_some, Option.map_some, Lexeme.measured,
      List.take_length]
    rfl

variable {text : List Char} {cursor : Cursor} {find : Scanner.Finder}
  {lexeme? : Cursor → Option Lexeme}

/-- What is found at a scanner is taken as at the cursor. -/
theorem LiesIn.take_scanner (h : cursor.LiesIn text) (hfinds : Finds find lexeme?) :
    (cursor.scanner text).take find =
      some ((cursor.grant (lexeme? cursor)).1, (cursor.grant (lexeme? cursor)).2.scanner text) := by
  rw [Scanner.take, hfinds text cursor h]
  cases lexeme? cursor with
  | none => rfl
  | some lexeme =>
    simp only [Option.map_some, Lexeme.measured, Option.bind_eq_bind, Option.bind_some,
      h.token_scanner]
    rfl

/-- Behind the blanks the scanner takes the token that the cursor takes there. -/
theorem LiesIn.takeVisible_scanner (h : cursor.LiesIn text) (hfinds : Finds find lexeme?) :
    (cursor.scanner text).takeVisible find =
      some ((cursor.skipBlanks.grant (lexeme? cursor.skipBlanks)).1,
        (cursor.skipBlanks.grant (lexeme? cursor.skipBlanks)).2.scanner text) := by
  rw [Scanner.takeVisible, h.skipBlanks_scanner]
  exact h.skipBlanks.take_scanner hfinds

/-- A request that is answered with what is found behind blanks. -/
theorem LiesIn.answer_visible (h : cursor.LiesIn text) {request : Request}
    (hfinds : Finds find fun place => place.lexeme? request)
    (hskip : request.skipsBlanks = true) :
    (cursor.scanner text).takeVisible find =
      some ((cursor.answer request).1, (cursor.answer request).2.scanner text) := by
  rw [h.takeVisible_scanner hfinds, answer_eq, ready, if_pos hskip]

/-- A scanner answers as the cursor that it stands for. Only where nothing is found may it
have gone back to where it was. -/
theorem LiesIn.answer_scanner (h : cursor.LiesIn text) (request : Request) :
    ∃ after, (cursor.scanner text).answer request =
        some ((cursor.answer request).1, after.scanner text) ∧
      (after = (cursor.answer request).2 ∨ (cursor.answer request).1 = none ∧ after = cursor) := by
  cases request with
  | quoteMark => exact ⟨_, h.answer_visible finds_quoteMark rfl, .inl rfl⟩
  | keyword word =>
    have hfinds := finds_ahead (ByteRecogniser.counts_keyword word)
    exact ⟨_, h.answer_visible hfinds rfl, .inl rfl⟩
  | flag word =>
    have hfinds := finds_ahead (ByteRecogniser.counts_flag word)
    exact ⟨_, h.answer_visible hfinds rfl, .inl rfl⟩
  | modeName =>
    have hfinds := finds_ahead (ByteRecogniser.counts_named .modeName (Mode.all.map Mode.name))
    exact ⟨(cursor.answer .modeName).2, h.take_scanner hfinds, .inl rfl⟩
  | eventName =>
    have hfinds := finds_ahead (ByteRecogniser.counts_named .eventName (Event.all.map Event.name))
    exact ⟨_, h.answer_visible hfinds rfl, .inl rfl⟩
  | commandName =>
    have hfinds := finds_ahead ByteRecogniser.counts_commandName
    exact ⟨_, h.answer_visible hfinds rfl, .inl rfl⟩
  | structural allowed =>
    have hfinds := finds_ahead (ByteRecogniser.counts_structural allowed)
    exact ⟨_, h.answer_visible hfinds rfl, .inl rfl⟩
  | remainder => exact ⟨_, h.answer_visible finds_remainder rfl, .inl rfl⟩
  | wholeWord allowed =>
    have htaken := h.takeVisible_scanner (finds_ahead (ByteRecogniser.counts_structural allowed))
    have hanswer : cursor.answer (.wholeWord allowed) =
        cursor.skipBlanks.grant ((Recogniser.structural allowed cursor.skipBlanks.rest).filter
          fun lexeme => endsWord lexeme.count cursor.skipBlanks.rest) := rfl
    rw [hanswer, Scanner.answer, htaken]
    cases hfound : Recogniser.structural allowed cursor.skipBlanks.rest with
    | none => exact ⟨cursor, rfl, .inr ⟨rfl, rfl⟩⟩
    | some lexeme =>
      have hafter : (cursor.skipBlanks.advance lexeme.count).LiesIn text :=
        h.skipBlanks.advance _
      have hends : (cursor.skipBlanks.advance lexeme.count).atBoundary =
          endsWord lexeme.count cursor.skipBlanks.rest := rfl
      simp only [grant, Option.bind_eq_bind, Option.bind_some, hafter.atBoundary_scanner, hends,
        Option.filter_some]
      cases endsWord lexeme.count cursor.skipBlanks.rest with
      | true => exact ⟨_, rfl, .inl rfl⟩
      | false => exact ⟨cursor, rfl, .inr ⟨rfl, rfl⟩⟩
  | next allowed =>
    have htaken := h.takeVisible_scanner (finds_ahead (ByteRecogniser.counts_structural allowed))
    have hanswer : cursor.answer (.next allowed) =
        cursor.skipBlanks.grant ((Recogniser.structural allowed cursor.skipBlanks.rest).or
          (Recogniser.remainder cursor.skipBlanks.rest)) := rfl
    rw [hanswer, Scanner.answer, htaken]
    cases hfound : Recogniser.structural allowed cursor.skipBlanks.rest with
    | some lexeme => exact ⟨_, rfl, .inl rfl⟩
    | none =>
      have hrest := h.skipBlanks.takeVisible_scanner finds_remainder
      rw [skipBlanks_skipBlanks] at hrest
      exact ⟨_, hrest, .inl rfl⟩

end Cursor

end RcScript
