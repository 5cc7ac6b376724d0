import RcScript.Program
import RcScript.Proofs.CursorMotion

/-!
# Moving a line through a text

What a line is read as depends on its content alone, its place in the text
showing only in the locations. Reading the same content at another offset and
line number gives the same tokens and the same node with every location moved.
The one exception is a byte-order mark at the front, which is skipped at offset
zero and nowhere else: a line that starts with it must keep its side of zero.
-/

namespace RcScript

open Text

/-- A count that lies a distance from another is that count moved. -/
theorem Span.move_eq {count other : Nat} {distance : Int} (h : (other : Int) = count + distance) :
    Span.move count distance = other := by
  simp only [Span.move, ← h, Int.toNat_natCast]

/-- Moving a token leaves its text alone. -/
@[simp]
theorem Token.shift_text (token : Token) (bytes lines : Int) :
    (token.shift bytes lines).text = token.text := rfl

variable {bytes lines : Int}

/-- A cursor at the same point of the same content, elsewhere in the text. -/
structure Cursor.Moved (bytes lines : Int) (old new : Cursor) : Prop where
  /-- The line starts `bytes` later. -/
  origin : (new.origin : Int) = old.origin + bytes
  /-- The line stands `lines` further down. -/
  line : (new.line : Int) = old.line + lines
  /-- The same characters were passed. -/
  passed : new.passed = old.passed
  /-- The same characters are left. -/
  rest : new.rest = old.rest
  /-- The byte-order mark is skipped in both places or in neither. -/
  mark : new.atMark = old.atMark

namespace Cursor.Moved

variable {old new : Cursor}

/-- A cursor that moved has passed as many bytes of its line as before. -/
theorem offset (h : Moved bytes lines old new) : new.offset = old.offset := by
  rw [new.offset_eq, old.offset_eq, h.passed]

/-- The place of a cursor in the text moves as far as its line. -/
theorem position (h : Moved bytes lines old new) :
    (new.position : Int) = old.position + bytes := by
  have ho := h.origin
  simp only [Cursor.position, h.offset]
  omega

/-- Both cursors move on alike. -/
theorem advance (h : Moved bytes lines old new) (count : Nat) :
    Moved bytes lines (old.advance count) (new.advance count) := by
  refine ⟨h.origin, h.line, ?_, ?_, ?_⟩
  · simp only [advance_passed, h.rest, h.passed]
  · simp only [advance_rest, h.rest]
  · by_cases ht : old.rest.take count = []
    · rw [advance_of_take_eq_nil ht, advance_of_take_eq_nil (h.rest ▸ ht), h.mark]
    · rw [atMark_advance ht, atMark_advance (h.rest ▸ ht)]

/-- Blanks are skipped alike where a line moved to. -/
theorem skipBlanks (h : Moved bytes lines old new) :
    Moved bytes lines old.skipBlanks new.skipBlanks := by
  have hc : new.blankCount = old.blankCount := by
    simp only [blankCount_eq, h.mark, h.rest]
  rw [Cursor.skipBlanks, Cursor.skipBlanks, hc]
  exact h.advance _

/-- Where a request starts to look moves with the cursor. -/
theorem ready (h : Moved bytes lines old new) (request : Request) :
    Moved bytes lines (old.ready request) (new.ready request) := by
  unfold Cursor.ready
  split
  · exact h.skipBlanks
  · exact h

/-- What is left to read does not depend on where the line stands. -/
theorem unread (h : Moved bytes lines old new) : new.unread = old.unread := h.skipBlanks.rest

/-- Recognition looks at the characters only, before and after the cursor. -/
theorem lexeme? (h : Moved bytes lines old new) (request : Request) :
    new.lexeme? request = old.lexeme? request := by
  have hb : new.opensLine = old.opensLine := by
    simp only [opensLine, before, h.passed]
  cases request <;> simp only [Cursor.lexeme?, Request.recogniser, h.rest, hb]

/-- The token at the new place is the token at the old one, moved. -/
theorem token (h : Moved bytes lines old new) (lexeme : Lexeme) :
    new.token lexeme = (old.token lexeme).shift bytes lines := by
  have hp := h.position
  simp only [Cursor.token, Token.shift, Span.shift, h.rest, h.offset, Token.mk.injEq,
    Span.mk.injEq, true_and, and_true]
  exact ⟨(Span.move_eq hp).symm, (Span.move_eq (by omega)).symm, (Span.move_eq h.line).symm⟩

/-- What a request finds without moving on is found at both places. -/
theorem answer_fst (h : Moved bytes lines old new) (request : Request) :
    (new.answer request).1 = (old.answer request).1.map fun token => token.shift bytes lines := by
  have hr := h.ready request
  unfold Cursor.ready at hr
  simp only [Cursor.answer, hr.lexeme? request]
  split <;> simp [hr.token]

end Cursor.Moved

/-- The same reading of the same content, elsewhere in the text. -/
structure Progress.Moved (bytes lines : Int) (old new : Progress) : Prop where
  /-- Reading stands at the same point. -/
  cursor : Cursor.Moved bytes lines old.cursor new.cursor
  /-- The tokens read so far are the same but for their place. -/
  taken : new.taken = old.taken.map fun token => token.shift bytes lines

namespace Progress.Moved

variable {old new : Progress}

/-- The tokens of a reading that moved are those read before, moved. -/
theorem tokens (h : Moved bytes lines old new) :
    new.tokens = old.tokens.map fun token => token.shift bytes lines := by
  simp only [Progress.tokens, h.taken, List.map_reverse]

/-- A request finds nothing at both places or the same token at both. -/
theorem accept (h : Moved bytes lines old new) (request : Request) :
    (old.accept request = none ∧ new.accept request = none) ∨
      ∃ token oldLater newLater, old.accept request = some (token, oldLater) ∧
        new.accept request = some (token.shift bytes lines, newLater) ∧
        Moved bytes lines oldLater newLater := by
  have hr := h.cursor.ready request
  rw [accept_eq, accept_eq, hr.lexeme? request]
  cases (old.cursor.ready request).lexeme? request with
  | none => exact .inl ⟨rfl, rfl⟩
  | some lexeme =>
    refine .inr ⟨_, _, ⟨(new.cursor.ready request).advance lexeme.count,
      (new.cursor.ready request).token lexeme :: new.taken⟩, rfl, ?_, hr.advance lexeme.count, ?_⟩
    · rw [← hr.token]
      rfl
    · simp only [List.map_cons, ← hr.token, ← h.taken]

end Progress.Moved

/-- Two readings give the same outcome at both places, their value carried over by `carry`. -/
def Reading.Carries (bytes lines : Int) (carry : α → α) (first second : Reading α) : Prop :=
  ∀ old new, Progress.Moved bytes lines old new →
    (second new).1 = (first old).1.map carry ∧
      Progress.Moved bytes lines (first old).2 (second new).2

/-- A reading whose value shows no place. -/
abbrev Reading.Placeless (reading : Reading α) : Prop :=
  ∀ bytes lines, Reading.Carries bytes lines id reading reading

namespace Reading

/-- A value that is there already is carried along, wherever it is read. -/
theorem Carries.pure (carry : α → α) (value : α) :
    Carries bytes lines carry (Pure.pure value) (Pure.pure (carry value)) :=
  fun _ _ h => ⟨rfl, h⟩

/-- Readings in sequence carry over when each does. -/
theorem Carries.bind {carry : α → α} {carryNext : β → β} {first second : Reading α}
    {next nextMoved : α → Reading β} (h : Carries bytes lines carry first second)
    (hn : ∀ value, Carries bytes lines carryNext (next value) (nextMoved (carry value))) :
    Carries bytes lines carryNext (first >>= next) (second >>= nextMoved) := by
  intro old new hm
  obtain ⟨hv, hl⟩ := h old new hm
  simp only [Bind.bind]
  generalize first old = outcome at hv hl
  generalize second new = outcomeMoved at hv hl
  obtain ⟨value, later⟩ := outcome
  obtain ⟨valueMoved, laterMoved⟩ := outcomeMoved
  obtain rfl : valueMoved = value.map carry := hv
  cases value with
  | error fault => exact ⟨rfl, hl⟩
  | ok value => exact hn value later laterMoved hl

/-- A value that is there already does not depend on the place. -/
theorem placeless_pure (value : α) : Placeless (Pure.pure value) :=
  fun _ _ => Carries.pure id value

/-- Readings that do not depend on the place do not depend on it in sequence. -/
theorem Placeless.bind {reading : Reading α} {next : α → Reading β} (h : Placeless reading)
    (hn : ∀ value, Placeless (next value)) : Placeless (reading >>= next) :=
  fun bytes lines => (h bytes lines).bind fun value => hn value bytes lines

/-- An optional token is carried over with its place. -/
theorem carries_optional (request : Request) :
    Carries bytes lines (Option.map fun token => token.shift bytes lines)
      (optional request) (optional request) := by
  intro old new h
  rcases h.accept request with ⟨ho, hn⟩ | ⟨token, oldLater, newLater, ho, hn, hl⟩
  · simp only [optional, ho, hn]
    exact ⟨rfl, h⟩
  · simp only [optional, ho, hn]
    exact ⟨rfl, hl⟩

/-- Any number of tokens are carried over with their places. -/
theorem carries_acceptUpTo (request : Request) (limit : Nat) {old new : Progress}
    (h : Progress.Moved bytes lines old new) :
    (new.acceptUpTo request limit).1 =
        (old.acceptUpTo request limit).1.map (fun token => token.shift bytes lines) ∧
      Progress.Moved bytes lines (old.acceptUpTo request limit).2
        (new.acceptUpTo request limit).2 := by
  induction limit generalizing old new with
  | zero => exact ⟨rfl, h⟩
  | succ limit ih =>
    rcases h.accept request with ⟨ho, hn⟩ | ⟨token, oldLater, newLater, ho, hn, hl⟩
    · simp only [Progress.acceptUpTo, ho, hn]
      exact ⟨rfl, h⟩
    · obtain ⟨ht, hp⟩ := ih hl
      simp only [Progress.acceptUpTo, ho, hn, List.map_cons, ht, true_and]
      exact hp

/-- A run of words gives the same words, each moved. -/
theorem carries_many (request : Request) :
    Carries bytes lines (List.map fun token => token.shift bytes lines)
      (many request) (many request) := by
  intro old new h
  have hc := carries_acceptUpTo request old.cursor.rest.length h
  simp only [many, Progress.acceptAll, h.cursor.rest]
  exact ⟨by rw [hc.1]; rfl, hc.2⟩

/-- A fault does not depend on the place. -/
theorem placeless_missing (expected : Expected) : Placeless (missing expected : Reading α) :=
  fun _ _ _ _ h => ⟨rfl, h⟩

/-- Whether a value is there does not depend on the place. -/
theorem placeless_require (expected : Expected) (value : Option α) :
    Placeless (require expected value) := by
  cases value with
  | none => exact placeless_missing expected
  | some value => exact placeless_pure value

/-- The text of a required token shows no place. -/
theorem placeless_need (expected : Expected) (request : Request) :
    Placeless (need expected request) := by
  intro bytes lines old new h
  rw [need_eq, need_eq]
  rcases h.accept request with ⟨ho, hn⟩ | ⟨token, oldLater, newLater, ho, hn, hl⟩
  · rw [ho, hn]
    exact ⟨rfl, h⟩
  · rw [ho, hn]
    exact ⟨rfl, hl⟩

/-- The text of a word does not depend on the place. -/
theorem placeless_word (expected : Expected) (pattern : Pattern) :
    Placeless (word expected pattern) := placeless_need _ _

/-- Whether a statement ends does not depend on the place. -/
theorem placeless_finish : Placeless finish := by
  intro bytes lines old new h
  have he : new.cursor.atEnd = old.cursor.atEnd := by
    simp only [Cursor.atEnd, h.cursor.skipBlanks.rest]
  simp only [finish, he]
  split <;> exact ⟨rfl, h⟩

end Reading

namespace Grammar

open Reading

/-- A command is read alike wherever it stands. -/
theorem placeless_exCommand : Placeless exCommand := by
  refine (placeless_need _ _).bind fun name bytes lines => ?_
  refine (carries_optional _).bind fun args => ?_
  cases args <;> exact Carries.pure id _

/-- A mode is read alike wherever it stands. -/
theorem placeless_mode : Placeless mode := by
  intro bytes lines
  refine (carries_optional _).bind fun found => ?_
  cases found with
  | none => exact placeless_pure _ bytes lines
  | some token =>
    refine (placeless_need _ _).bind (fun name => ?_) bytes lines
    exact (placeless_require _ _).bind fun mode => placeless_pure _

/-- A key is read alike wherever it stands. -/
theorem placeless_key : Placeless key :=
  (placeless_need _ _).bind fun _ => placeless_require _ _

/-- A flag and its pattern are read alike wherever they stand. -/
theorem placeless_containPattern : Placeless containPattern := by
  intro bytes lines
  refine (carries_optional _).bind fun sane => ?_
  cases sane with
  | some token => exact ((placeless_word _ _).bind fun _ => placeless_pure _) bytes lines
  | none =>
    refine (carries_optional _).bind fun url => ?_
    cases url with
    | some token => exact ((placeless_word _ _).bind fun _ => placeless_pure _) bytes lines
    | none => exact placeless_missing _ bytes lines

/-- A node that moving leaves as it is may end a reading. -/
theorem carries_pure_node {node : Node} (h : node.shift bytes lines = node) :
    Carries bytes lines (fun node : Node => node.shift bytes lines) (pure node) (pure node) := by
  have hc : Carries bytes lines (fun node : Node => node.shift bytes lines) (pure node)
      (pure (node.shift bytes lines)) := Carries.pure _ node
  rwa [h] at hc

/-- A value of a setting shows no place. -/
theorem settingValue_shift (token : Token) (bytes lines : Int) :
    settingValue (token.shift bytes lines) = settingValue token := rfl

/-- The grammar of every keyword reads alike at both places. Each branch ends
with a node that is not malformed, which moving leaves as it is. -/
theorem carries_ofKeyword (keyword : Keyword) (bytes lines : Int) :
    Carries bytes lines (fun node => node.shift bytes lines)
      (ofKeyword keyword) (ofKeyword keyword) := by
  cases keyword with
  | aliasDef =>
    refine (placeless_word _ _ bytes lines).bind fun name => ?_
    refine (placeless_word _ _ bytes lines).bind fun first => ?_
    refine (carries_many _).bind fun more => ?_
    have hm : (more.map fun token => token.shift bytes lines).map Token.text =
        more.map Token.text := by
      simp [Function.comp_def]
    rw [hm]
    exact carries_pure_node rfl
  | autocmd =>
    refine (placeless_need _ _ bytes lines).bind fun name => ?_
    refine (placeless_require _ _ bytes lines).bind fun event => ?_
    refine (placeless_word _ _ bytes lines).bind fun pattern => ?_
    refine (placeless_exCommand bytes lines).bind fun command => ?_
    exact carries_pure_node rfl
  | autocontain =>
    refine (placeless_containPattern bytes lines).bind fun found => ?_
    refine (placeless_word _ _ bytes lines).bind fun container => ?_
    exact carries_pure_node rfl
  | bind =>
    refine (placeless_mode bytes lines).bind fun mode => ?_
    refine (placeless_key bytes lines).bind fun key => ?_
    refine (placeless_exCommand bytes lines).bind fun command => ?_
    exact carries_pure_node rfl
  | unbind =>
    refine (placeless_mode bytes lines).bind fun mode => ?_
    refine (placeless_key bytes lines).bind fun key => ?_
    exact carries_pure_node rfl
  | command =>
    refine (placeless_word _ _ bytes lines).bind fun name => ?_
    refine (placeless_exCommand bytes lines).bind fun command => ?_
    exact carries_pure_node rfl
  | quickmark =>
    refine (placeless_need _ _ bytes lines).bind fun text => ?_
    refine (placeless_require _ _ bytes lines).bind fun key => ?_
    refine (placeless_word _ _ bytes lines).bind fun url => ?_
    exact carries_pure_node rfl
  | set =>
    refine (placeless_word _ _ bytes lines).bind fun name => ?_
    refine (carries_many _).bind fun values => ?_
    have hv : (values.map fun token => token.shift bytes lines).map settingValue =
        values.map settingValue := by
      simp [Function.comp_def, settingValue_shift]
    rw [hv]
    exact carries_pure_node rfl

/-- A statement that moves is read as the same node, moved. -/
theorem carries_statement (keyword : Keyword) (bytes lines : Int) :
    Carries bytes lines (fun node => node.shift bytes lines)
      (statement keyword) (statement keyword) := by
  refine (carries_ofKeyword keyword bytes lines).bind fun node => ?_
  refine (placeless_finish bytes lines).bind fun _ => ?_
  exact Carries.pure _ node

/-- A command on a line of its own reads alike at both places. -/
theorem carries_command (bytes lines : Int) :
    Carries bytes lines (fun node => node.shift bytes lines)
      (Node.exCommand <$> exCommand) (Node.exCommand <$> exCommand) := by
  refine (placeless_exCommand bytes lines).bind fun command => ?_
  exact carries_pure_node rfl

end Grammar

/-- The same content as a line elsewhere in the text. -/
structure SourceLine.Moved (bytes lines : Int) (old new : SourceLine) : Prop where
  /-- The line starts `bytes` later. -/
  origin : (new.origin : Int) = old.origin + bytes
  /-- The line stands `lines` further down. -/
  number : (new.number : Int) = old.number + lines
  /-- The content is the same. -/
  content : new.content = old.content
  /-- A byte-order mark in front is skipped in both places or in neither. -/
  mark : old.content.head? = some byteOrderMark → (new.origin = 0 ↔ old.origin = 0)

namespace SourceLine.Moved

variable {old new : SourceLine}

/-- Reading starts on a line that moved as it starts on the line. -/
theorem progress (h : Moved bytes lines old new) :
    Progress.Moved bytes lines old.progress new.progress := by
  refine ⟨⟨h.origin, h.number, rfl, h.content, ?_⟩, rfl⟩
  have hm := h.mark
  simp only [SourceLine.progress, Progress.start, Cursor.atStart, Cursor.atMark,
    Cursor.position, Nat.add_zero, h.content]
  by_cases hb : old.content.head? = some byteOrderMark
  · have ho := hm hb
    rw [Bool.eq_iff_iff]
    simp [ho]
  · have hf : (old.content.head? == some byteOrderMark) = false := beq_eq_false_iff_ne.mpr hb
    rw [hf, Bool.and_false, Bool.and_false]

/-- Both lines are cut at the same character for a diagnostic. -/
theorem body (h : Moved bytes lines old new) : new.body = old.body := by
  have hm := h.mark
  simp only [SourceLine.body, h.content]
  by_cases hb : old.content.head? = some byteOrderMark
  · have ho := hm hb
    simp only [beq_iff_eq, ho]
  · have hd : old.content.dropWhile (· == byteOrderMark) = old.content := by
      cases hc : old.content with
      | nil => rfl
      | cons c cs =>
        rw [hc, List.head?_cons, Option.some.injEq] at hb
        exact List.dropWhile_cons_of_neg (by simpa using hb)
    rw [hd, ite_self, ite_self]

/-- A line that moved is indented as before. -/
theorem indent (h : Moved bytes lines old new) : new.indent = old.indent := by
  simp only [SourceLine.indent, SourceLine.visible, h.body, h.content]

/-- The span that an error reports moves with its line. -/
theorem errorSpan (h : Moved bytes lines old new) :
    new.errorSpan = old.errorSpan.shift bytes lines := by
  have ho := h.origin
  simp only [SourceLine.errorSpan, Span.shift, h.indent, h.content, Span.mk.injEq, and_true]
  exact ⟨(Span.move_eq (by omega)).symm, (Span.move_eq (by omega)).symm,
    (Span.move_eq h.number).symm⟩

end SourceLine.Moved

namespace Reader

variable {old new : SourceLine}

/-- A fault gives the same malformed node but for its locations. -/
theorem malformed_moved (h : SourceLine.Moved bytes lines old new) (cause : Cause)
    (fallback : Option Token) :
    malformed new cause (fallback.map fun token => token.shift bytes lines) =
      (malformed old cause fallback).shift bytes lines := by
  simp only [malformed, Node.shift, Diagnostic.shift, h.errorSpan, h.content]

/-- The cause of a fault shows no place. -/
theorem faultCause_moved {oldCursor newCursor : Cursor}
    (h : Cursor.Moved bytes lines oldCursor newCursor) (kind : StatementKind) (fault : Fault) :
    faultCause kind fault newCursor = faultCause kind fault oldCursor := by
  cases fault with
  | missing expected => simp only [faultCause, Cursor.nextWord?, h.unread]
  | trailing => simp only [faultCause, h.unread]

/-- The token that a fault falls back to moves with the cursor. -/
theorem faultFallback_moved {oldCursor newCursor : Cursor}
    (h : Cursor.Moved bytes lines oldCursor newCursor) (fault : Fault) :
    faultFallback fault newCursor =
      (faultFallback fault oldCursor).map fun token => token.shift bytes lines := by
  cases fault with
  | missing expected => exact h.answer_fst .remainder
  | trailing => rfl

/-- The tokens and the node of a statement, moved. -/
def shiftRead (bytes lines : Int) (read : List Token × Node) : List Token × Node :=
  (read.1.map fun token => token.shift bytes lines, read.2.shift bytes lines)

/-- A moved outcome concludes in the moved statement. -/
theorem conclude_moved (h : SourceLine.Moved bytes lines old new) (kind : StatementKind)
    {reading : Reading Node}
    (hr : Reading.Carries bytes lines (fun node => node.shift bytes lines) reading reading)
    {oldAt newAt : Progress} (hp : Progress.Moved bytes lines oldAt newAt) :
    conclude new kind (reading newAt) =
      shiftRead bytes lines (conclude old kind (reading oldAt)) := by
  obtain ⟨hv, hl⟩ := hr oldAt newAt hp
  generalize reading oldAt = outcome at hv hl
  generalize reading newAt = outcomeMoved at hv hl
  obtain ⟨value, later⟩ := outcome
  obtain ⟨valueMoved, laterMoved⟩ := outcomeMoved
  obtain rfl : valueMoved = value.map fun node => node.shift bytes lines := hv
  cases value with
  | ok node => simp only [conclude, shiftRead, Except.map, hl.tokens]
  | error fault =>
    simp only [conclude, shiftRead, Except.map, hl.tokens, faultCause_moved hl.cursor,
      faultFallback_moved hl.cursor, malformed_moved h]

/-- A comment that moved is read as the same comment. -/
theorem comment_moved {oldAt newAt : Progress} (hp : Progress.Moved bytes lines oldAt newAt) :
    comment newAt = shiftRead bytes lines (comment oldAt) := by
  unfold comment
  rcases hp.accept .remainder with ⟨ho, hn⟩ | ⟨token, oldLater, newLater, ho, hn, hl⟩
  · simp only [ho, hn, shiftRead, hp.tokens, hp.cursor.rest, Node.shift]
  · simp only [ho, hn, shiftRead, hl.tokens, hp.cursor.rest, Node.shift]

/-- The same keyword opens the line at both places, or none does. -/
theorem keyword?_moved {oldAt newAt : Progress} (hp : Progress.Moved bytes lines oldAt newAt) :
    (keyword? oldAt = none ∧ keyword? newAt = none) ∨
      ∃ keyword oldLater newLater, keyword? oldAt = some (keyword, oldLater) ∧
        keyword? newAt = some (keyword, newLater) ∧
        Progress.Moved bytes lines oldLater newLater := by
  unfold keyword?
  induction Keyword.all with
  | nil => exact .inl ⟨rfl, rfl⟩
  | cons keyword later ih =>
    simp only [List.findSome?_cons]
    rcases hp.accept (.keyword keyword.literal) with
      ⟨ho, hn⟩ | ⟨token, oldLater, newLater, ho, hn, hl⟩
    · simp only [ho, hn, Option.map_none]
      exact ih
    · simp only [ho, hn, Option.map_some]
      exact .inr ⟨keyword, oldLater, newLater, rfl, rfl, hl⟩

/-- The length of the token that a request finds shows no place. -/
theorem token_length_shift {oldCursor newCursor : Cursor}
    (h : Cursor.Moved bytes lines oldCursor newCursor) (lexeme : Lexeme) :
    (newCursor.token lexeme).span.length = (oldCursor.token lexeme).span.length := by
  simp only [Cursor.token, Span.length, h.rest]
  omega

/-- What a request finds is as long as before. -/
theorem foundLength_moved {oldCursor newCursor : Cursor}
    (h : Cursor.Moved bytes lines oldCursor newCursor) (request : Request) :
    foundLength newCursor request = foundLength oldCursor request := by
  have hr := h.ready request
  unfold Cursor.ready at hr
  simp only [foundLength, Cursor.answer, hr.lexeme? request]
  split <;> simp [token_length_shift hr]

/-- Whether a line opens with the name of a command does not depend on its place. -/
theorem opensWithCommand_moved {oldCursor newCursor : Cursor}
    (h : Cursor.Moved bytes lines oldCursor newCursor) :
    opensWithCommand newCursor = opensWithCommand oldCursor := by
  have hr := h.ready .commandName
  have hl := hr.lexeme? .commandName
  unfold Cursor.ready at hr hl
  simp only [opensWithCommand, foundLength_moved h, Cursor.answer, hl]
  split <;> simp [token_length_shift hr]

/-- A line that is tried as a command moves with everything that is read from it. -/
theorem command_moved (h : SourceLine.Moved bytes lines old new) {oldAt newAt : Progress}
    (hp : Progress.Moved bytes lines oldAt newAt) :
    command new newAt = shiftRead bytes lines (command old oldAt) := by
  simp only [command, opensWithCommand_moved hp.cursor]
  split
  · exact conclude_moved h .exCommand (Grammar.carries_command bytes lines) hp
  · simp only [shiftRead, hp.tokens, Cursor.nextWord?, hp.cursor.unread]
    rw [← malformed_moved h]
    rfl

/-- A line elsewhere in the text is read as the same statement, moved. -/
theorem readLine_moved (h : SourceLine.Moved bytes lines old new) :
    readLine new = shiftRead bytes lines (readLine old) := by
  have hp := h.progress
  have he : new.progress.cursor.atEnd = old.progress.cursor.atEnd := by
    simp only [Cursor.atEnd, hp.cursor.skipBlanks.rest]
  simp only [readLine, he]
  split
  · simp only [shiftRead, hp.tokens, Node.shift]
  · rcases hp.accept .quoteMark with ⟨ho, hn⟩ | ⟨token, oldLater, newLater, ho, hn, hl⟩
    · simp only [ho, hn]
      rcases keyword?_moved hp with ⟨ho, hn⟩ | ⟨keyword, oldLater, newLater, ho, hn, hl⟩
      · simp only [ho, hn]
        exact command_moved h hp
      · simp only [ho, hn]
        exact conclude_moved h keyword.statementKind
          (Grammar.carries_statement keyword bytes lines) hl
    · simp only [ho, hn]
      exact comment_moved hl

/-- A line elsewhere in the text gives the same statement, moved. -/
theorem readStatement_moved {origin newOrigin number newNumber : Nat} (line : Line)
    (ho : (newOrigin : Int) = origin + bytes) (hn : (newNumber : Int) = number + lines)
    (hmark : line.content.head? = some byteOrderMark → (newOrigin = 0 ↔ origin = 0)) :
    readStatement newOrigin newNumber line =
      (readStatement origin number line).shift bytes lines := by
  have hline : SourceLine.Moved bytes lines ⟨origin, number, line.content⟩
      ⟨newOrigin, newNumber, line.content⟩ := ⟨ho, hn, rfl, hmark⟩
  have hread := readLine_moved hline
  simp only [readStatement, hread, shiftRead, Statement.shift, Span.shift, Statement.mk.injEq,
    Span.mk.injEq, and_true]
  exact ⟨(Span.move_eq ho).symm, (Span.move_eq (by omega)).symm, (Span.move_eq hn).symm⟩

/-- Lines behind the start of a text are read as the same statements wherever
they stand, moved as a block. -/
theorem readLines_moved {origin newOrigin number newNumber : Nat} (hpos : 0 < origin)
    (hnewPos : 0 < newOrigin) (ho : (newOrigin : Int) = origin + bytes)
    (hn : (newNumber : Int) = number + lines) (block : List Line) :
    readLines newOrigin newNumber block =
      (readLines origin number block).map fun statement => statement.shift bytes lines := by
  induction block generalizing origin newOrigin number newNumber with
  | nil => rfl
  | cons line later ih =>
    have hfirst := readStatement_moved line ho hn fun _ => by omega
    have hnewOrigin : ((newOrigin + utf8Length line.toList : Nat) : Int) =
        (origin + utf8Length line.toList : Nat) + bytes := by
      omega
    have hnewNumber : ((newNumber + 1 : Nat) : Int) = (number + 1 : Nat) + lines := by
      omega
    have hlater := ih (by omega) (by omega) hnewOrigin hnewNumber
    rw [readLines, readLines, List.map_cons, hfirst, hlater]

/-- Reading two blocks of lines in turn, the second where the first ends. -/
theorem readLines_append (origin number : Nat) (front back : List Line) :
    readLines origin number (front ++ back) = readLines origin number front ++
      readLines (origin + utf8Length (front.flatMap Line.toList)) (number + front.length)
        back := by
  induction front generalizing origin number with
  | nil => simp [readLines]
  | cons line front ih =>
    simp only [List.cons_append, readLines, ih, List.flatMap_cons, utf8Length_append,
      List.length_cons]
    congr 3 <;> omega

end Reader

end RcScript
