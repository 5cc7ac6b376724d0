import RcScript.Proofs.LineMeaning

/-!
# Runs of a reading

Every grammar does nothing to its progress but take tokens, one request after the
other. One progress is reached from another when it comes from there by such steps, and
whatever one accepted request keeps is therefore kept by every grammar, on the paths
that fail as on those that succeed. The requests that the grammars make never take an
empty token. Single requests of other kinds, such as one for an empty word, are left out.
-/

namespace RcScript

open Text

/-- A request that takes no empty token. -/
def Request.Solid (request : Request) : Prop :=
  ∀ (cursor : Cursor) (cs : List Char) (lexeme : Lexeme),
    request.recogniser cursor cs = some lexeme → cs.take lexeme.count ≠ []

namespace Request

/-- A request that is answered with words takes no empty token. -/
theorem Knows.solid {request : Request} {Word : TokenKind → List Char → Prop}
    (h : request.Knows Word) : request.Solid := by
  intro cursor cs lexeme hlexeme
  obtain ⟨w, rest, rfl, hcount, hword, -⟩ := (h.2 cursor).exists_word hlexeme
  rw [hcount, List.take_left]
  exact ((h.2 cursor).visible hword).ne_nil

/-- A whole word has a character, since no pattern matches the empty text. -/
theorem solid_wholeWord {allowed : List Pattern} (h : Recogniser.Apart allowed) :
    (wholeWord allowed).Solid :=
  (knows_wholeWord h).solid

/-- No mode has an empty name. -/
theorem solid_modeName : Request.modeName.Solid := by
  intro cursor cs lexeme hlexeme
  obtain ⟨w, rest, rfl, hcount, hword, -⟩ := Recogniser.recognises_modeName.exists_word hlexeme
  rw [hcount, List.take_left]
  exact (Recogniser.recognises_modeName.visible hword).ne_nil

/-- The flag in front of a mode is not empty. -/
theorem solid_modeMark : (Request.flag "--mode=").Solid := by
  intro cursor cs lexeme hlexeme
  simp only [recogniser, Recogniser.flag] at hlexeme
  split at hlexeme
  · next hmark =>
    rw [Bool.and_eq_true, List.isPrefixOf_iff_prefix] at hmark
    obtain ⟨rest, rfl⟩ := hmark.1
    rw [← Option.some.inj hlexeme, List.take_left]
    decide
  · simp at hlexeme

/-- The mark of a comment is one character. -/
theorem solid_quoteMark : Request.quoteMark.Solid := by
  intro cursor cs lexeme hlexeme
  simp only [recogniser] at hlexeme
  split at hlexeme
  · simp only [Recogniser.quoteMark] at hlexeme
    split at hlexeme
    · next hquote =>
      obtain ⟨rest, rfl⟩ := List.head?_eq_some_iff.mp (beq_iff_eq.mp hquote)
      rw [← Option.some.inj hlexeme]
      exact List.cons_ne_nil _ _
    · simp at hlexeme
  · simp at hlexeme

/-- The rest of a line is taken only where something is left of it. -/
theorem solid_remainder : Request.remainder.Solid := by
  intro cursor cs lexeme hlexeme
  simp only [recogniser, Recogniser.remainder] at hlexeme
  split at hlexeme
  · simp at hlexeme
  · next hne =>
    rw [← Option.some.inj hlexeme, List.take_length]
    simpa using hne

end Request

/-- A progress that comes from the first by taking tokens. -/
inductive Progress.Reaches (first : Progress) : Progress → Prop
  | start : Reaches first first
  | accept {progress later : Progress} {request : Request} {token : Token} :
      Reaches first progress → request.Solid → progress.accept request = some (token, later) →
      Reaches first later

/-- A reading that does nothing to its progress but take tokens. -/
def Reading.Steps (reading : Reading α) : Prop :=
  ∀ first progress : Progress, first.Reaches progress → first.Reaches (reading progress).2

namespace Reading

variable {request : Request}

/-- A value that is there already leaves the reading where it stands. -/
theorem steps_pure (value : α) : Steps (pure value) :=
  fun _ _ h => h

/-- Two readings in sequence take their tokens one after the other. -/
theorem Steps.bind {reading : Reading α} {next : α → Reading β} (h : Steps reading)
    (hn : ∀ value, Steps (next value)) : Steps (reading >>= next) := by
  intro first progress hreaches
  have hlater := h first progress hreaches
  cases hread : reading progress with
  | mk outcome later =>
    rw [hread] at hlater
    simp only [Bind.bind, hread]
    cases outcome with
    | error fault => exact hlater
    | ok value => exact hn value first later hlater

/-- What may stand next takes one token or leaves the reading where it stands. -/
theorem steps_optional (h : request.Solid) : Steps (optional request) := by
  intro first progress hreaches
  cases haccept : progress.accept request with
  | none =>
    simp only [optional, haccept]
    exact hreaches
  | some taken =>
    simp only [optional, haccept]
    exact .accept hreaches h haccept

/-- A run of words takes its tokens one after the other. -/
theorem steps_many (h : request.Solid) : Steps (many request) := by
  intro first progress hreaches
  simp only [many, Progress.acceptAll]
  generalize progress.cursor.rest.length = limit
  induction limit generalizing progress with
  | zero => exact hreaches
  | succ limit ih =>
    cases haccept : progress.accept request with
    | none =>
      simp only [Progress.acceptUpTo, haccept]
      exact hreaches
    | some taken =>
      simp only [Progress.acceptUpTo, haccept]
      exact ih _ (.accept hreaches h haccept)

/-- A fault leaves the reading where it stands. -/
theorem steps_missing (expected : Expected) : Steps (missing expected : Reading α) :=
  fun _ _ h => h

/-- A value that is asked for leaves the reading where it stands, there or not. -/
theorem steps_require (expected : Expected) (value? : Option α) :
    Steps (require expected value?) := by
  cases value? with
  | none => exact steps_missing expected
  | some value => exact steps_pure value

/-- What must stand next takes one token, or stops without one. -/
theorem steps_need (expected : Expected) (h : request.Solid) : Steps (need expected request) :=
  (steps_optional h).bind fun _ => (steps_require _ _).bind fun _ => steps_pure _

/-- A word takes one token, or stops without one. -/
theorem steps_word (expected : Expected) (pattern : Pattern) : Steps (word expected pattern) :=
  steps_need expected (Request.solid_wholeWord (Recogniser.apart_singleton pattern))

/-- The end of a statement takes no token. -/
theorem steps_finish : Steps finish := by
  intro first progress hreaches
  simp only [finish]
  split <;> exact hreaches

end Reading

namespace Grammar

open Reading

/-- A command takes its name, and then its arguments if there are any. -/
theorem steps_exCommand : Steps exCommand :=
  (steps_need _ Request.knows_commandName.solid).bind fun _ =>
    (steps_optional Request.solid_remainder).bind fun _ => steps_pure _

/-- The mode of a binding takes its flag, and then a name. -/
theorem steps_mode : Steps mode := by
  refine (steps_optional Request.solid_modeMark).bind fun found => ?_
  cases found with
  | none => exact steps_pure _
  | some token =>
    exact (steps_need _ Request.solid_modeName).bind fun _ =>
      (steps_require _ _).bind fun _ => steps_pure _

/-- A key takes one token, even where it turns out to be none. -/
theorem steps_key : Steps key :=
  (steps_need _ (Request.solid_wholeWord Recogniser.apart_keys)).bind fun _ => steps_require _ _

/-- A rule for a container tries one flag, then the other, and takes a pattern behind the first that
is there. -/
theorem steps_containPattern : Steps containPattern := by
  refine (steps_optional (Request.knows_flag .sane).solid).bind fun sane => ?_
  cases sane with
  | some token => exact (steps_word _ _).bind fun _ => steps_pure _
  | none =>
    refine (steps_optional (Request.knows_flag .url).solid).bind fun url => ?_
    cases url with
    | some token => exact (steps_word _ _).bind fun _ => steps_pure _
    | none => exact steps_missing _

/-- The grammar behind every keyword takes its tokens one after the other. -/
theorem steps_ofKeyword (keyword : Keyword) : Steps (ofKeyword keyword) := by
  cases keyword with
  | aliasDef =>
    exact (steps_word _ _).bind fun _ => (steps_word _ _).bind fun _ =>
      (steps_many (Request.solid_wholeWord (Recogniser.apart_singleton _))).bind fun _ =>
        steps_pure _
  | autocmd =>
    exact (steps_need _ Request.knows_eventName.solid).bind fun _ =>
      (steps_require _ _).bind fun _ => (steps_word _ _).bind fun _ =>
        steps_exCommand.bind fun _ => steps_pure _
  | autocontain =>
    exact steps_containPattern.bind fun _ => (steps_word _ _).bind fun _ => steps_pure _
  | bind =>
    exact steps_mode.bind fun _ => steps_key.bind fun _ => steps_exCommand.bind fun _ =>
      steps_pure _
  | unbind => exact steps_mode.bind fun _ => steps_key.bind fun _ => steps_pure _
  | command => exact (steps_word _ _).bind fun _ => steps_exCommand.bind fun _ => steps_pure _
  | quickmark =>
    exact (steps_need _ (Request.solid_wholeWord (Recogniser.apart_singleton _))).bind fun _ =>
      (steps_require _ _).bind fun _ => (steps_word _ _).bind fun _ => steps_pure _
  | set =>
    exact (steps_word _ _).bind fun _ =>
      (steps_many (Request.solid_wholeWord Recogniser.apart_values)).bind fun _ => steps_pure _

/-- A statement takes the tokens of its grammar, and its end adds none. -/
theorem steps_statement (keyword : Keyword) : Steps (statement keyword) :=
  (steps_ofKeyword keyword).bind fun _ => steps_finish.bind fun _ => steps_pure _

end Grammar

namespace Reader

/-- What is read of a line is concluded from a progress that its grammar reached. -/
theorem conclude_eq (line : SourceLine) (kind : StatementKind)
    (outcome : Except Fault Node × Progress) :
    (conclude line kind outcome).1 = outcome.2.tokens ∧
      ((conclude line kind outcome).2.kind ≠ .malformed →
        outcome.1 = .ok (conclude line kind outcome).2) := by
  obtain ⟨result, progress⟩ := outcome
  cases result with
  | ok node => exact ⟨rfl, fun _ => rfl⟩
  | error fault => exact ⟨rfl, fun h => absurd rfl h⟩

/-- The tokens of a line are those of a progress reached on it, and nothing but blanks
is unread there unless the line is malformed. -/
def ReadTo (line : SourceLine) (read : List Token × Node) : Prop :=
  ∃ progress : Progress, line.progress.Reaches progress ∧ read.1 = progress.tokens ∧
    (read.2.kind ≠ .malformed → progress.cursor.unread = [])

/-- A comment is read to the end of its line. -/
theorem readTo_comment {line : SourceLine} {progress : Progress}
    (h : line.progress.Reaches progress) : ReadTo line (comment progress) := by
  rw [comment]
  split
  · next token later haccept =>
    refine ⟨later, .accept h Request.solid_remainder haccept, rfl, fun _ => ?_⟩
    have hrest : later.cursor.rest = [] := by
      rw [Progress.accept_eq, Option.map_eq_some_iff] at haccept
      obtain ⟨lexeme, hlexeme, he⟩ := haccept
      simp only [Cursor.lexeme?, Request.recogniser, Recogniser.remainder] at hlexeme
      split at hlexeme
      · simp at hlexeme
      · rw [← (Prod.mk.inj he).2, ← Option.some.inj hlexeme, Cursor.advance_rest,
          List.drop_length]
    rw [Cursor.unread, Cursor.skipBlanks, Cursor.advance_rest, hrest, List.drop_nil]
  · next haccept =>
    refine ⟨progress, h, rfl, fun _ => ?_⟩
    rw [Progress.accept_eq_none_of_unread rfl] at haccept
    simpa [Request.recogniser, Recogniser.remainder] using haccept

/-- The keyword that opens a line is taken from its start. -/
theorem reaches_of_keyword? {line : SourceLine} {keyword : Keyword} {later : Progress}
    (h : keyword? line.progress = some (keyword, later)) : line.progress.Reaches later := by
  obtain ⟨token, haccept⟩ := accept_of_keyword? h
  exact .accept .start (Request.knows_keyword keyword).solid haccept

/-- A statement is read to the end of its line. -/
theorem readTo_statement {line : SourceLine} {keyword : Keyword} {later : Progress}
    (h : keyword? line.progress = some (keyword, later)) :
    ReadTo line (conclude line keyword.statementKind (Grammar.statement keyword later)) := by
  have hreaches := reaches_of_keyword? h
  obtain ⟨htokens, hnode⟩ :=
    conclude_eq line keyword.statementKind (Grammar.statement keyword later)
  refine ⟨(Grammar.statement keyword later).2,
    Grammar.steps_statement keyword _ later hreaches, htokens, fun hkind => ?_⟩
  obtain ⟨rest, hopens, hstands⟩ := keyword?_eq_some h
  obtain ⟨-, -, -, hrest⟩ := opens_iff.mp hopens
  have hread : Grammar.statement keyword later = (.ok _, (Grammar.statement keyword later).2) :=
    Prod.ext (hnode hkind) rfl
  obtain ⟨last, ⟨-, rfl⟩, -, hsees⟩ :=
    (Grammar.realizes_statement keyword).sound hstands.sees hrest hread
  exact hsees

/-- A command on a line of its own is read to the end of its line. -/
theorem readTo_command (line : SourceLine) : ReadTo line (command line line.progress) := by
  rw [command]
  split
  · obtain ⟨htokens, hnode⟩ :=
      conclude_eq line .exCommand ((Node.exCommand <$> Grammar.exCommand) line.progress)
    have hsteps := Grammar.steps_exCommand _ line.progress .start
    rw [map_exCommand] at htokens hnode ⊢
    cases hread : Grammar.exCommand line.progress with
    | mk outcome later =>
      rw [hread] at hsteps
      simp only [hread] at htokens hnode ⊢
      cases outcome with
      | error fault => exact ⟨later, hsteps, htokens, fun hkind => absurd rfl hkind⟩
      | ok found =>
        refine ⟨later, hsteps, htokens, fun _ => ?_⟩
        obtain ⟨last, ⟨-, rfl⟩, -, hsees⟩ :=
          Grammar.realizes_exCommand.sound line.sees_gap line.fieldEnd_gap hread
        exact hsees
  · exact ⟨line.progress, .start, rfl, fun hkind => absurd rfl hkind⟩

/-- Every line is read to a progress that is reached on it. -/
theorem readTo_readLine (line : SourceLine) : ReadTo line (readLine line) := by
  simp only [readLine]
  split
  · next hatEnd =>
    rw [Cursor.atEnd, List.isEmpty_iff] at hatEnd
    exact ⟨line.progress, .start, rfl, fun _ => hatEnd⟩
  · split
    · next token later haccept =>
      exact readTo_comment (.accept .start Request.solid_quoteMark haccept)
    · split
      · next keyword later hkeyword => exact readTo_statement hkeyword
      · exact readTo_command line

end Reader

end RcScript
