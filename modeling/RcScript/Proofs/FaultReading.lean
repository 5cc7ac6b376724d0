import RcScript.Proofs.ReadingRun

/-!
# Where a line fails

A part of a grammar stops for want of one of the things that it asks for, and a
statement stops as well where text is left behind it. A malformed line therefore opens
with nothing known, and then none of its tokens is taken, or it opens with a keyword and
stops in one of these two ways. A command on a line of its own never stops, since such a
line is looked at before it is read. Which of the wanted things is missing is not
determined here.
-/

namespace RcScript

open Text

/-- A reading stops only for want of one of the given things. -/
def Reading.Wants (wanted : List Expected) (reading : Reading α) : Prop :=
  ∀ progress fault later, reading progress = (.error fault, later) →
    ∃ expected ∈ wanted, fault = .missing expected

namespace Reading

variable {wanted : List Expected} {expected : Expected}

/-- A value that is there already wants nothing. -/
theorem wants_pure (value : α) : Wants wanted (pure value) := by
  intro progress fault later hread
  exact absurd (Prod.mk.inj hread).1 (by simp)

/-- Readings in sequence want what either of them wants. -/
theorem Wants.bind {reading : Reading α} {next : α → Reading β} (h : Wants wanted reading)
    (hn : ∀ value, Wants wanted (next value)) : Wants wanted (reading >>= next) := by
  intro progress fault later hread
  simp only [Bind.bind] at hread
  split at hread
  · next value middle hfirst => exact hn value middle fault later hread
  · next found middle hfirst =>
    obtain ⟨hfault, -⟩ := Prod.mk.inj hread
    obtain rfl := Except.error.inj hfault
    exact h progress found middle hfirst

/-- What may stand next is never missed. -/
theorem wants_optional (request : Request) : Wants wanted (optional request) := by
  intro progress fault later hread
  rw [optional] at hread
  split at hread <;> exact absurd (Prod.mk.inj hread).1 (by simp)

/-- A run of words may be empty, and so none of them is missed. -/
theorem wants_many (request : Request) : Wants wanted (many request) := by
  intro progress fault later hread
  exact absurd (Prod.mk.inj hread).1 (by simp)

/-- A fault names what it wants. -/
theorem wants_missing (h : expected ∈ wanted) : Wants wanted (missing expected : Reading α) := by
  intro progress fault later hread
  obtain ⟨hfault, -⟩ := Prod.mk.inj hread
  exact ⟨expected, h, (Except.error.inj hfault).symm⟩

/-- A value that is asked for is wanted if it is not there. -/
theorem wants_require (h : expected ∈ wanted) (value? : Option α) :
    Wants wanted (require expected value?) := by
  cases value? with
  | none => exact wants_missing h
  | some value => exact wants_pure value

/-- What must stand next is wanted if it is not there. -/
theorem wants_need (h : expected ∈ wanted) (request : Request) :
    Wants wanted (need expected request) :=
  (wants_optional request).bind fun _ => (wants_require h _).bind fun _ => wants_pure _

/-- A word is wanted if it is not there. -/
theorem wants_word (h : expected ∈ wanted) (pattern : Pattern) :
    Wants wanted (word expected pattern) :=
  wants_need h _

end Reading

/-- What the clause of a keyword asks for. -/
def Keyword.wanted : Keyword → List Expected
  | aliasDef => [.identifier]
  | autocmd => [.event, .domain, .exCommand]
  | autocontain => [.containFlag, .domain, .url, .identifier]
  | bind => [.mode, .key, .exCommand]
  | unbind => [.mode, .key]
  | command => [.identifier, .exCommand]
  | quickmark => [.singleKey, .url]
  | set => [.identifier]

namespace Grammar

open Reading

variable {wanted : List Expected}

/-- A command wants its name only: arguments may be left out. -/
theorem wants_exCommand (h : .exCommand ∈ wanted) : Wants wanted exCommand :=
  (wants_need h _).bind fun _ => (wants_optional _).bind fun _ => wants_pure _

/-- The flag of a mode wants a name behind it. -/
theorem wants_mode (h : .mode ∈ wanted) : Wants wanted mode := by
  refine (wants_optional _).bind fun found => ?_
  cases found with
  | none => exact wants_pure _
  | some token =>
    exact (wants_need h _).bind fun _ => (wants_require h _).bind fun _ => wants_pure _

/-- A key is wanted, whether nothing stands there or what stands there is no key. -/
theorem wants_key (h : .key ∈ wanted) : Wants wanted key :=
  (wants_need h _).bind fun _ => wants_require h _

/-- A rule for a container wants a flag, and then the pattern that the flag asks for. -/
theorem wants_containPattern (hflag : .containFlag ∈ wanted) (hdomain : .domain ∈ wanted)
    (hurl : .url ∈ wanted) : Wants wanted containPattern := by
  refine (wants_optional _).bind fun sane => ?_
  cases sane with
  | some token => exact (wants_word hdomain _).bind fun _ => wants_pure _
  | none =>
    refine (wants_optional _).bind fun url => ?_
    cases url with
    | some token => exact (wants_word hurl _).bind fun _ => wants_pure _
    | none => exact wants_missing hflag

/-- The grammar of a keyword stops only for want of what its clause asks for. -/
theorem wants_ofKeyword (keyword : Keyword) : Wants keyword.wanted (ofKeyword keyword) := by
  cases keyword with
  | aliasDef =>
    exact (wants_word (by decide) _).bind fun _ => (wants_word (by decide) _).bind fun _ =>
      (wants_many _).bind fun _ => wants_pure _
  | autocmd =>
    exact (wants_need (by decide) _).bind fun _ => (wants_require (by decide) _).bind fun _ =>
      (wants_word (by decide) _).bind fun _ => (wants_exCommand (by decide)).bind fun _ =>
        wants_pure _
  | autocontain =>
    exact (wants_containPattern (by decide) (by decide) (by decide)).bind fun _ =>
      (wants_word (by decide) _).bind fun _ => wants_pure _
  | bind =>
    exact (wants_mode (by decide)).bind fun _ => (wants_key (by decide)).bind fun _ =>
      (wants_exCommand (by decide)).bind fun _ => wants_pure _
  | unbind =>
    exact (wants_mode (by decide)).bind fun _ => (wants_key (by decide)).bind fun _ =>
      wants_pure _
  | command =>
    exact (wants_word (by decide) _).bind fun _ => (wants_exCommand (by decide)).bind fun _ =>
      wants_pure _
  | quickmark =>
    exact (wants_need (by decide) _).bind fun _ => (wants_require (by decide) _).bind fun _ =>
      (wants_word (by decide) _).bind fun _ => wants_pure _
  | set =>
    exact (wants_word (by decide) _).bind fun _ => (wants_many _).bind fun _ => wants_pure _

/-- A statement stops for want of what its clause asks for, or where text is left. -/
theorem fault_of_statement {keyword : Keyword} {progress later : Progress} {fault : Fault}
    (h : statement keyword progress = (.error fault, later)) :
    (∃ expected ∈ keyword.wanted, fault = .missing expected) ∨
      fault = .trailing ∧ later.cursor.unread ≠ [] := by
  simp only [statement, Bind.bind] at h
  split at h
  · next node middle hclause =>
    simp only [finish] at h
    by_cases hatEnd : middle.cursor.atEnd = true
    · rw [if_pos hatEnd] at h
      exact absurd (Prod.mk.inj h).1 (by simp)
    · rw [if_neg hatEnd] at h
      obtain ⟨hfault, rfl⟩ := Prod.mk.inj h
      refine .inr ⟨(Except.error.inj hfault).symm, fun hunread => hatEnd ?_⟩
      rw [Cursor.atEnd, Cursor.skipBlanks_rest, hunread, List.isEmpty_nil]
  · next found middle hclause =>
    obtain ⟨hfault, -⟩ := Prod.mk.inj h
    obtain rfl := Except.error.inj hfault
    exact .inl (wants_ofKeyword keyword progress found middle hclause)

end Grammar

namespace Progress

/-- What is reached from a progress that was reached is reached. -/
theorem Reaches.trans {first progress later : Progress} (h : first.Reaches progress)
    (hlater : progress.Reaches later) : first.Reaches later := by
  induction hlater with
  | start => exact h
  | accept _ hsolid haccept ih => exact .accept ih hsolid haccept

/-- Tokens that are taken come behind those that were. -/
theorem Reaches.exists_tokens {first progress : Progress} (h : first.Reaches progress) :
    ∃ tokens, progress.tokens = first.tokens ++ tokens := by
  induction h with
  | start => exact ⟨[], (List.append_nil _).symm⟩
  | accept _ _ haccept ih =>
    obtain ⟨tokens, htokens⟩ := ih
    exact ⟨_, by rw [tokens_of_accept haccept, htokens, List.append_assoc]⟩

end Progress

/-- A token that is taken behind blanks was unread. -/
theorem Request.Solid.unread_ne_nil {request : Request} {progress later : Progress} {token : Token}
    (h : request.Solid) (hskip : request.skipsBlanks = true)
    (haccept : progress.accept request = some (token, later)) : progress.cursor.unread ≠ [] := by
  rw [Progress.accept_eq, Option.map_eq_some_iff] at haccept
  obtain ⟨lexeme, hlexeme, -⟩ := haccept
  rw [Cursor.ready, if_pos hskip, Cursor.lexeme?] at hlexeme
  have hsolid := h _ _ lexeme hlexeme
  intro hunread
  rw [Cursor.skipBlanks_rest, hunread, List.take_nil] at hsolid
  exact hsolid rfl

/-- Where anything but blanks is left, there is a first word. -/
theorem Cursor.ofList_firstWord_ne {cursor : Cursor} (h : cursor.unread ≠ []) :
    String.ofList (firstWord cursor.unread) ≠ "" := by
  intro hempty
  have hword := congrArg String.toList hempty
  rw [String.toList_ofList] at hword
  obtain ⟨first, later, hunread⟩ := List.exists_cons_of_ne_nil h
  have hfirst := Grammar.isBlank_of_dropWhile (cursor.unread_eq.symm.trans hunread)
  rw [hunread, firstWord, List.takeWhile_cons_of_pos (by simp [hfirst])] at hword
  exact absurd hword (List.cons_ne_nil _ _)

namespace Reader

/-- A line fails at a progress, with a cause and what the diagnostic carries. -/
inductive FailsAt (line : SourceLine) : Progress → Cause → Option Token → Prop
  /-- Neither a keyword nor the name of a command opens the line. -/
  | unrecognized : line.progress.cursor.unread ≠ [] →
      FailsAt line line.progress
        (.unrecognized (String.ofList (firstWord line.progress.cursor.unread))) none
  /-- A part that the clause of the keyword asks for is missing. -/
  | incomplete {keyword : Keyword} {opened progress : Progress} {expected : Expected} :
      keyword? line.progress = some (keyword, opened) → opened.Reaches progress →
      expected ∈ keyword.wanted →
      FailsAt line progress (.incomplete keyword.statementKind expected progress.cursor.nextWord?)
        progress.cursor.remainder?
  /-- The clause of the keyword is complete and text is left. -/
  | trailing {keyword : Keyword} {opened progress : Progress} :
      keyword? line.progress = some (keyword, opened) → opened.Reaches progress →
      progress.cursor.unread ≠ [] →
      FailsAt line progress (.trailing keyword.statementKind
        (String.ofList (trimEnd isWhiteSpace progress.cursor.unread))) none

/-- What a line fails at is reached on the line. -/
theorem FailsAt.reaches {line : SourceLine} {progress : Progress} {cause : Cause}
    {fallback : Option Token} (h : FailsAt line progress cause fallback) :
    line.progress.Reaches progress := by
  cases h with
  | unrecognized => exact .start
  | incomplete hkeyword hreaches _ => exact (reaches_of_keyword? hkeyword).trans hreaches
  | trailing hkeyword hreaches _ => exact (reaches_of_keyword? hkeyword).trans hreaches

/-- The first token of a line that opens with a keyword is the keyword, behind what is skipped
at the start of the line. -/
theorem first_of_keyword? {line : SourceLine} {keyword : Keyword} {opened progress : Progress}
    (h : keyword? line.progress = some (keyword, opened)) (hreaches : opened.Reaches progress) :
    line.progress.cursor.unread ≠ [] ∧ ∃ token tokens, progress.tokens = token :: tokens ∧
      token.span.start = line.progress.cursor.skipBlanks.position := by
  obtain ⟨token, haccept⟩ := accept_of_keyword? h
  obtain ⟨tokens, htokens⟩ := hreaches.exists_tokens
  rw [Progress.tokens_of_accept haccept] at htokens
  have hunread := (Request.knows_keyword keyword).solid.unread_ne_nil rfl haccept
  rw [Progress.accept_eq, Option.map_eq_some_iff] at haccept
  obtain ⟨lexeme, -, he⟩ := haccept
  refine ⟨hunread, token, tokens, htokens, ?_⟩
  rw [← (Prod.mk.inj he).1]
  rfl

/-- A line fails with something on it, at the start of the line or behind a first token. -/
theorem FailsAt.first {line : SourceLine} {progress : Progress} {cause : Cause}
    {fallback : Option Token} (h : FailsAt line progress cause fallback) :
    line.progress.cursor.unread ≠ [] ∧
      (progress = line.progress ∧
          cause = .unrecognized (String.ofList (firstWord line.progress.cursor.unread)) ∨
        ∃ token tokens, progress.tokens = token :: tokens ∧
          token.span.start = line.progress.cursor.skipBlanks.position) := by
  cases h with
  | unrecognized hunread => exact ⟨hunread, .inl ⟨rfl, rfl⟩⟩
  | incomplete hkeyword hreaches _ =>
    obtain ⟨hunread, hfirst⟩ := first_of_keyword? hkeyword hreaches
    exact ⟨hunread, .inr hfirst⟩
  | trailing hkeyword hreaches _ =>
    obtain ⟨hunread, hfirst⟩ := first_of_keyword? hkeyword hreaches
    exact ⟨hunread, .inr hfirst⟩

/-- A statement that opens with a keyword is read, or it fails behind the keyword. -/
theorem failsAt_statement {line : SourceLine} {keyword : Keyword} {opened : Progress}
    (hkeyword : keyword? line.progress = some (keyword, opened))
    (h : (conclude line keyword.statementKind (Grammar.statement keyword opened)).2.kind =
      .malformed) :
    ∃ progress cause fallback, FailsAt line progress cause fallback ∧
      conclude line keyword.statementKind (Grammar.statement keyword opened) =
        (progress.tokens, malformed line cause fallback) := by
  have hreaches := Grammar.steps_statement keyword _ opened .start
  cases hread : Grammar.statement keyword opened with
  | mk outcome progress =>
    rw [hread] at h hreaches
    cases outcome with
    | ok node =>
      obtain ⟨rest, hopens, hstands⟩ := keyword?_eq_some hkeyword
      obtain ⟨-, -, -, hrest⟩ := opens_iff.mp hopens
      obtain ⟨-, ⟨hclause, -⟩, -⟩ :=
        (Grammar.realizes_statement keyword).sound hstands.sees hrest hread
      exact absurd h (kind_of_denotes (.statement hopens hclause))
    | error fault =>
      rcases Grammar.fault_of_statement hread with ⟨expected, hexpected, rfl⟩ | ⟨rfl, hunread⟩
      · exact ⟨progress, _, _, .incomplete hkeyword hreaches hexpected, rfl⟩
      · exact ⟨progress, _, _, .trailing hkeyword hreaches hunread, rfl⟩

/-- A line without a keyword is a command, or it fails before its first token: where the name of a
command was seen, the grammar finds it and has nothing to want. -/
theorem failsAt_command {line : SourceLine} (hunread : line.progress.cursor.unread ≠ [])
    (h : (command line line.progress).2.kind = .malformed) :
    ∃ cause fallback, FailsAt line line.progress cause fallback ∧
      command line line.progress = (line.progress.tokens, malformed line cause fallback) := by
  rw [command] at h ⊢
  split at h
  · next hopens =>
    rw [opensWithCommand_eq] at hopens
    obtain ⟨found, later, hread⟩ := Grammar.exists_exCommand_iff.mpr hopens
    rw [map_exCommand, hread] at h
    exact StatementKind.noConfusion h
  · next hopens =>
    refine ⟨_, _, .unrecognized hunread, ?_⟩
    rw [if_neg hopens, Cursor.nextWord?, if_neg (by simpa using hunread), Option.getD_some]

/-- A malformed line fails somewhere on it, and keeps the tokens up to there. -/
theorem failsAt_readLine {line : SourceLine} (h : (readLine line).2.kind = .malformed) :
    ∃ progress cause fallback, FailsAt line progress cause fallback ∧
      readLine line = (progress.tokens, malformed line cause fallback) := by
  simp only [readLine] at h ⊢
  split at h
  · exact StatementKind.noConfusion h
  · next hatEnd =>
    have hunread : line.progress.cursor.unread ≠ [] := by
      simpa [Cursor.atEnd, Cursor.skipBlanks_rest] using hatEnd
    rw [if_neg hatEnd]
    split at h
    · rw [comment_node] at h
      exact StatementKind.noConfusion h
    · split at h
      · next keyword opened hkeyword => exact failsAt_statement hkeyword h
      · exact ⟨line.progress, failsAt_command hunread h⟩

end Reader

/-- A malformed statement was read from a line, up to the progress that the line fails at. -/
structure Statement.FailsOn (statement : Statement) (diagnostic : Diagnostic) (line : SourceLine)
    (progress : Progress) : Prop where
  /-- The statement starts with its line. -/
  start : statement.span.start = line.origin
  /-- The statement has the number of its line. -/
  number : statement.span.line = line.number
  /-- The tokens are those that were taken before the fault. -/
  tokens : statement.tokens = progress.tokens
  /-- The diagnostic is about the line as it fails. -/
  fails : Reader.FailsAt line progress diagnostic.cause diagnostic.fallback
  /-- The diagnostic points to the line. -/
  span : diagnostic.span = line.errorSpan

/-- Every malformed statement of a text fails on the line at its place, which it keeps verbatim. -/
theorem Program.exists_failsOn {text : String} {index : Nat} {statement : Statement}
    {diagnostic : Diagnostic} {content : String}
    (h : (parse text).statements[index]? = some statement)
    (hnode : statement.node = .malformed diagnostic content) :
    ∃ line progress, (lines text.toList)[index]? = some line ∧
      content = String.ofList line.content ∧
      statement.FailsOn diagnostic
        ⟨utf8Length (((lines text.toList).take index).flatMap Line.toList), index + 1,
          line.content⟩ progress := by
  obtain ⟨line, hline, rfl⟩ := exists_line h
  have hread : (Reader.readLine ⟨utf8Length (((lines text.toList).take index).flatMap Line.toList),
      index + 1, line.content⟩).2 = .malformed diagnostic content := hnode
  have hkind := congrArg Node.kind hread
  obtain ⟨progress, cause, fallback, hfails, hfailed⟩ := Reader.failsAt_readLine hkind
  rw [hfailed] at hread
  obtain ⟨rfl, rfl⟩ := Node.malformed.inj hread
  exact ⟨line, progress, hline, rfl, rfl, rfl, congrArg Prod.fst hfailed, hfails, rfl⟩

end RcScript
