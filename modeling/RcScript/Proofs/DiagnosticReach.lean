import RcScript.Proofs.FaultReading
import RcScript.Proofs.StatementTokens

/-!
# Which diagnostics arise

Of all that a diagnostic could complain of, a script can bring about no more than a short
list, and all of that. A line without a keyword is either unrecognized or a command, since
the look at its first word decides. A statement stops for want of what its keyword asks
for; only where it does not run a command can text be left behind it, since a command takes
all of it. No token is refused once it is taken: the names of events and modes, the keys
and the single letters that are recognised all stand for something. Which line brings about
which complaint is not said here.
-/

namespace RcScript

open Text

/-- What a diagnostic complains of, without the text that it reports. -/
inductive Complaint where
  /-- The line opens with nothing known. -/
  | unrecognized
  /-- A part of a statement is missing. -/
  | incomplete (statement : StatementKind) (expected : Expected)
  /-- Text is left behind a statement. -/
  | trailing (statement : StatementKind)
  deriving DecidableEq, Repr

/-- What a cause complains of. -/
def Cause.complaint : Cause → Complaint
  | unrecognized _ => .unrecognized
  | incomplete statement expected _ => .incomplete statement expected
  | trailing statement _ => .trailing statement

/-- The complaints that scripts can bring about. -/
def Complaint.reachable : List Complaint :=
  [.unrecognized,
    .incomplete .aliasDef .identifier,
    .incomplete .autocmd .event, .incomplete .autocmd .domain, .incomplete .autocmd .exCommand,
    .incomplete .autocontain .containFlag, .incomplete .autocontain .domain,
    .incomplete .autocontain .url, .incomplete .autocontain .identifier,
    .incomplete .binding .mode, .incomplete .binding .key, .incomplete .binding .exCommand,
    .incomplete .unbinding .mode, .incomplete .unbinding .key,
    .incomplete .commandDef .identifier, .incomplete .commandDef .exCommand,
    .incomplete .quickmark .singleKey, .incomplete .quickmark .url,
    .incomplete .setting .identifier,
    .trailing .aliasDef, .trailing .autocontain, .trailing .unbinding, .trailing .quickmark,
    .trailing .setting]

namespace Complaint

/-- The parts that keywords ask for are those that can be missing. -/
theorem incomplete_mem_reachable (keyword : Keyword) :
    ∀ expected ∈ keyword.wanted, incomplete keyword.statementKind expected ∈ reachable := by
  cases keyword <;> decide

/-- No keyword asks for a number, and a command on a line of its own has none. -/
theorem not_reachable_incomplete {statement : StatementKind} {expected : Expected}
    (h : incomplete statement expected ∈ reachable) :
    expected ≠ .number ∧ statement ≠ .exCommand := by
  constructor
  · rintro rfl
    cases statement <;> exact absurd h (by decide)
  · rintro rfl
    cases expected <;> exact absurd h (by decide)

end Complaint

/-- A reading that succeeds only where nothing but blanks is left. -/
def Reading.Exhausts (reading : Reading α) : Prop :=
  ∀ progress value later, reading progress = (.ok value, later) → later.cursor.unread = []

namespace Reading

/-- The rest of a line is all that is left of it. -/
theorem exhausts_remainder : Exhausts (optional .remainder) := by
  intro progress token? later hread
  have hsees : progress.Sees (lineText (progress.cursor.position = 0) progress.cursor.rest) :=
    progress.cursor.unread_eq
  rcases optional_remainder hsees with ⟨-, hnone, hend⟩ | ⟨-, token, next, hsome, -, hend⟩
  · rw [hnone] at hread
    rw [← (Prod.mk.inj hread).2]
    exact hend
  · rw [hsome] at hread
    rw [← (Prod.mk.inj hread).2]
    exact hend

/-- What comes last decides what is left. -/
theorem Exhausts.bind {reading : Reading α} {next : α → Reading β}
    (h : ∀ value, Exhausts (next value)) : Exhausts (reading >>= next) := by
  intro progress found later hread
  simp only [Bind.bind] at hread
  split at hread
  · next value middle hfirst => exact h value middle found later hread
  · next fault middle hfirst => simp at hread

/-- A value made of what was read leaves what the reading left. -/
theorem Exhausts.map {reading : Reading α} (h : Exhausts reading) (f : α → β) :
    Exhausts (reading >>= fun value => pure (f value)) := by
  intro progress found later hread
  simp only [Bind.bind] at hread
  split at hread
  · next value middle hfirst =>
    rw [← (Prod.mk.inj hread).2]
    exact h progress value middle hfirst
  · next fault middle hfirst => simp at hread

end Reading

/-- A statement behind which text is left can have text behind it. -/
theorem Complaint.trailing_mem_reachable {keyword : Keyword} (h : keyword.endsEarly = true) :
    trailing keyword.statementKind ∈ reachable := by
  cases keyword <;> first | decide | exact absurd h (by decide)

namespace Grammar

open Reading

/-- A command takes the rest of its line, as arguments or as blanks. -/
theorem exhausts_exCommand : Exhausts exCommand :=
  Exhausts.bind fun _ => exhausts_remainder.map _

/-- A statement that runs a command takes the rest of its line. -/
theorem exhausts_ofKeyword {keyword : Keyword} (h : keyword.endsEarly = false) :
    Exhausts (ofKeyword keyword) := by
  cases keyword with
  | autocmd =>
    exact .bind fun _ => .bind fun _ => .bind fun _ => exhausts_exCommand.map _
  | bind => exact .bind fun _ => .bind fun _ => exhausts_exCommand.map _
  | command => exact .bind fun _ => exhausts_exCommand.map _
  | aliasDef | autocontain | unbind | quickmark | set => exact absurd h (by decide)

/-- What is read before the end of the line is looked for is what was read. -/
theorem exists_of_trailing {keyword : Keyword} {progress later : Progress}
    (h : statement keyword progress = (.error .trailing, later)) :
    ∃ node, ofKeyword keyword progress = (.ok node, later) := by
  simp only [statement, Bind.bind] at h
  split at h
  · next node middle hclause =>
    simp only [finish] at h
    by_cases hatEnd : middle.cursor.atEnd = true
    · rw [if_pos hatEnd] at h
      exact absurd (Prod.mk.inj h).1 (by simp)
    · rw [if_neg hatEnd] at h
      rw [← (Prod.mk.inj h).2]
      exact ⟨node, hclause⟩
  · next fault middle hclause =>
    obtain ⟨hfault, -⟩ := Prod.mk.inj h
    obtain rfl := Except.error.inj hfault
    obtain ⟨expected, -, hmissing⟩ := wants_ofKeyword keyword progress _ _ hclause
    exact Fault.noConfusion hmissing

/-- What is read of a statement is no malformed node, since its tokens show a keyword. -/
theorem ne_malformed_of_statement {keyword : Keyword} {progress later : Progress} {node : Node}
    (h : statement keyword progress = (.ok node, later)) (diagnostic : Diagnostic)
    (content : String) : node ≠ .malformed diagnostic content := by
  obtain ⟨taken, -, hshown⟩ := takesNode_statement keyword progress node later h
  rintro rfl
  exact List.cons_ne_nil _ _ hshown

/-- A statement complains only of what can be missing in it or left behind it. -/
theorem complaint_of_statement {keyword : Keyword} {progress later : Progress} {fault : Fault}
    (h : statement keyword progress = (.error fault, later)) :
    (Reader.faultCause keyword.statementKind fault later.cursor).complaint ∈
      Complaint.reachable := by
  rcases fault_of_statement h with ⟨expected, hexpected, rfl⟩ | ⟨rfl, hunread⟩
  · exact Complaint.incomplete_mem_reachable keyword expected hexpected
  · obtain ⟨node, hclause⟩ := exists_of_trailing h
    refine Complaint.trailing_mem_reachable ?_
    cases hearly : keyword.endsEarly with
    | true => rfl
    | false => exact absurd (exhausts_ofKeyword hearly _ _ _ hclause) hunread

end Grammar

namespace Reader

variable {line : SourceLine}

/-- A line that passes the look at its first word is read as a command. -/
theorem command_of_opensWithCommand (h : opensWithCommand line.progress.cursor = true) :
    ∃ found, (command line line.progress).2 = .exCommand found := by
  have hname := h
  rw [opensWithCommand_eq] at hname
  obtain ⟨found, later, hread⟩ := Grammar.exists_exCommand_iff.mpr hname
  refine ⟨found, ?_⟩
  rw [command, if_pos h, map_exCommand, hread]
  rfl

/-- A malformed line has a statement that stops behind its keyword, or it opens with nothing
known. -/
theorem cause_of_malformed {diagnostic : Diagnostic} {content : String}
    (h : (readLine line).2 = .malformed diagnostic content) :
    (∃ keyword opened fault progress, keyword? line.progress = some (keyword, opened) ∧
        Grammar.statement keyword opened = (.error fault, progress) ∧
        diagnostic.cause = faultCause keyword.statementKind fault progress.cursor) ∨
      line.progress.cursor.unread ≠ [] ∧
        diagnostic.cause = .unrecognized (String.ofList (firstWord line.progress.cursor.unread)) := by
  simp only [readLine] at h
  split at h
  · exact Node.noConfusion h
  · next hatEnd =>
    have hunread : line.progress.cursor.unread ≠ [] := by
      simpa [Cursor.atEnd, Cursor.skipBlanks_rest] using hatEnd
    split at h
    · rw [comment_node] at h
      exact Node.noConfusion h
    · split at h
      · next keyword opened hkeyword =>
        cases hread : Grammar.statement keyword opened with
        | mk outcome progress =>
          rw [hread] at h
          cases outcome with
          | ok node => exact absurd h (Grammar.ne_malformed_of_statement hread _ _)
          | error fault =>
            have hcause := congrArg Diagnostic.cause (Node.malformed.inj h).1
            exact .inl ⟨keyword, opened, fault, progress, hkeyword, hread, hcause.symm⟩
      · by_cases hopens : opensWithCommand line.progress.cursor = true
        · obtain ⟨found, hfound⟩ := command_of_opensWithCommand hopens
          rw [hfound] at h
          exact Node.noConfusion h
        · rw [command, if_neg hopens, Cursor.nextWord?, if_neg (by simpa using hunread)] at h
          have hcause := congrArg Diagnostic.cause (Node.malformed.inj h).1
          exact .inr ⟨hunread, hcause.symm⟩

/-- A line complains only of what scripts can bring about. -/
theorem complaint_readLine {diagnostic : Diagnostic} {content : String}
    (h : (readLine line).2 = .malformed diagnostic content) :
    diagnostic.cause.complaint ∈ Complaint.reachable := by
  rcases cause_of_malformed h with ⟨keyword, opened, fault, progress, -, hread, hcause⟩ |
    ⟨-, hcause⟩
  · rw [hcause]
    exact Grammar.complaint_of_statement hread
  · rw [hcause]
    exact List.mem_cons_self

/-- A line that opens with neither a quote mark nor a keyword and passes the look at its first
word is a command. -/
theorem kind_of_opensWithCommand (hquote : line.progress.accept .quoteMark = none)
    (hkeyword : keyword? line.progress = none)
    (h : opensWithCommand line.progress.cursor = true) : (readLine line).2.kind = .exCommand := by
  have hname := h
  rw [opensWithCommand_eq] at hname
  obtain ⟨⟨token, later⟩, haccept⟩ := Option.isSome_iff_exists.mp hname
  have hunread := Request.knows_commandName.solid.unread_ne_nil rfl haccept
  have hatEnd : line.progress.cursor.atEnd = false := by
    simpa [Cursor.atEnd, Cursor.skipBlanks_rest] using hunread
  obtain ⟨found, hfound⟩ := command_of_opensWithCommand h
  simp only [readLine, hatEnd, hquote, hkeyword, hfound, Bool.false_eq_true, if_false]
  rfl

end Reader

/-- The tokens that are found at a cursor stand for something, where their class says what. -/
structure Cursor.FindsTyped (cursor : Cursor) : Prop where
  /-- The token of an event names one. -/
  event : ∀ token, (cursor.answer .eventName).1 = some token →
    ∃ event, Event.ofName? token.text = some event
  /-- The token of a mode names one. -/
  mode : ∀ token, (cursor.answer .modeName).1 = some token →
    ∃ mode, Mode.ofName? token.text = some mode
  /-- The token of a key is the notation of one. -/
  key : ∀ token, (cursor.answer (.wholeWord [.compoundKey, .singleKey])).1 = some token →
    ∃ key, Key.ofText? token.text = some key
  /-- The token of a single letter has the letter. -/
  singleKey : ∀ token, (cursor.answer (.wholeWord [.singleKey])).1 = some token →
    ∃ letter, token.text.toList = [letter]

/-- A token that is found at a cursor is a word of the request. -/
theorem Request.Gives.word {request : Request} {Word : TokenKind → List Char → Prop}
    (h : request.Gives Word) {cursor : Cursor} {token : Token}
    (htoken : (cursor.answer request).1 = some token) : Word token.kind token.text.toList := by
  rw [Progress.answer_fst ⟨cursor, []⟩, Option.map_eq_some_iff] at htoken
  obtain ⟨⟨found, later⟩, haccept, rfl⟩ := htoken
  exact h _ found later haccept

/-- Every cursor finds typed tokens. -/
theorem Cursor.findsTyped (cursor : Cursor) : cursor.FindsTyped := by
  constructor
  case event =>
    intro token htoken
    obtain ⟨-, hname⟩ := Request.knows_eventName.gives.word htoken
    rw [String.ofList_toList] at hname
    obtain ⟨event, -, hevent⟩ := List.mem_map.mp hname
    exact ⟨event, Grammar.ofName?_event.mpr hevent.symm⟩
  case mode =>
    intro token htoken
    obtain ⟨-, hname⟩ := Request.gives_modeName.word htoken
    rw [String.ofList_toList] at hname
    obtain ⟨mode, -, hmode⟩ := List.mem_map.mp hname
    exact ⟨mode, Grammar.ofName?_mode.mpr hmode.symm⟩
  case key =>
    intro token htoken
    have hwords := Request.knows_wholeWord Recogniser.apart_keys
    obtain ⟨key, hkey⟩ := Grammar.exists_key_of_word (hwords.gives.word htoken)
    rw [String.ofList_toList] at hkey
    exact ⟨key, hkey⟩
  case singleKey =>
    intro token htoken
    have hwords := Request.knows_wholeWord (Recogniser.apart_singleton .singleKey)
    obtain ⟨pattern, hmem, -, hlang⟩ := hwords.gives.word htoken
    obtain rfl := List.mem_singleton.mp hmem
    obtain ⟨letter, -, htext⟩ := hlang
    exact ⟨letter, htext⟩

namespace Program

/-- A diagnostic of a text complains only of what scripts can bring about. -/
theorem complaint_diagnostics {text : String} {diagnostic : Diagnostic}
    (h : diagnostic ∈ (parse text).diagnostics) :
    diagnostic.cause.complaint ∈ Complaint.reachable := by
  obtain ⟨statement, hmem, content, hnode⟩ := mem_diagnostics_iff.mp h
  obtain ⟨index, hindex⟩ := List.mem_iff_getElem?.mp hmem
  obtain ⟨line, -, rfl⟩ := exists_line hindex
  exact Reader.complaint_readLine hnode

/-- A script with one line for each of the complaints. -/
def complainingText : String :=
  "1\nalias\nautocmd\nautocmd DocEnd\nautocmd DocEnd a.b\nautocontain\nautocontain -s\n" ++
    "autocontain -u\nautocontain -s a.b\nbind --mode=\nbind\nbind a\nunbind --mode=\nunbind\n" ++
    "command\ncommand a\nquickmark\nquickmark a\nset\nalias a b 1\nautocontain -s a.b c d\n" ++
    "unbind a b\nquickmark a ftp://ab c\nset a <"

/-- One text has all the complaints that are listed, in their order. -/
theorem complaints_complainingText :
    (parse complainingText).diagnostics.map (fun diagnostic => diagnostic.cause.complaint) =
      Complaint.reachable := by
  decide +kernel

/-- Scripts bring about the complaints that are listed and no others. None of them is about a
number or about a command on a line of its own that is not complete: a line that opens with
neither a quote mark nor a keyword and passes the look at its first word is a command. Whatever
is found for an event, a mode, a key or a single letter stands for one. -/
theorem arises_iff_reachable :
    (∀ complaint, (∃ text, ∃ diagnostic ∈ (parse text).diagnostics,
        diagnostic.cause.complaint = complaint) ↔ complaint ∈ Complaint.reachable) ∧
      (∀ text, ∀ diagnostic ∈ (parse text).diagnostics, ∀ statement expected found?,
        diagnostic.cause = .incomplete statement expected found? →
          expected ≠ .number ∧ statement ≠ .exCommand) ∧
      (∀ line : SourceLine, line.progress.accept .quoteMark = none →
        Reader.keyword? line.progress = none →
        Reader.opensWithCommand line.progress.cursor = true →
          (Reader.readLine line).2.kind = .exCommand) ∧
      ∀ cursor : Cursor, cursor.FindsTyped := by
  refine ⟨fun complaint => ⟨?_, fun hlisted => ?_⟩, ?_, ?_, Cursor.findsTyped⟩
  · intro ⟨text, diagnostic, hmem, hcomplaint⟩
    rw [← hcomplaint]
    exact complaint_diagnostics hmem
  · rw [← complaints_complainingText] at hlisted
    exact ⟨complainingText, List.mem_map.mp hlisted⟩
  · intro text diagnostic hmem statement expected found? hcause
    have hlisted := complaint_diagnostics hmem
    rw [hcause] at hlisted
    exact Complaint.not_reachable_incomplete hlisted
  · intro line hquote hkeyword hopens
    exact Reader.kind_of_opensWithCommand hquote hkeyword hopens

end Program

end RcScript
