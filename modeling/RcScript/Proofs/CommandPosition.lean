import RcScript.Proofs.GrammarRealization

/-!
# Names in command position

The name of a command is a listed command or an identifier, and it stands alone. It is
looked for as the longest that the text starts with, and whether it stands alone is asked
once, of that one. It is found exactly where the whole word up to the next blank is a
name: every name is free of blanks, so that none reaches past the word, and none that is
shorter stands alone. The second look, which compares the name with the structural tokens
there, refuses none, since no token of any pattern reaches past a name either. What the
line means where a name is found is not treated here.
-/

namespace RcScript

open Text

/-- A text without blanks up to the end of a field is its first word. -/
theorem firstWord_append {w rest : List Char} (hw : ∀ c ∈ w, isBlank c = false)
    (hend : FieldEnd rest) : firstWord (w ++ rest) = w := by
  have hvisible : ∀ c ∈ w, (!isBlank c) = true := fun c hc => by rw [hw c hc, Bool.not_false]
  rw [firstWord, List.takeWhile_append_of_pos hvisible]
  cases rest with
  | nil => simp
  | cons c later => simp [fieldEnd_cons.mp hend]

/-- A text is its first word and what may follow a field. -/
theorem exists_firstWord (cs : List Char) :
    ∃ rest, cs = firstWord cs ++ rest ∧ (∀ c ∈ firstWord cs, isBlank c = false) ∧ FieldEnd rest := by
  refine ⟨cs.dropWhile fun c => !isBlank c, List.takeWhile_append_dropWhile.symm, ?_, ?_⟩
  · intro c hc
    simpa using List.all_eq_true.mp List.all_takeWhile c hc
  · intro c hc
    have hhead := List.head?_dropWhile_not (fun c => !isBlank c) cs
    rw [hc] at hhead
    simpa using hhead

/-- What is recognised as the name of a command is the first word, if that is one. -/
theorem Recogniser.commandName_eq_some {cs : List Char} {lexeme : Lexeme} :
    commandName cs = some lexeme ↔
      lexeme = ⟨.identifier, (firstWord cs).length⟩ ∧
        CommandName (String.ofList (firstWord cs)) := by
  constructor
  · intro h
    obtain ⟨w, rest, rfl, hcount, ⟨hkind, hname⟩, hend⟩ := recognises_commandName.exists_word h
    have hword := isWord_of_commandName hname
    rw [String.toList_ofList] at hword
    rw [firstWord_append hword.isBlank_of_mem hend, ← hkind, ← hcount]
    exact ⟨rfl, hname⟩
  · rintro ⟨rfl, hname⟩
    obtain ⟨rest, hcs, -, hend⟩ := exists_firstWord cs
    have hfound := recognises_commandName.answers.mpr ⟨⟨rfl, hname⟩, hend⟩
    rwa [← hcs] at hfound

namespace Cursor

/-- The token of an answer is the recognised part of what is next. -/
theorem exists_lexeme_of_answer {cursor : Cursor} {request : Request} {token : Token}
    (h : (cursor.answer request).1 = some token) :
    ∃ lexeme, request.recogniser (cursor.ready request) (cursor.ready request).rest =
      some lexeme ∧ token = (cursor.ready request).token lexeme := by
  rw [Progress.answer_fst ⟨cursor, []⟩, Progress.accept_eq, Option.map_map,
    Option.map_eq_some_iff] at h
  obtain ⟨lexeme, hlexeme, rfl⟩ := h
  exact ⟨lexeme, hlexeme, rfl⟩

/-- A token is as long as what it was recognised from. -/
theorem token_length (cursor : Cursor) (lexeme : Lexeme) :
    (cursor.token lexeme).span.length = utf8Length (cursor.rest.take lexeme.count) :=
  Nat.add_sub_cancel_left _ _

/-- The name of a command is found where the first word is one. -/
theorem isSome_answer_commandName (cursor : Cursor) :
    (cursor.answer .commandName).1.isSome = true ↔
      CommandName (String.ofList (firstWord cursor.unread)) := by
  have hrecognised : (cursor.answer .commandName).1.isSome =
      (Recogniser.commandName cursor.unread).isSome := by
    rw [Progress.answer_fst ⟨cursor, []⟩, Progress.accept_eq, Option.map_map, Option.isSome_map]
    rfl
  rw [hrecognised, Option.isSome_iff_exists]
  simp only [Recogniser.commandName_eq_some, exists_eq_left]

/-- The name that is found is the whole of the first word. -/
theorem token_commandName {cursor : Cursor} {token : Token}
    (h : (cursor.answer .commandName).1 = some token) :
    token = cursor.skipBlanks.token ⟨.identifier, (firstWord cursor.unread).length⟩ ∧
      token.text = String.ofList (firstWord cursor.unread) := by
  obtain ⟨lexeme, hlexeme, rfl⟩ := exists_lexeme_of_answer h
  obtain ⟨rfl, -⟩ := Recogniser.commandName_eq_some.mp hlexeme
  exact ⟨rfl, congrArg String.ofList (take_runLength _ cursor.unread)⟩

end Cursor

namespace Reader

/-- No token of any pattern is longer than the name of a command that is there. -/
theorem foundLength_le {cursor : Cursor} {name : Token}
    (h : (cursor.answer .commandName).1 = some name) :
    foundLength cursor (.structural Pattern.priority) ≤ name.span.length := by
  rw [foundLength]
  cases hother : (cursor.answer (.structural Pattern.priority)).1 with
  | none => exact Nat.zero_le _
  | some other =>
    obtain ⟨word, hword, rfl⟩ := Cursor.exists_lexeme_of_answer h
    obtain ⟨lexeme, hlexeme, rfl⟩ := Cursor.exists_lexeme_of_answer hother
    obtain ⟨⟨pattern, count⟩, hlongest, rfl⟩ := Option.map_eq_some_iff.mp hlexeme
    obtain ⟨-, hcount⟩ := Pattern.matchCount_of_longest hlongest
    obtain ⟨v, after, hv, rfl, hlang⟩ := Pattern.exists_lang_of_matchCount hcount
    obtain ⟨w, rest, hw, hcount', ⟨-, hname⟩, hend⟩ :=
      Recogniser.recognises_commandName.exists_word hword
    have hchars := (Recogniser.isWord_of_commandName hname).2
    rw [String.toList_ofList] at hchars
    obtain ⟨middle, rfl⟩ := Pattern.length_le_of_lang hlang (hv.symm.trans hw) hchars hend
    rw [Option.map_some, Option.getD_some, Cursor.token_length, Cursor.token_length, hv, hw,
      hcount', List.take_left, List.take_left, utf8Length_append]
    exact Nat.le_add_right _ _

/-- The second look at the name of a command refuses none. -/
theorem opensWithCommand_eq_isSome (cursor : Cursor) :
    opensWithCommand cursor = (cursor.answer .commandName).1.isSome := by
  rw [opensWithCommand]
  cases hname : (cursor.answer .commandName).1 with
  | none => rfl
  | some name => simp only [Option.any_some, foundLength_le hname, decide_true, Option.isSome_some]

end Reader

/-- A command is read where its name is there. -/
theorem Grammar.exists_exCommand_iff {progress : Progress} :
    (∃ command later, exCommand progress = (.ok command, later)) ↔
      (progress.accept .commandName).isSome = true := by
  simp only [exCommand, Bind.bind, Reading.need_eq]
  cases haccept : progress.accept .commandName with
  | none => simp
  | some taken =>
    obtain ⟨name, middle⟩ := taken
    simp only [Reading.optional, Option.isSome_some, iff_true]
    cases middle.accept .remainder with
    | none => exact ⟨_, _, rfl⟩
    | some taken => exact ⟨_, _, rfl⟩

/-- The name of a command is found behind the blanks exactly where the whole word there is a
listed command or an identifier, and then it is all of the word. Where it is found, the second
look at the line passes, and only there, and the command is read. -/
theorem Cursor.names_whole_word (cursor : Cursor) :
    ((cursor.answer .commandName).1.isSome = true ↔
        CommandName (String.ofList (firstWord cursor.unread))) ∧
      (∀ token, (cursor.answer .commandName).1 = some token →
        token.text = String.ofList (firstWord cursor.unread) ∧
          token.span.start = cursor.skipBlanks.position) ∧
      (Reader.opensWithCommand cursor = true ↔ (cursor.answer .commandName).1.isSome = true) ∧
      ∀ taken, (∃ command later, Grammar.exCommand ⟨cursor, taken⟩ = (.ok command, later)) ↔
        Reader.opensWithCommand cursor = true := by
  refine ⟨cursor.isSome_answer_commandName, ?_, ?_, ?_⟩
  · intro token htoken
    obtain ⟨rfl, htext⟩ := token_commandName htoken
    exact ⟨htext, rfl⟩
  · rw [Reader.opensWithCommand_eq_isSome]
  · intro taken
    rw [Grammar.exists_exCommand_iff, Reader.opensWithCommand_eq_isSome,
      Progress.answer_fst ⟨cursor, taken⟩, Option.isSome_map]

end RcScript
