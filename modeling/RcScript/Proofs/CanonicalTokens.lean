import RcScript.Proofs.CanonicalLine
import RcScript.Proofs.StatementTokens

/-!
# Canonical lines join the tokens

The canonical line of a statement is made of its node, and the tokens were taken from the
line as it was written. Both agree: the line is the texts of the tokens with single spaces
between them. The name of a mode stands directly behind its flag, and a token that takes
the rest of its line is the last and loses the white space at its end. Comments and
malformed lines are written as they were read, so nothing is said of these.
-/

namespace RcScript

open Text

/-- What stands between a token and the next on a canonical line: nothing between the flag of
a mode and the name of the mode, and a space anywhere else. -/
def gapBehind (kind : TokenKind) (text : String) (next : TokenKind) : String :=
  if kind = .flag ∧ text = "--mode=" ∧ next = .modeName then "" else " "

/-- Tokens on one canonical line. If the last takes the rest of a line, it is written less the
white space at its end. -/
def Token.joined : List Token → String
  | [] => ""
  | [last] =>
    if last.kind = .remainder then String.ofList (trimEnd isWhiteSpace last.text.toList)
    else last.text
  | token :: next :: later =>
    token.text ++ gapBehind token.kind token.text next.kind ++ joined (next :: later)

/-- What tokens show, put on one line as the tokens are. -/
def joinedPieces : List (TokenKind × String) → String
  | [] => ""
  | [last] => last.2
  | piece :: next :: later =>
    piece.2 ++ gapBehind piece.1 piece.2 next.1 ++ joinedPieces (next :: later)

/-- Only the last of some pieces may be the rest of a line. -/
def RestLast (pieces : List (TokenKind × String)) : Prop :=
  ∀ piece ∈ pieces.dropLast, piece.1 ≠ .remainder

/-- Where only the last token may take the rest of a line, tokens are joined as what they show. -/
theorem Token.joined_eq {tokens : List Token} (h : RestLast (tokens.map Token.piece)) :
    Token.joined tokens = joinedPieces (tokens.map Token.piece) := by
  induction tokens with
  | nil => rfl
  | cons token later ih =>
    cases later with
    | nil => rfl
    | cons next later =>
      have hkind : token.kind ≠ .remainder := h token.piece List.mem_cons_self
      have hlater := ih fun piece hmem => h piece (List.mem_cons_of_mem _ hmem)
      have hpiece := Token.piece_of_kind rfl hkind
      have hnext : next.piece.1 = next.kind := rfl
      rw [List.map_cons] at hlater
      rw [List.map_cons, List.map_cons, Token.joined, joinedPieces, hlater, hpiece, hnext]

/-- Apart from modes, pieces stand behind single spaces. -/
theorem joinedPieces_eq_spaced {first : TokenKind × String} {later : List (TokenKind × String)}
    (h : ∀ piece ∈ later, piece.1 ≠ .modeName) :
    joinedPieces (first :: later) = spaced ((first :: later).map Prod.snd) := by
  induction later generalizing first with
  | nil => exact (String.intercalate_singleton ..).symm
  | cons next later ih =>
    have hnext := h next List.mem_cons_self
    have hlater : joinedPieces (next :: later) = spaced ((next :: later).map Prod.snd) :=
      ih fun piece hmem => h piece (List.mem_cons_of_mem _ hmem)
    have hgap : gapBehind first.1 first.2 next.1 = " " := if_neg fun hmode => hnext hmode.2.2
    rw [joinedPieces, hgap, hlater, spaced, spaced, List.map_cons, List.map_cons, List.map_cons,
      String.intercalate_cons_cons]

/-- What two words without a gap spell stands in front of the others as one part. -/
theorem spaced_cons_append (first other : String) (parts : List String) :
    spaced ((first ++ other) :: parts) = first ++ spaced (other :: parts) := by
  cases parts with
  | nil => simp [spaced]
  | cons part parts => simp only [spaced, String.intercalate_cons_cons, String.append_assoc]

/-- The name of a mode joins its flag, and what follows stands behind single spaces. -/
theorem joinedPieces_modePieces (keyword : String) (mode? : Option Mode)
    {later : List (TokenKind × String)} (h : ∀ piece ∈ later, piece.1 ≠ .modeName) :
    joinedPieces ((.keyword, keyword) :: (modePieces mode? ++ later)) =
      spaced (keyword :: (modeParts mode? ++ later.map Prod.snd)) := by
  cases mode? with
  | none => exact joinedPieces_eq_spaced h
  | some mode =>
    have hname : joinedPieces ((.modeName, mode.name) :: later) =
        spaced (mode.name :: later.map Prod.snd) := joinedPieces_eq_spaced h
    have hgap : gapBehind .keyword keyword .flag = " " := if_neg (by simp)
    have hjoin : gapBehind .flag "--mode=" .modeName = "" := if_pos ⟨rfl, rfl, rfl⟩
    simp only [modePieces, modeParts, List.cons_append, List.nil_append, joinedPieces, hgap, hjoin,
      hname, String.append_empty]
    rw [← spaced_cons_append, spaced, spaced, String.intercalate_cons_cons]

/-- A command is written as its name and its arguments. -/
theorem spaced_command (first : String) (parts : List String) (command : ExCommand) :
    spaced (first :: (parts ++ [command.toText])) =
      spaced (first :: (parts ++ command.pieces.map Prod.snd)) := by
  obtain ⟨name, args⟩ := command
  cases args with
  | none => rfl
  | some args =>
    refine String.toList_inj.mp ?_
    have hpieces : (ExCommand.pieces ⟨name, some args⟩).map Prod.snd = [name, args] := rfl
    simp only [hpieces, toList_spaced, trail_append, trail_cons, trail_nil, List.append_nil,
      toList_toText_withArgs]

/-- The pieces of a command stand behind single spaces. -/
theorem ExCommand.toText_eq_spaced (command : ExCommand) :
    command.toText = spaced (command.pieces.map Prod.snd) := by
  obtain ⟨name, args⟩ := command
  cases args with
  | none => exact (String.intercalate_singleton ..).symm
  | some args => rfl

/-- A command names no mode, and what it takes of the rest of a line comes last. -/
theorem ExCommand.pieces_kinds (command : ExCommand) :
    (∀ piece ∈ command.pieces, piece.1 ≠ .modeName) ∧ RestLast command.pieces := by
  obtain ⟨name, args⟩ := command
  cases args <;> simp [pieces, RestLast]

/-- An action is written, and spelled by tokens, as a command is. -/
theorem Action.exists_command (action : Action) : ∃ command : ExCommand,
    action.toText = command.toText ∧ action.pieces = command.pieces := by
  cases action with
  | exCommand command => exact ⟨command, rfl, rfl⟩
  | aliasName name => exact ⟨⟨name, none⟩, rfl, rfl⟩

/-- A key is no name of a mode and no rest of a line. -/
theorem Key.piece_kinds (key : Key) : key.piece.1 ≠ .modeName ∧ key.piece.1 ≠ .remainder := by
  cases key <;> simp [piece]

/-- The value of a setting is no name of a mode and no rest of a line. -/
theorem SettingValue.piece_kinds (value : SettingValue) :
    (Grammar.ofValue value).1 ≠ .modeName ∧ (Grammar.ofValue value).1 ≠ .remainder := by
  cases value <;> simp [Grammar.ofValue]

/-- Pieces of which only the last may be the rest of a line may have others before them. -/
theorem RestLast.append {back : List (TokenKind × String)} (h : RestLast back)
    (front : List (TokenKind × String)) (hfront : ∀ piece ∈ front, piece.1 ≠ .remainder) :
    RestLast (front ++ back) := by
  intro piece hmem
  cases back with
  | nil =>
    rw [List.append_nil] at hmem
    exact hfront piece (List.dropLast_subset _ hmem)
  | cons first later =>
    rw [List.dropLast_append_of_ne_nil (by simp)] at hmem
    rcases List.mem_append.mp hmem with hmem | hmem
    · exact hfront piece hmem
    · exact h piece hmem

/-- Where no piece is the rest of a line, none stands too early. -/
theorem restLast_of_forall {pieces : List (TokenKind × String)}
    (h : ∀ piece ∈ pieces, piece.1 ≠ .remainder) : RestLast pieces :=
  fun piece hmem => h piece (List.dropLast_subset _ hmem)

/-- A keyword, a mode and a key do not take the rest of a line. -/
theorem ne_remainder_of_mem_keyPieces {keyword : String} {mode? : Option Mode} {key : Key} :
    ∀ piece ∈ (TokenKind.keyword, keyword) :: (modePieces mode? ++ [key.piece]),
      piece.1 ≠ .remainder := by
  have hkey := key.piece_kinds.2
  cases mode? <;> simp [modePieces, hkey]

/-- Of what a node shows, only the last piece may be the rest of a line. -/
theorem Node.restLast_pieces (node : Node) : RestLast node.pieces := by
  cases node with
  | aliasDef name expansion => exact restLast_of_forall (by simp [pieces])
  | autocmd event pattern action =>
    obtain ⟨command, -, hpieces⟩ := action.exists_command
    rw [pieces, hpieces]
    exact command.pieces_kinds.2.append [_, _, _] (by simp)
  | autocontain flag pattern container =>
    refine restLast_of_forall ?_
    cases flag <;> simp [pieces, Grammar.patternOf, Pattern.tokenKind]
  | binding mode? key command =>
    have hpieces : (binding mode? key command).pieces =
        ((.keyword, "bind") :: (modePieces mode? ++ [key.piece])) ++ command.pieces := by
      simp [pieces]
    rw [hpieces]
    exact command.pieces_kinds.2.append _ ne_remainder_of_mem_keyPieces
  | unbinding mode? key => exact restLast_of_forall ne_remainder_of_mem_keyPieces
  | commandDef name command => exact command.pieces_kinds.2.append [_, _] (by simp)
  | exCommand command => exact command.pieces_kinds.2
  | quickmark key url => exact restLast_of_forall (by simp [pieces, Key.piece])
  | setting name values =>
    refine restLast_of_forall ?_
    simpa [pieces] using fun value _ => SettingValue.piece_kinds value |>.2
  | comment | blank | malformed => exact restLast_of_forall (by simp [pieces])

/-- A canonical line is what its node shows, put on one line. -/
theorem Node.toText_eq_joinedPieces {node : Node} (hcomment : node.kind ≠ .comment)
    (hmalformed : node.kind ≠ .malformed) : node.toText = joinedPieces node.pieces := by
  cases node with
  | aliasDef name expansion =>
    rw [pieces, joinedPieces_eq_spaced (by simp)]
    simp [toText, Function.comp_def]
  | autocmd event pattern action =>
    obtain ⟨command, htext, hpieces⟩ := action.exists_command
    have hmode := command.pieces_kinds.1
    rw [pieces, hpieces, joinedPieces_eq_spaced (by simpa using hmode), toText, htext]
    exact spaced_command "autocmd" [event.name, pattern] command
  | autocontain flag pattern container =>
    have hmode : (Grammar.patternOf flag).tokenKind ≠ .modeName := by
      cases flag <;> decide
    rw [pieces, joinedPieces_eq_spaced (by simpa using hmode)]
    rfl
  | binding mode? key command =>
    have hmode : ∀ piece ∈ key.piece :: command.pieces, piece.1 ≠ .modeName :=
      List.forall_mem_cons.mpr ⟨key.piece_kinds.1, command.pieces_kinds.1⟩
    have hkey : key.piece.2 = key.toText := by cases key <;> rfl
    rw [pieces, joinedPieces_modePieces "bind" mode? hmode, List.map_cons, hkey, toText]
    have hcommand := spaced_command "bind" (modeParts mode? ++ [key.toText]) command
    simpa using hcommand
  | unbinding mode? key =>
    have hmode : ∀ piece ∈ [key.piece], piece.1 ≠ .modeName :=
      List.forall_mem_singleton.mpr key.piece_kinds.1
    have hkey : key.piece.2 = key.toText := by cases key <;> rfl
    rw [pieces, joinedPieces_modePieces "unbind" mode? hmode, List.map_singleton, hkey]
    rfl
  | commandDef name command =>
    have hmode := command.pieces_kinds.1
    rw [pieces, joinedPieces_eq_spaced (by simpa using hmode), toText]
    exact spaced_command "command" [name] command
  | exCommand command =>
    rw [pieces, toText, command.toText_eq_spaced]
    refine (joinedPieces_eq_spaced ?_).symm
    exact fun piece hmem => command.pieces_kinds.1 piece (List.mem_cons_of_mem _ hmem)
  | quickmark key url =>
    rw [pieces, joinedPieces_eq_spaced (by simp [Key.piece])]
    rfl
  | setting name values =>
    have hmode := fun value (_ : value ∈ values) => (SettingValue.piece_kinds value).1
    have hvalues : ∀ value : SettingValue, (Grammar.ofValue value).2 = value.text := by
      intro value
      cases value <;> rfl
    rw [pieces, joinedPieces_eq_spaced (by simpa using hmode)]
    simp [toText, Function.comp_def, hvalues]
  | blank => rfl
  | comment => exact absurd rfl hcomment
  | malformed => exact absurd rfl hmalformed

namespace Program

/-- A canonical text is what is written for the statements before a place, at it and behind it. -/
theorem format_eq_append {program : Program} {index : Nat} {statement : Statement}
    (h : program.statements[index]? = some statement) :
    program.format = format ⟨program.statements.take index⟩ ++ (statement.node.toText ++ "\n") ++
      format ⟨program.statements.drop (index + 1)⟩ := by
  obtain ⟨hlt, hget⟩ := List.getElem?_eq_some_iff.mp h
  have hsplit := List.take_append_drop index program.statements
  rw [List.drop_eq_getElem_cons hlt, hget] at hsplit
  rw [format, ← hsplit, List.map_append, List.map_cons, String.join_append, String.join_cons,
    ← String.append_assoc, hsplit]
  rfl

/-- The canonical text of a program has, for every statement that is neither a comment nor
malformed, the tokens of the statement on one line. -/
theorem format_joins_tokens {text : String} {index : Nat} {statement : Statement}
    (h : (parse text).statements[index]? = some statement)
    (hcomment : statement.node.kind ≠ .comment) (hmalformed : statement.node.kind ≠ .malformed) :
    statement.node.toText = Token.joined statement.tokens ∧
      (parse text).format = format ⟨(parse text).statements.take index⟩ ++
        (Token.joined statement.tokens ++ "\n") ++
          format ⟨(parse text).statements.drop (index + 1)⟩ := by
  have hpieces := pieces_statements (List.mem_of_getElem? h) hcomment hmalformed
  have hrest : RestLast (statement.tokens.map Token.piece) := by
    rw [hpieces]
    exact statement.node.restLast_pieces
  have hline : statement.node.toText = Token.joined statement.tokens := by
    rw [Token.joined_eq hrest, hpieces, Node.toText_eq_joinedPieces hcomment hmalformed]
  refine ⟨hline, ?_⟩
  rw [← hline]
  exact format_eq_append h

/-- A binding with a mode and with arguments that end in white space, behind a setting. -/
def modedText : String := "set x\nbind  --mode=hint\t<C-j>  echo  a  b\u00A0\r\r\n"

/-- The tokens of the binding of `modedText` make up the canonical line. -/
theorem format_joins_tokens_modedText :
    ∃ statement, (parse modedText).statements[1]? = some statement ∧
      statement.node.kind ≠ .comment ∧ statement.node.kind ≠ .malformed ∧
      statement.node.toText = Token.joined statement.tokens ∧
        (parse modedText).format = format ⟨(parse modedText).statements.take 1⟩ ++
          (Token.joined statement.tokens ++ "\n") ++
            format ⟨(parse modedText).statements.drop 2⟩ :=
  have hstatement : (parse modedText).statements[1]? =
      some ⟨⟨6, 46, 2, 1⟩, [⟨.keyword, "bind", ⟨6, 10, 2, 1⟩⟩, ⟨.flag, "--mode=", ⟨12, 19, 2, 7⟩⟩,
          ⟨.modeName, "hint", ⟨19, 23, 2, 14⟩⟩, ⟨.compoundKey, "<C-j>", ⟨24, 29, 2, 19⟩⟩,
          ⟨.identifier, "echo", ⟨31, 35, 2, 26⟩⟩,
          ⟨.remainder, "a  b\u00A0\r", ⟨37, 44, 2, 32⟩⟩],
        .binding (some .hint) (.compound 'C' 'j') ⟨"echo", some "a  b"⟩⟩ := by
    decide +kernel
  ⟨_, hstatement, by decide, by decide, format_joins_tokens hstatement (by decide) (by decide)⟩

/-- The mode stands directly behind its flag, and the arguments lose their last white space. -/
example : Token.joined [⟨.keyword, "bind", ⟨6, 10, 2, 1⟩⟩, ⟨.flag, "--mode=", ⟨12, 19, 2, 7⟩⟩,
    ⟨.modeName, "hint", ⟨19, 23, 2, 14⟩⟩, ⟨.compoundKey, "<C-j>", ⟨24, 29, 2, 19⟩⟩,
    ⟨.identifier, "echo", ⟨31, 35, 2, 26⟩⟩, ⟨.remainder, "a  b\u00A0\r", ⟨37, 44, 2, 32⟩⟩] =
    "bind --mode=hint <C-j> echo a  b" := by decide +kernel

end Program

end RcScript
