import RcScript.Proofs.ReadingRun

/-!
# Tokens spell their statement

The tokens of a statement are its keyword and what its node is made of, in the order in
which that is written. Each part of a grammar relates its value to the tokens that it
takes, and sequencing puts these relations one behind the other. The rest of a line is
compared less the white space at its end, which the arguments of a command do not keep.
Comments are left out, and so are the tokens before the fault of a malformed line.
-/

namespace RcScript

open Text

/-- What a token shows: its kind and its text, less white space at the end of a line. -/
def Token.piece (token : Token) : TokenKind × String :=
  (token.kind, if token.kind = .remainder then
    String.ofList (trimEnd isWhiteSpace token.text.toList) else token.text)

/-- A token that is not the rest of a line shows its text as it stands. -/
theorem Token.piece_of_kind {token : Token} {kind : TokenKind} (hkind : token.kind = kind)
    (hother : kind ≠ .remainder) : token.piece = (kind, token.text) := by
  rw [piece, hkind, if_neg hother]

/-- A token of one fixed word shows that word. -/
theorem Token.piece_of_oneWord {token : Token} {kind : TokenKind} {text : String}
    (h : OneWord kind text.toList token.kind token.text.toList) (hother : kind ≠ .remainder) :
    token.piece = (kind, text) := by
  rw [piece_of_kind h.1 hother, String.toList_inj.mp h.2]

/-- The kinds of words are not that of the rest of a line. -/
theorem Token.piece_of_word {token : Token} {allowed : List Pattern}
    (h : PatternWord allowed token.kind token.text.toList) :
    token.piece = (token.kind, token.text) := by
  obtain ⟨pattern, -, hkind, -⟩ := h
  refine piece_of_kind rfl ?_
  rw [hkind]
  cases pattern <;> decide

/-- The name of a command and its arguments, if there are any. -/
def ExCommand.pieces (command : ExCommand) : List (TokenKind × String) :=
  (.identifier, command.name) :: (command.args.map fun args => (TokenKind.remainder, args)).toList

/-- The command that an action runs, or the name of an alias. -/
def Action.pieces : Action → List (TokenKind × String)
  | exCommand command => command.pieces
  | aliasName name => [(.identifier, name)]

/-- A key in its notation. -/
def Key.piece (key : Key) : TokenKind × String :=
  match key with
  | single _ => (.singleKey, key.toText)
  | compound _ _ => (.compoundKey, key.toText)

/-- The flag and the name of a mode, if there is one. -/
def modePieces : Option Mode → List (TokenKind × String)
  | none => []
  | some mode => [(.flag, "--mode="), (.modeName, mode.name)]

/-- What the tokens of a node show, if it is no comment and not malformed. -/
def Node.pieces : Node → List (TokenKind × String)
  | aliasDef name expansion =>
    (.keyword, "alias") :: (.identifier, name) :: expansion.map fun text => (.identifier, text)
  | autocmd event pattern action =>
    (.keyword, "autocmd") :: (.eventName, event.name) :: (.domain, pattern) :: action.pieces
  | autocontain flag pattern container =>
    [(.keyword, "autocontain"), (.flag, flag.text),
      ((Grammar.patternOf flag).tokenKind, pattern), (.identifier, container)]
  | binding mode key command =>
    (.keyword, "bind") :: (modePieces mode ++ key.piece :: command.pieces)
  | unbinding mode key => (.keyword, "unbind") :: (modePieces mode ++ [key.piece])
  | commandDef name command => (.keyword, "command") :: (.identifier, name) :: command.pieces
  | exCommand command => command.pieces
  | quickmark key url =>
    [(.keyword, "quickmark"), (Key.single key).piece, (.url, url)]
  | setting name values =>
    (.keyword, "set") :: (.identifier, name) :: values.map Grammar.ofValue
  | comment _ | blank | malformed _ _ => []

/-- A request takes only tokens with words of `Word`. -/
def Request.Gives (request : Request) (Word : TokenKind → List Char → Prop) : Prop :=
  ∀ (progress : Progress) (token : Token) (later : Progress),
    progress.accept request = some (token, later) → Word token.kind token.text.toList

namespace Request

variable {request : Request} {Word : TokenKind → List Char → Prop}

/-- A request takes what its recogniser finds. -/
theorem gives_of_recogniser (h : ∀ (cursor : Cursor) (cs : List Char) (lexeme : Lexeme),
    request.recogniser cursor cs = some lexeme → Word lexeme.kind (cs.take lexeme.count)) :
    request.Gives Word := by
  intro progress token later haccept
  rw [Progress.accept_eq, Option.map_eq_some_iff] at haccept
  obtain ⟨lexeme, hlexeme, he⟩ := haccept
  obtain ⟨rfl, -⟩ := Prod.mk.inj he
  simp only [Cursor.token, String.toList_ofList]
  exact h _ _ lexeme hlexeme

/-- A request whose recogniser finds the words of `Word` takes tokens of `Word` only. -/
theorem gives_of_recognises (h : ∀ cursor, Recognises (request.recogniser cursor) Word) :
    request.Gives Word := by
  refine gives_of_recogniser fun cursor cs lexeme hlexeme => ?_
  obtain ⟨w, rest, rfl, hcount, hword, -⟩ := (h cursor).exists_word hlexeme
  rw [hcount, List.take_left]
  exact hword

/-- A request that knows its words takes no token with another word. -/
theorem Knows.gives (h : request.Knows Word) : request.Gives Word :=
  gives_of_recognises h.2

/-- A name of a mode is taken as one of the names of the eight modes. -/
theorem gives_modeName : modeName.Gives (NamedWord .modeName (Mode.all.map Mode.name)) :=
  gives_of_recognises fun _ => Recogniser.recognises_modeName

/-- The flag in front of a mode is taken as it is written, without the name behind it. -/
theorem gives_modeMark : (flag "--mode=").Gives (OneWord .flag Grammar.modeMark) := by
  refine gives_of_recogniser fun cursor cs lexeme hlexeme => ?_
  simp only [recogniser, Recogniser.flag] at hlexeme
  split at hlexeme
  · next hmark =>
    rw [Bool.and_eq_true, List.isPrefixOf_iff_prefix] at hmark
    obtain ⟨rest, rfl⟩ := hmark.1
    rw [← Option.some.inj hlexeme, List.take_left]
    exact ⟨rfl, rfl⟩
  · simp at hlexeme

/-- What is taken as the rest of a line has the kind of the rest of a line, whatever its text. -/
theorem gives_remainder : remainder.Gives fun kind _ => kind = .remainder := by
  refine gives_of_recogniser fun cursor cs lexeme hlexeme => ?_
  simp only [recogniser, Recogniser.remainder] at hlexeme
  split at hlexeme
  · simp at hlexeme
  · rw [← Option.some.inj hlexeme]

end Request

/-- A reading that succeeds takes tokens that its value is shown by. -/
def Reading.Takes (reading : Reading α) (Shown : α → List Token → Prop) : Prop :=
  ∀ progress value later, reading progress = (.ok value, later) →
    ∃ taken, later.tokens = progress.tokens ++ taken ∧ Shown value taken

namespace Reading

variable {request : Request} {Word : TokenKind → List Char → Prop}

/-- A value that is there already takes no token. -/
theorem takes_pure (value : α) :
    Takes (pure value) fun found taken => found = value ∧ taken = [] := by
  intro progress found later hread
  obtain ⟨hvalue, rfl⟩ := Prod.mk.inj hread
  exact ⟨[], (List.append_nil _).symm, (Except.ok.inj hvalue).symm, rfl⟩

/-- Readings in sequence take their tokens in sequence. -/
theorem Takes.bind {reading : Reading α} {next : α → Reading β} {First : α → List Token → Prop}
    {Next : α → β → List Token → Prop} (h : Takes reading First)
    (hn : ∀ value, Takes (next value) (Next value)) :
    Takes (reading >>= next) fun found taken => ∃ value front back,
      taken = front ++ back ∧ First value front ∧ Next value found back := by
  intro progress found later hread
  simp only [Bind.bind] at hread
  split at hread
  · next value middle hfirst =>
    obtain ⟨front, hfront, hshown⟩ := h progress value middle hfirst
    obtain ⟨back, hback, hfound⟩ := hn value middle found later hread
    refine ⟨front ++ back, ?_, value, front, back, rfl, hshown, hfound⟩
    rw [hback, hfront, List.append_assoc]
  · simp at hread

/-- What the taken tokens are known to show can be weakened. -/
theorem Takes.imp {reading : Reading α} {First Second : α → List Token → Prop}
    (h : Takes reading First) (himp : ∀ value taken, First value taken → Second value taken) :
    Takes reading Second := by
  intro progress value later hread
  obtain ⟨taken, htokens, hshown⟩ := h progress value later hread
  exact ⟨taken, htokens, himp value taken hshown⟩

/-- A fault takes no token, since it gives no value. -/
theorem takes_missing (expected : Expected) :
    Takes (missing expected : Reading α) fun _ _ => False := by
  intro progress value later hread
  simp [missing] at hread

/-- A value that is asked for takes no token, and it is the one that was there. -/
theorem takes_require (expected : Expected) (value? : Option α) :
    Takes (require expected value?) fun value taken => value? = some value ∧ taken = [] := by
  cases value? with
  | none => exact (takes_missing expected).imp fun _ _ h => h.elim
  | some value => exact (takes_pure value).imp fun _ _ h => ⟨congrArg some h.1.symm, h.2⟩

/-- The end of the statement takes no token. -/
theorem takes_finish : Takes finish fun _ taken => taken = [] := by
  intro progress value later hread
  simp only [finish] at hread
  split at hread
  · obtain ⟨-, rfl⟩ := Prod.mk.inj hread
    exact ⟨[], (List.append_nil _).symm, rfl⟩
  · simp at hread

/-- What may stand next takes one token or none, and a token that it takes has a word of `Word`. -/
theorem takes_optional (h : request.Gives Word) :
    Takes (optional request) fun token? taken =>
      taken = token?.toList ∧ ∀ token ∈ token?, Word token.kind token.text.toList := by
  intro progress token? later hread
  simp only [optional] at hread
  split at hread
  · next token next haccept =>
    obtain ⟨hfound, rfl⟩ := Prod.mk.inj hread
    obtain rfl := Except.ok.inj hfound
    refine ⟨[token], Progress.tokens_of_accept haccept, rfl, ?_⟩
    rintro _ ⟨⟩
    exact h progress token next haccept
  · obtain ⟨hfound, rfl⟩ := Prod.mk.inj hread
    obtain rfl := Except.ok.inj hfound
    exact ⟨[], (List.append_nil _).symm, rfl, by simp⟩

/-- What must stand next takes one token, whose text is the value. -/
theorem takes_need (expected : Expected) (h : request.Gives Word) :
    Takes (need expected request) fun text taken =>
      ∃ token, taken = [token] ∧ token.text = text ∧ Word token.kind text.toList := by
  refine ((takes_optional h).bind fun token? => (takes_require expected token?).bind fun token =>
    takes_pure token.text).imp ?_
  rintro text taken ⟨_, _, _, rfl, ⟨rfl, hword⟩, token, _, _, rfl, ⟨rfl, rfl⟩, rfl, rfl⟩
  exact ⟨token, rfl, rfl, hword token rfl⟩

/-- A run of words takes its tokens in their order, each with a word of `Word`. -/
theorem takes_many (h : request.Gives Word) :
    Takes (many request) fun tokens taken =>
      taken = tokens ∧ ∀ token ∈ tokens, Word token.kind token.text.toList := by
  intro progress tokens later hread
  simp only [many, Progress.acceptAll] at hread
  generalize progress.cursor.rest.length = limit at hread
  obtain ⟨hfound, hlater⟩ := Prod.mk.inj hread
  obtain rfl := Except.ok.inj hfound
  refine ⟨_, ?_, rfl, ?_⟩
  all_goals clear hread hfound
  · subst hlater
    induction limit generalizing progress with
    | zero => exact (List.append_nil _).symm
    | succ limit ih =>
      cases haccept : progress.accept request with
      | none => simp only [Progress.acceptUpTo, haccept, List.append_nil]
      | some found =>
        simp only [Progress.acceptUpTo, haccept]
        rw [ih, Progress.tokens_of_accept haccept, List.append_assoc, List.singleton_append]
  · clear hlater
    induction limit generalizing progress with
    | zero => simp [Progress.acceptUpTo]
    | succ limit ih =>
      cases haccept : progress.accept request with
      | none => simp [Progress.acceptUpTo, haccept]
      | some found =>
        simp only [Progress.acceptUpTo, haccept, List.forall_mem_cons]
        exact ⟨h progress found.1 found.2 haccept, ih found.2⟩

/-- A word shows its pattern and its text. -/
theorem takes_word (expected : Expected) (pattern : Pattern) :
    Takes (word expected pattern) fun text taken =>
      taken.map Token.piece = [(pattern.tokenKind, text)] := by
  have hknows := Request.knows_wholeWord (Recogniser.apart_singleton pattern)
  refine (takes_need expected hknows.gives).imp ?_
  rintro text taken ⟨token, rfl, rfl, hword⟩
  have hpiece := Token.piece_of_word hword
  obtain ⟨found, hmem, hkind, -⟩ := hword
  obtain rfl := List.mem_singleton.mp hmem
  rw [List.map_singleton, hpiece, hkind]

end Reading

namespace Grammar

open Reading

/-- A command takes its name and, where there are any, its arguments. -/
theorem takes_exCommand :
    Takes exCommand fun command taken => taken.map Token.piece = command.pieces := by
  refine ((takes_need _ Request.knows_commandName.gives).bind fun _ =>
    (takes_optional Request.gives_remainder).bind fun _ => takes_pure _).imp ?_
  rintro command taken ⟨_, _, _, rfl, ⟨token, rfl, rfl, hkind, -⟩, args?, _, _, rfl,
    ⟨rfl, hargs⟩, rfl, rfl⟩
  have hname := Token.piece_of_kind hkind (by decide)
  cases args? with
  | none => simp [ExCommand.pieces, hname]
  | some args =>
    have hrest : args.piece = (.remainder,
        String.ofList (trimEnd isWhiteSpace args.text.toList)) := by
      rw [Token.piece, if_pos (hargs args rfl), hargs args rfl]
    simp [ExCommand.pieces, hname, hrest]

/-- The name behind the flag of a mode takes one token, which is spelt as the mode is. -/
theorem takes_modeName :
    Takes (do
      let name ← need .mode .modeName
      return some (← require .mode (Mode.ofName? name)))
    fun mode? taken => ∃ mode, mode? = some mode ∧
      taken.map Token.piece = [(TokenKind.modeName, mode.name)] := by
  refine ((takes_need .mode Request.gives_modeName).bind fun name =>
    (takes_require .mode (Mode.ofName? name)).bind fun mode => takes_pure (some mode)).imp ?_
  rintro mode? taken ⟨_, _, _, rfl, ⟨token, rfl, rfl, hkind, -⟩, mode, _, _, rfl,
    ⟨hmode, rfl⟩, rfl, rfl⟩
  rw [ofName?_mode] at hmode
  exact ⟨mode, rfl, by simp [Token.piece_of_kind hkind (by decide), hmode]⟩

/-- The mode of a binding takes its flag with its name, or nothing. -/
theorem takes_mode : Takes mode fun mode? taken => taken.map Token.piece = modePieces mode? := by
  refine ((takes_optional Request.gives_modeMark).bind
    (?_ : ∀ mark? : Option Token, Takes _ fun mode? taken =>
      mark?.toList.map (fun _ => (TokenKind.flag, "--mode=")) ++ taken.map Token.piece =
        modePieces mode?)).imp ?_
  · rintro (_ | mark)
    · refine (takes_pure none).imp ?_
      rintro mode? taken ⟨rfl, rfl⟩
      rfl
    · refine takes_modeName.imp ?_
      rintro mode? taken ⟨mode, rfl, hname⟩
      simp [modePieces, hname]
  · rintro mode? taken ⟨mark?, _, back, rfl, ⟨rfl, hmark⟩, hback⟩
    rw [List.map_append, ← hback, List.append_left_inj, List.map_inj_left]
    intro mark hmem
    exact Token.piece_of_oneWord (hmark mark (Option.mem_toList.mp hmem)) (by decide)

/-- A key takes one token, of the kind and with the text of its notation. The notations of the two
kinds of keys differ in length, so that the text decides the kind. -/
theorem takes_key : Takes key fun key taken => taken.map Token.piece = [key.piece] := by
  have hknows := Request.knows_wholeWord Recogniser.apart_keys
  refine ((takes_need .key hknows.gives).bind fun text =>
    takes_require .key (Key.ofText? text)).imp ?_
  rintro key taken ⟨_, _, _, rfl, ⟨token, rfl, rfl, hword⟩, hkey, rfl⟩
  have hpiece := Token.piece_of_word hword
  obtain ⟨pattern, hmem, hkind, hlang⟩ := hword
  obtain ⟨htext, -⟩ := ofText?_key.mp hkey
  rw [List.append_nil, List.map_singleton, hpiece, hkind, htext]
  rw [htext] at hlang
  simp only [List.mem_cons, List.not_mem_nil, or_false] at hmem
  rcases hmem with rfl | rfl
  · obtain ⟨m, k, -, -, he⟩ := hlang
    cases key with
    | single => simp [Key.toText] at he
    | compound => rfl
  · obtain ⟨k, -, he⟩ := hlang
    cases key with
    | single => rfl
    | compound => simp [Key.toText] at he

/-- What a container rule shows of its flag and of its pattern. -/
def containPieces (shown : ContainFlag × String) : List (TokenKind × String) :=
  [(.flag, shown.1.text), ((patternOf shown.1).tokenKind, shown.2)]

/-- A flag is taken with the pattern that it asks for, or else something is tried. -/
theorem takes_flagged (flag : ContainFlag) (expected : Expected)
    {other : Reading (ContainFlag × String)}
    (h : Takes other fun shown taken => taken.map Token.piece = containPieces shown) :
    Takes (do
        if (← optional (.flag flag.text)).isSome then
          return (flag, ← word expected (patternOf flag))
        else other)
      fun shown taken => taken.map Token.piece = containPieces shown := by
  have hpattern : ∀ found : Option Token, Takes
      (if found.isSome then do return (flag, ← word expected (patternOf flag)) else other)
      fun shown taken => (found.map fun _ => (TokenKind.flag, flag.text)).toList ++
        taken.map Token.piece = containPieces shown := by
    intro found
    cases found with
    | none => exact h
    | some token =>
      refine ((takes_word expected (patternOf flag)).bind fun text =>
        takes_pure (flag, text)).imp ?_
      rintro shown taken ⟨text, front, _, rfl, hfront, rfl, rfl⟩
      rw [List.append_nil, hfront]
      rfl
  refine ((takes_optional (Request.knows_flag flag).gives).bind hpattern).imp ?_
  rintro shown taken ⟨found, _, back, rfl, ⟨rfl, hflag⟩, hback⟩
  cases found with
  | none => exact hback
  | some token =>
    have hpiece := Token.piece_of_oneWord (hflag token rfl) (by decide)
    rw [List.map_append, ← hback, Option.toList_some, List.map_singleton, hpiece]
    rfl

/-- The rule for a container takes one of the two flags and a pattern of the kind that the flag asks
for. -/
theorem takes_containPattern :
    Takes containPattern fun shown taken => taken.map Token.piece = containPieces shown :=
  takes_flagged .sane .domain <| takes_flagged .url .url <|
    (takes_missing .containFlag).imp fun _ _ h => h.elim

/-- An action shows what its command shows, also where it is the name of an alias. -/
theorem pieces_actionOf (command : ExCommand) : (actionOf command).pieces = command.pieces := by
  obtain ⟨name, args⟩ := command
  cases args with
  | none =>
    simp only [actionOf]
    split <;> rfl
  | some args => rfl

/-- Behind its keyword, a grammar takes what its node is made of. -/
def TakesNode (keyword : Keyword) (reading : Reading Node) : Prop :=
  Takes reading fun node taken =>
    (TokenKind.keyword, keyword.literal) :: taken.map Token.piece = node.pieces

/-- An alias takes its name and every word that it expands to. -/
theorem takesNode_aliasDef : TakesNode .aliasDef aliasDef := by
  have hwords := Request.knows_wholeWord (Recogniser.apart_singleton .identifier)
  refine ((takes_word _ _).bind fun _ => (takes_word _ _).bind fun _ =>
    (takes_many hwords.gives).bind fun _ => takes_pure _).imp ?_
  rintro node taken ⟨name, front, _, rfl, hname, first, front', _, rfl, hfirst, _, more, _, rfl,
    ⟨rfl, hmore⟩, rfl, rfl⟩
  have hpieces : more.map Token.piece =
      (more.map Token.text).map fun text => (TokenKind.identifier, text) := by
    rw [List.map_map]
    refine List.map_congr_left fun token hmem => ?_
    obtain ⟨pattern, hpattern, hkind, -⟩ := hmore token hmem
    obtain rfl := List.mem_singleton.mp hpattern
    rw [Token.piece_of_word (hmore token hmem), hkind]
    rfl
  simp [Node.pieces, Keyword.literal, Pattern.tokenKind, hname, hfirst, hpieces]

/-- An automatic command takes its event, its pattern and its action. -/
theorem takesNode_autocmd : TakesNode .autocmd autocmd := by
  refine ((takes_need _ Request.knows_eventName.gives).bind fun _ =>
    (takes_require _ _).bind fun _ => (takes_word _ _).bind fun _ =>
      takes_exCommand.bind fun _ => takes_pure _).imp ?_
  rintro node taken ⟨_, _, _, rfl, ⟨token, rfl, rfl, hkind, -⟩, event, _, _, rfl, ⟨hevent, rfl⟩,
    pattern, front, _, rfl, hpattern, command, front', _, rfl, hcommand, rfl, rfl⟩
  have hpiece := Token.piece_of_kind hkind (by decide)
  rw [ofName?_event] at hevent
  simp [Node.pieces, Keyword.literal, Pattern.tokenKind, hpiece, hevent, hpattern, hcommand,
    pieces_actionOf]

/-- A container rule takes its flag, its pattern and its container. -/
theorem takesNode_autocontain : TakesNode .autocontain autocontain := by
  refine (takes_containPattern.bind fun _ => (takes_word _ _).bind fun _ => takes_pure _).imp ?_
  rintro node taken ⟨shown, front, _, rfl, hshown, container, front', _, rfl, hcontainer, rfl, rfl⟩
  simp [Node.pieces, Keyword.literal, Pattern.tokenKind, hshown, hcontainer, containPieces]

/-- A binding takes its mode, if it names one, its key and its command. -/
theorem takesNode_binding : TakesNode .bind binding := by
  refine (takes_mode.bind fun _ => takes_key.bind fun _ => takes_exCommand.bind fun _ =>
    takes_pure _).imp ?_
  rintro node taken ⟨mode, front, _, rfl, hmode, key, front', _, rfl, hkey, command, front'', _,
    rfl, hcommand, rfl, rfl⟩
  simp [Node.pieces, Keyword.literal, hmode, hkey, hcommand]

/-- An unbinding takes its mode, if it names one, and its key. -/
theorem takesNode_unbinding : TakesNode .unbind unbinding := by
  refine (takes_mode.bind fun _ => takes_key.bind fun _ => takes_pure _).imp ?_
  rintro node taken ⟨mode, front, _, rfl, hmode, key, front', _, rfl, hkey, rfl, rfl⟩
  simp [Node.pieces, Keyword.literal, hmode, hkey]

/-- The definition of a command takes the new name and the command behind it. -/
theorem takesNode_commandDef : TakesNode .command commandDef := by
  refine ((takes_word _ _).bind fun _ => takes_exCommand.bind fun _ => takes_pure _).imp ?_
  rintro node taken ⟨name, front, _, rfl, hname, command, front', _, rfl, hcommand, rfl, rfl⟩
  simp [Node.pieces, Keyword.literal, Pattern.tokenKind, hname, hcommand]

/-- A quickmark takes the letter of its key and its URL. -/
theorem takesNode_quickmark : TakesNode .quickmark quickmark := by
  have hkeys := Request.knows_wholeWord (Recogniser.apart_singleton .singleKey)
  refine ((takes_need _ hkeys.gives).bind fun text =>
    (takes_require _ text.toList.head?).bind fun _ => (takes_word _ _).bind fun _ =>
      takes_pure _).imp ?_
  rintro node taken ⟨_, _, _, rfl, ⟨token, rfl, rfl, hword⟩, key, _, _, rfl, ⟨hkey, rfl⟩, url,
    front, _, rfl, hurl, rfl, rfl⟩
  have hpiece := Token.piece_of_word hword
  obtain ⟨pattern, hpattern, hkind, hlang⟩ := hword
  obtain rfl := List.mem_singleton.mp hpattern
  obtain ⟨letter, -, htext⟩ := hlang
  rw [htext, List.head?_cons, Option.some.injEq] at hkey
  subst hkey
  have hletter : token.text = (Key.single letter).toText := by
    rw [Key.toText, ← htext, String.ofList_toList]
  simp [Node.pieces, Keyword.literal, Pattern.tokenKind, hpiece, hkind, hletter, hurl, Key.piece]

/-- A setting takes its name and every value, as a word or as a number. -/
theorem takesNode_setting : TakesNode .set setting := by
  have hwords := Request.knows_wholeWord Recogniser.apart_values
  refine ((takes_word _ _).bind fun _ => (takes_many hwords.gives).bind fun _ =>
    takes_pure _).imp ?_
  rintro node taken ⟨name, front, _, rfl, hname, _, values, _, rfl, ⟨rfl, hvalues⟩, rfl, rfl⟩
  have hpieces : values.map Token.piece = (values.map settingValue).map ofValue := by
    rw [List.map_map]
    refine List.map_congr_left fun token hmem => ?_
    obtain ⟨pattern, hpattern, hkind, -⟩ := hvalues token hmem
    rw [Token.piece_of_word (hvalues token hmem), Function.comp_apply]
    simp only [List.mem_cons, List.not_mem_nil, or_false] at hpattern
    rcases hpattern with rfl | rfl <;> simp [settingValue, ofValue, hkind, Pattern.tokenKind]
  simp only [Node.pieces, Keyword.literal, Pattern.tokenKind, hname, hpieces, List.map_append,
    List.append_nil, List.cons_append, List.nil_append]

/-- The grammar behind every keyword takes what its node is made of. -/
theorem takesNode_ofKeyword (keyword : Keyword) : TakesNode keyword (ofKeyword keyword) := by
  cases keyword with
  | aliasDef => exact takesNode_aliasDef
  | autocmd => exact takesNode_autocmd
  | autocontain => exact takesNode_autocontain
  | bind => exact takesNode_binding
  | unbind => exact takesNode_unbinding
  | command => exact takesNode_commandDef
  | quickmark => exact takesNode_quickmark
  | set => exact takesNode_setting

/-- Nothing is taken between the grammar behind a keyword and the end of its statement. -/
theorem takesNode_statement (keyword : Keyword) : TakesNode keyword (statement keyword) := by
  refine ((takesNode_ofKeyword keyword).bind fun node => takes_finish.bind fun _ =>
    takes_pure node).imp ?_
  rintro node taken ⟨_, front, _, rfl, hfront, _, _, _, rfl, rfl, rfl, rfl⟩
  rw [List.append_nil, List.append_nil]
  exact hfront

end Grammar

namespace Reader

/-- The keyword that opens a line is its first token. -/
theorem exists_token_of_keyword? {line : SourceLine} {keyword : Keyword} {later : Progress}
    (h : keyword? line.progress = some (keyword, later)) :
    ∃ token, later.tokens = [token] ∧ token.piece = (.keyword, keyword.literal) := by
  obtain ⟨token, haccept⟩ := accept_of_keyword? h
  have hword := (Request.knows_keyword keyword).gives _ token later haccept
  exact ⟨token, Progress.tokens_of_accept haccept, Token.piece_of_oneWord hword (by decide)⟩

/-- The tokens of a statement that is concluded without a fault are those that its reading took. -/
theorem pieces_conclude {line : SourceLine} {kind : StatementKind} {reading : Reading Node}
    {progress : Progress} (front : List (TokenKind × String))
    (htokens : progress.tokens.map Token.piece = front)
    (h : reading.Takes fun node taken => front ++ taken.map Token.piece = node.pieces)
    (hkind : (conclude line kind (reading progress)).2.kind ≠ .malformed) :
    (conclude line kind (reading progress)).1.map Token.piece =
      (conclude line kind (reading progress)).2.pieces := by
  obtain ⟨htaken, hnode⟩ := conclude_eq line kind (reading progress)
  obtain ⟨taken, happend, hshown⟩ := h progress _ _ (Prod.ext (hnode hkind) rfl)
  rw [htaken, happend, List.map_append, htokens, hshown]

/-- The tokens of a line spell the node that it is read as. -/
theorem pieces_readLine {line : SourceLine} (hcomment : (readLine line).2.kind ≠ .comment)
    (hmalformed : (readLine line).2.kind ≠ .malformed) :
    (readLine line).1.map Token.piece = (readLine line).2.pieces := by
  revert hcomment hmalformed
  rw [readLine]
  split
  · exact fun _ _ => rfl
  · split
    · next token later haccept =>
      intro hcomment
      rw [comment_node] at hcomment
      exact absurd rfl hcomment
    · split
      · next keyword later hkeyword =>
        intro _ hmalformed
        obtain ⟨token, htokens, hpiece⟩ := exists_token_of_keyword? hkeyword
        refine pieces_conclude [(.keyword, keyword.literal)] ?_
          (Grammar.takesNode_statement keyword) hmalformed
        rw [htokens, List.map_singleton, hpiece]
      · rw [command]
        split
        · intro _ hmalformed
          refine pieces_conclude [] rfl ?_ hmalformed
          refine (Grammar.takes_exCommand.bind fun command =>
            Reading.takes_pure (Node.exCommand command)).imp ?_
          rintro node taken ⟨command, front, _, rfl, hfront, rfl, rfl⟩
          rw [List.append_nil]
          exact hfront
        · exact fun _ hmalformed => absurd rfl hmalformed

end Reader

/-- The tokens of every statement of a text spell its node. -/
theorem Program.pieces_statements {text : String} {statement : Statement}
    (h : statement ∈ (parse text).statements) (hcomment : statement.node.kind ≠ .comment)
    (hmalformed : statement.node.kind ≠ .malformed) :
    statement.tokens.map Token.piece = statement.node.pieces := by
  obtain ⟨index, hindex⟩ := List.mem_iff_getElem?.mp h
  obtain ⟨line, -, rfl⟩ := exists_line hindex
  exact Reader.pieces_readLine hcomment hmalformed

end RcScript
