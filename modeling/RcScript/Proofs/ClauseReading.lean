import RcScript.Proofs.GrammarRealization

/-!
# The grammar of each keyword

The grammar of every keyword, run to the end of its line, realizes the clause of
that keyword, and so does the grammar of a command for the lines that open with no
keyword. A clause that runs no command is realized up to any place, whether the line
ends there or not. Where a grammar tries an optional part first, the clause decides the
same way because what may come instead never looks like that part.
-/

namespace RcScript

open Text

/-- Whether the statements of a keyword can end before their line: the others run a command. -/
def Keyword.endsEarly : Keyword → Bool
  | aliasDef | autocontain | unbind | quickmark | set => true
  | autocmd | bind | command => false

namespace Grammar

open Reading

/-- What is left behind leading blanks starts with no blank. -/
theorem isBlank_of_dropWhile {cs later : List Char} {first : Char}
    (h : cs.dropWhile isBlank = first :: later) : isBlank first = false := by
  have hhead := List.head?_dropWhile_not isBlank cs
  rw [h] at hhead
  simpa using hhead

/-- A command field is a name and, behind a gap, all that is left of the line. -/
theorem realizes_exCommand :
    Realizes id exCommand (fun cs command rest => CommandField cs command ∧ rest = []) := by
  have htrimmed : ∀ (name : String) (args : Option Token),
      Realizes id (pure (ExCommand.mk name (args.map fun token =>
          String.ofList (trimEnd isWhiteSpace token.text.toList))) : Reading ExCommand)
        (fun cs command rest => command = ⟨name, (args.map Token.text).map fun text =>
          String.ofList (trimEnd isWhiteSpace text.toList)⟩ ∧ rest = cs) := by
    intro name args
    rw [Option.map_map]
    exact Realizes.pure id _
  have hparts := (realizes_need .exCommand Request.knows_commandName).bind fun name =>
    realizes_remainder.bindView
      (fun found cs (command : ExCommand) rest => command = ⟨name, found.map fun text =>
        String.ofList (trimEnd isWhiteSpace text.toList)⟩ ∧ rest = cs)
      (htrimmed name)
  refine Realizes.congr hparts ?_
  intro cs command rest
  constructor
  · rintro ⟨name, mid, ⟨⟨gap, hgap, rfl, hend⟩, kind, -, hname⟩, found, mid', ⟨rfl, hfound⟩,
      rfl, rfl⟩
    rw [String.ofList_toList] at hname
    cases found with
    | none => exact ⟨⟨gap, _, hgap, rfl, .bare hname hfound⟩, rfl⟩
    | some text =>
      obtain ⟨hne, htext⟩ := hfound
      cases hsplit : text.toList with
      | nil => exact absurd hsplit hne
      | cons first later =>
        rw [hsplit] at htext
        have hfirst := isBlank_of_dropWhile htext.symm
        have hword : mid.dropWhile isBlank = (first :: later) ++ [] := by
          rw [List.append_nil]
          exact htext.symm
        obtain ⟨gap', hgap', hmid⟩ := exists_gap hend ⟨first, later, rfl, hfirst⟩ hword
        rw [List.append_nil] at hmid
        subst hmid
        refine ⟨⟨gap, _, hgap, rfl, ?_⟩, rfl⟩
        rw [Option.map_some, hsplit]
        exact .withArgs hname hgap' hfirst
  · rintro ⟨⟨gap, body, hgap, rfl, hinvokes⟩, rfl⟩
    cases hinvokes with
    | @bare name blanks hname hblanks =>
      refine ⟨name, blanks, ⟨⟨gap, hgap, rfl, hblanks.fieldEnd⟩, .identifier, rfl, ?_⟩,
        none, [], ⟨rfl, hblanks⟩, rfl, rfl⟩
      rwa [String.ofList_toList]
    | @withArgs name gap' first later hname hgap' hfirst =>
      refine ⟨name, _, ⟨⟨gap, hgap, rfl, hgap'.fieldEnd _⟩, .identifier, rfl, ?_⟩,
        some (String.ofList (first :: later)), [], ⟨rfl, ?_, ?_⟩, ?_, rfl⟩
      · rwa [String.ofList_toList]
      · simp
      · rw [String.toList_ofList, dropWhile_blanks hgap'.2]
        exact (List.dropWhile_cons_of_neg (by simp [hfirst])).symm
      · rw [Option.map_some, String.toList_ofList]

/-- The pattern that a flag asks for. -/
def patternOf : ContainFlag → Pattern
  | .sane => .domain
  | .url => .url

/-- A flag and the pattern that it asks for. -/
def ContainField (cs : List Char) (shown : ContainFlag × String) (rest : List Char) : Prop :=
  ∃ mid, Field cs shown.1.text mid ∧ PatternField (patternOf shown.1) mid shown.2 rest

/-- A clause that runs no command, up to a place behind it. Where more fields may follow, none of
them is next there. -/
inductive ClauseTo : Keyword → List Char → Node → List Char → Prop
  | aliasDef {cs mid rest : List Char} {name first : String} {more : List String} :
      PatternField .identifier cs name mid → Fields mid (first :: more) rest →
      (∀ text ∈ first :: more, Pattern.identifier.Lang text.toList) →
      NoField (PatternWord [.identifier]) rest →
      ClauseTo .aliasDef cs (.aliasDef name (first :: more)) rest
  | autocontain {cs mid rest : List Char} {flag : ContainFlag} {pattern container : String} :
      ContainField cs (flag, pattern) mid → PatternField .identifier mid container rest →
      ClauseTo .autocontain cs (.autocontain flag pattern container) rest
  | unbinding {cs mid rest : List Char} {mode : Option Mode} {key : Key} :
      ModeField cs mode mid → KeyField mid key rest →
      ClauseTo .unbind cs (.unbinding mode key) rest
  | quickmark {cs mid rest : List Char} {key : Char} {url : String} :
      KeyField cs (.single key) mid → PatternField .url mid url rest →
      ClauseTo .quickmark cs (.quickmark key url) rest
  | setting {cs mid rest : List Char} {name : String} {values : List SettingValue} :
      PatternField .identifier cs name mid → Fields mid (values.map SettingValue.text) rest →
      (∀ value ∈ values, value.Valid) → NoField (PatternWord [.identifier, .number]) rest →
      ClauseTo .set cs (.setting name values) rest

/-- A grammar reads a keyword's clause when, followed by the end of the line, it
realizes that clause. -/
def ReadsClause (keyword : Keyword) (reading : Reading Node) : Prop :=
  ∃ Phrase, Realizes id reading Phrase ∧
    ∀ cs node, (∃ rest, Phrase cs node rest ∧ Blanks rest) ↔ Clause keyword cs node

/-- No field follows at the end of a line. -/
theorem noField_of_blanks {Word : TokenKind → List Char → Prop} {request : Request}
    (hknows : request.Knows Word) {cs : List Char} (hblanks : Blanks cs) : NoField Word cs := by
  intro text rest kind hfield hword
  have hvisible := (hknows.2 (Cursor.atStart 0 0 [])).visible hword
  have hsplit := hfield.dropWhile_eq hvisible
  rw [dropWhile_eq_nil_iff_blanks.mpr hblanks] at hsplit
  obtain ⟨c, tail, he, -⟩ := hvisible
  rw [he] at hsplit
  exact absurd hsplit (by simp)

/-- A clause that runs no command is one up to the blanks at the end of its line. -/
theorem clauseTo_iff {keyword : Keyword} (h : keyword.endsEarly = true) {cs : List Char}
    {node : Node} :
    (∃ rest, ClauseTo keyword cs node rest ∧ Blanks rest) ↔ Clause keyword cs node := by
  constructor
  · rintro ⟨rest, hto, hblanks⟩
    cases hto with
    | aliasDef hname hfields hwords _ => exact .aliasDef hname hfields hwords hblanks
    | @autocontain _ _ _ flag _ _ hcontain hcontainer =>
      obtain ⟨last, hflag, hpattern⟩ := hcontain
      cases flag with
      | sane => exact .autocontainSane hflag hpattern hcontainer hblanks
      | url => exact .autocontainUrl hflag (urlField_iff.mpr hpattern) hcontainer hblanks
    | unbinding hmode hkey => exact .unbinding hmode hkey hblanks
    | quickmark hkey hurl => exact .quickmark hkey (urlField_iff.mpr hurl) hblanks
    | setting hname hfields hvalues _ => exact .setting hname hfields hvalues hblanks
  · intro hclause
    cases hclause with
    | aliasDef hname hfields hwords hblanks =>
      have hknows := Request.knows_wholeWord (Recogniser.apart_singleton .identifier)
      exact ⟨_, .aliasDef hname hfields hwords (noField_of_blanks hknows hblanks), hblanks⟩
    | autocontainSane hflag hpattern hcontainer hblanks =>
      exact ⟨_, .autocontain ⟨_, hflag, hpattern⟩ hcontainer, hblanks⟩
    | autocontainUrl hflag hpattern hcontainer hblanks =>
      exact ⟨_, .autocontain ⟨_, hflag, urlField_iff.mp hpattern⟩ hcontainer, hblanks⟩
    | unbinding hmode hkey hblanks => exact ⟨_, .unbinding hmode hkey, hblanks⟩
    | quickmark hkey hurl hblanks =>
      exact ⟨_, .quickmark hkey (urlField_iff.mp hurl), hblanks⟩
    | setting hname hfields hvalues hblanks =>
      have hknows := Request.knows_wholeWord Recogniser.apart_values
      exact ⟨_, .setting hname hfields hvalues (noField_of_blanks hknows hblanks), hblanks⟩
    | autocmd | binding | commandDef => exact absurd h (by decide)

/-- An alias is read exactly where its clause starts, up to the first word that is no name. -/
theorem realizes_aliasDef : Realizes id aliasDef (ClauseTo .aliasDef) := by
  have hknows := Request.knows_wholeWord (Recogniser.apart_singleton .identifier)
  have hnode : ∀ (name first : String) (tokens : List Token),
      Realizes id (pure (.aliasDef name (first :: tokens.map Token.text)) : Reading Node)
        (fun cs node rest => node = .aliasDef name (first :: (tokens.map fun token =>
          (token.kind, token.text)).map Prod.snd) ∧ rest = cs) := by
    intro name first tokens
    rw [List.map_map]
    exact Realizes.pure id _
  refine ((realizes_word .identifier .identifier).bind fun name =>
    (realizes_word .identifier .identifier).bind fun first =>
    (realizes_many hknows).bindView
      (fun found cs node rest =>
        node = .aliasDef name (first :: found.map Prod.snd) ∧ rest = cs)
      (hnode name first)).congr ?_
  intro cs node rest
  constructor
  · rintro ⟨name, mid, hname, first, mid', hfirst, found, rest', ⟨hfields, hwords, hno⟩, rfl, rfl⟩
    refine .aliasDef hname (.cons hfirst.1 hfields) ?_ hno
    intro text hmem
    rcases List.mem_cons.mp hmem with rfl | hmem
    · exact hfirst.2
    · obtain ⟨pair, hpair, rfl⟩ := List.mem_map.mp hmem
      obtain ⟨pattern, hpattern, -, hlang⟩ := hwords pair hpair
      rw [List.mem_singleton] at hpattern
      exact hpattern ▸ hlang
  · intro hclause
    cases hclause with
    | @aliasDef _ mid _ name first more hname hfields hwords hno =>
      cases hfields with
      | cons hfirst hmore =>
        have hmap : (more.map fun text => (TokenKind.identifier, text)).map Prod.snd = more := by
          rw [List.map_map]
          exact List.map_id more
        refine ⟨name, mid, hname, first, _, ⟨hfirst, hwords first List.mem_cons_self⟩,
          more.map fun text => (.identifier, text), rest, ⟨by rw [hmap]; exact hmore, ?_, hno⟩,
          by rw [hmap], rfl⟩
        intro pair hmem
        obtain ⟨text, htext, rfl⟩ := List.mem_map.mp hmem
        exact ⟨.identifier, List.mem_singleton_self _, rfl,
          hwords text (List.mem_cons_of_mem _ htext)⟩

/-- The meaning of a token of a setting, by its kind and text. -/
def valueOf (pair : TokenKind × String) : SettingValue :=
  if pair.1 == .number then .number pair.2 else .word pair.2

/-- The kind and text of the token that gives a value. -/
def ofValue : SettingValue → TokenKind × String
  | .word text => (.identifier, text)
  | .number text => (.number, text)

/-- A value is told from its token: the kind says whether it is a number. -/
theorem valueOf_ofValue (value : SettingValue) : valueOf (ofValue value) = value := by
  cases value <;> rfl

/-- The value told from a token has the text of the token. -/
theorem text_valueOf (pair : TokenKind × String) : (valueOf pair).text = pair.2 := by
  unfold valueOf
  split <;> rfl

/-- A setting is read exactly where its clause starts, up to the first word that is no value. -/
theorem realizes_setting : Realizes id setting (ClauseTo .set) := by
  have hknows := Request.knows_wholeWord Recogniser.apart_values
  have hnode : ∀ (name : String) (tokens : List Token),
      Realizes id (pure (.setting name (tokens.map settingValue)) : Reading Node)
        (fun cs node rest => node = .setting name ((tokens.map fun token =>
          (token.kind, token.text)).map valueOf) ∧ rest = cs) := by
    intro name tokens
    rw [List.map_map]
    exact Realizes.pure id _
  refine ((realizes_word .identifier .identifier).bind fun name =>
    (realizes_many hknows).bindView
      (fun found cs node rest => node = .setting name (found.map valueOf) ∧ rest = cs)
      (hnode name)).congr ?_
  intro cs node rest
  constructor
  · rintro ⟨name, mid, hname, found, rest', ⟨hfields, hwords, hno⟩, rfl, rfl⟩
    have htexts : (found.map valueOf).map SettingValue.text = found.map Prod.snd := by
      rw [List.map_map]
      exact List.map_congr_left fun pair _ => text_valueOf pair
    refine .setting hname (by rw [htexts]; exact hfields) ?_ hno
    intro value hmem
    obtain ⟨pair, hpair, rfl⟩ := List.mem_map.mp hmem
    obtain ⟨pattern, hpattern, hkind, hlang⟩ := hwords pair hpair
    simp only [List.mem_cons, List.not_mem_nil, or_false] at hpattern
    rcases hpattern with rfl | rfl <;>
      simpa [valueOf, hkind, Pattern.tokenKind, SettingValue.Valid] using hlang
  · intro hclause
    cases hclause with
    | @setting _ mid _ name values hname hfields hwords hno =>
      have htexts : (values.map ofValue).map Prod.snd = values.map SettingValue.text := by
        rw [List.map_map]
        refine List.map_congr_left fun value _ => ?_
        rw [Function.comp_apply, ← text_valueOf, valueOf_ofValue]
      have hvalues : (values.map ofValue).map valueOf = values := by
        rw [List.map_map]
        exact List.map_id'' valueOf_ofValue values
      refine ⟨name, mid, hname, values.map ofValue, rest, ⟨by rw [htexts]; exact hfields, ?_, hno⟩,
        by rw [hvalues], rfl⟩
      intro pair hmem
      obtain ⟨value, hvalue, rfl⟩ := List.mem_map.mp hmem
      have hvalid := hwords value hvalue
      cases value with
      | word text => exact ⟨.identifier, by decide, rfl, hvalid⟩
      | number text => exact ⟨.number, by decide, rfl, hvalid⟩

/-- The definition of a command is read exactly where its clause starts, to the end of the line. -/
theorem readsClause_commandDef : ReadsClause .command commandDef := by
  refine ⟨_, (realizes_word .identifier .identifier).bind fun name =>
    realizes_exCommand.bind fun command => Realizes.pure id _, ?_⟩
  intro cs node
  constructor
  · rintro ⟨rest, ⟨name, mid, hname, command, rest', ⟨hcommand, rfl⟩, rfl, rfl⟩, -⟩
    exact .commandDef hname hcommand
  · intro hclause
    cases hclause with
    | commandDef hname hcommand =>
      exact ⟨[], ⟨_, _, hname, _, [], ⟨hcommand, rfl⟩, rfl, rfl⟩, blanks_nil⟩

/-- An event is found by its name only. -/
theorem ofName?_event {text : String} {event : Event} :
    Event.ofName? text = some event ↔ text = event.name := by
  constructor
  · intro h
    have hname := List.find?_some h
    exact (beq_iff_eq.mp hname).symm
  · rintro rfl
    cases event <;> rfl

/-- A mode is found by its name only. -/
theorem ofName?_mode {text : String} {mode : Mode} :
    Mode.ofName? text = some mode ↔ text = mode.name := by
  constructor
  · intro h
    have hname := List.find?_some h
    exact (beq_iff_eq.mp hname).symm
  · rintro rfl
    cases mode <;> rfl

/-- What a command stands for is decided by its name and arguments. -/
theorem runs_iff {command : ExCommand} {action : Action} :
    Runs command action ↔ actionOf command = action := by
  constructor
  · intro h
    cases h with
    | aliasName hmem => simp [actionOf, isKnownCommand, hmem]
    | listed hmem => simp [actionOf, isKnownCommand, hmem]
    | withArgs => simp [actionOf]
  · rintro rfl
    obtain ⟨name, args⟩ := command
    cases args with
    | some args => exact .withArgs
    | none =>
      by_cases hmem : name ∈ commandNames
      · simpa [actionOf, isKnownCommand, hmem] using Runs.listed hmem
      · simpa [actionOf, isKnownCommand, hmem] using Runs.aliasName hmem

/-- An automatic command is read exactly where its clause starts, to the end of the line. -/
theorem readsClause_autocmd : ReadsClause .autocmd autocmd := by
  refine ⟨_, (realizes_need .event Request.knows_eventName).bind fun name =>
    (realizes_require .event (Event.ofName? name)).bind fun event =>
    (realizes_word .domain .domain).bind fun pattern =>
    realizes_exCommand.bind fun command => Realizes.pure id _, ?_⟩
  intro cs node
  constructor
  · rintro ⟨rest, ⟨name, mid, ⟨hfield, -⟩, event, _, ⟨hevent, rfl⟩, pattern, last, hpattern,
      command, rest', ⟨hcommand, rfl⟩, rfl, rfl⟩, -⟩
    rw [ofName?_event] at hevent
    subst hevent
    exact .autocmd hfield hpattern hcommand (runs_iff.mpr rfl)
  · intro hclause
    cases hclause with
    | @autocmd _ mid rest event pattern command action hevent hpattern hcommand hruns =>
      have hmem : String.ofList event.name.toList ∈ Event.all.map Event.name := by
        rw [String.ofList_toList]
        cases event <;> decide
      rw [runs_iff] at hruns
      subst hruns
      exact ⟨[], ⟨event.name, mid, ⟨hevent, .eventName, rfl, hmem⟩, event, mid,
        ⟨ofName?_event.mpr rfl, rfl⟩, pattern, rest, hpattern, command, [], ⟨hcommand, rfl⟩,
        rfl, rfl⟩, blanks_nil⟩

/-- The pattern of a container rule, once its flag is known. -/
def Flagged (flag : ContainFlag) (cs : List Char) (shown : ContainFlag × String)
    (rest : List Char) : Prop :=
  shown.1 = flag ∧ PatternField (patternOf flag) cs shown.2 rest

/-- A required pattern behind its flag. -/
theorem realizes_flagged (flag : ContainFlag) (expected : Expected) :
    Realizes id
      (do return (flag, ← word expected (patternOf flag)) : Reading (ContainFlag × String))
      (Flagged flag) := by
  refine ((realizes_word expected _).bind fun text => Realizes.pure id (flag, text)).congr ?_
  intro cs shown rest
  constructor
  · rintro ⟨text, mid, hfield, rfl, rfl⟩
    exact ⟨rfl, hfield⟩
  · rintro ⟨rfl, hfield⟩
    exact ⟨shown.2, rest, hfield, rfl, rfl⟩

/-- A flag is taken wherever it is the next field. -/
theorem realizes_flag (flag : ContainFlag) :
    Realizes Option.isSome (optional (.flag flag.text)) (fun cs found rest =>
      (found = true ∧ Field cs flag.text rest) ∨
        (found = false ∧ rest = cs ∧ ∀ mid, ¬ Field cs flag.text mid)) where
  sound {progress later cs value} hsees hend hr := by
    have hoptional := realizes_optional (Request.knows_flag flag)
    obtain ⟨rest, hphrase, hlater⟩ := hoptional.sound hsees hend hr
    cases value with
    | none =>
      obtain ⟨rfl, hno⟩ := hphrase
      exact ⟨rest, .inr ⟨rfl, rfl, fun mid hfield => hno _ mid .flag hfield ⟨rfl, rfl⟩⟩, hlater⟩
    | some token =>
      obtain ⟨hfield, -, htext⟩ := hphrase
      rw [String.toList_inj] at htext
      exact ⟨rest, .inl ⟨rfl, htext ▸ hfield⟩, hlater⟩
  complete {progress cs rest shown} hsees hend hphrase := by
    have hoptional := realizes_optional (Request.knows_flag flag)
    rcases hphrase with ⟨rfl, hfield⟩ | ⟨rfl, rfl, hno⟩
    · have hfound : OptionalField (OneWord .flag flag.text.toList) cs
          (some (.flag, flag.text)) rest := ⟨hfield, rfl, rfl⟩
      obtain ⟨value, later, hr, hshown, hlater⟩ := hoptional.complete hsees hend hfound
      cases value with
      | none => simp at hshown
      | some token => exact ⟨some token, later, hr, rfl, hlater⟩
    · have hnone : NoField (OneWord .flag flag.text.toList) rest := by
        rintro text mid kind hfield ⟨-, htext⟩
        rw [String.toList_inj] at htext
        exact hno mid (htext ▸ hfield)
      have hfound : OptionalField (OneWord .flag flag.text.toList) rest none rest := ⟨rfl, hnone⟩
      obtain ⟨value, later, hr, hshown, hlater⟩ := hoptional.complete hsees hend hfound
      cases value with
      | none => exact ⟨none, later, hr, rfl, hlater⟩
      | some token => simp at hshown

/-- Two flags do not stand at one place. -/
theorem flag_unique {cs mid mid' : List Char} {flag other : ContainFlag}
    (h : Field cs flag.text mid) (h' : Field cs other.text mid') : flag = other := by
  have hvisible : ∀ flag : ContainFlag, Visible flag.text.toList := by
    intro flag
    cases flag <;> exact ⟨_, _, rfl, by decide⟩
  have he := (h.dropWhile_eq (hvisible flag)).symm.trans (h'.dropWhile_eq (hvisible other))
  have hlength : flag.text.toList.length = other.text.toList.length := by
    cases flag <;> cases other <;> rfl
  have htext := (List.append_inj he hlength).1
  rw [String.toList_inj] at htext
  cases flag <;> cases other <;> first | rfl | exact absurd htext (by decide)

/-- A flag with its pattern is read exactly where one stands. The two flags differ, so that the
order in which they are tried does not matter. -/
theorem realizes_containPattern : Realizes id containPattern ContainField := by
  have hurl : ∀ found : Option Token, Realizes id
      (if found.isSome then do return (.url, ← word .url .url) else missing .containFlag :
        Reading (ContainFlag × String))
      (fun cs shown rest => found.isSome = true ∧ Flagged .url cs shown rest) := by
    intro found
    cases found with
    | none => exact (realizes_missing id .containFlag).congr (by simp)
    | some token => exact (realizes_flagged .url .url).congr (by simp)
  have hother := (realizes_flag .url).bindView
    (fun found cs shown rest => found = true ∧ Flagged .url cs shown rest) hurl
  have hsane : ∀ found : Option Token, Realizes id
      (if found.isSome then do return (.sane, ← word .domain .domain) else do
        if (← optional (.flag ContainFlag.url.text)).isSome then
          return (.url, ← word .url .url)
        else missing .containFlag : Reading (ContainFlag × String))
      (fun cs shown rest => (found.isSome = true ∧ Flagged .sane cs shown rest) ∨
        (found.isSome = false ∧
          ∃ mid, Field cs ContainFlag.url.text mid ∧ Flagged .url mid shown rest)) := by
    intro found
    cases found with
    | none => exact hother.congr (by simp)
    | some token => exact (realizes_flagged .sane .domain).congr (by simp)
  have hparts := (realizes_flag .sane).bindView
    (fun found cs shown rest => (found = true ∧ Flagged .sane cs shown rest) ∨
      (found = false ∧
        ∃ mid, Field cs ContainFlag.url.text mid ∧ Flagged .url mid shown rest)) hsane
  refine hparts.congr ?_
  intro cs shown rest
  obtain ⟨flag, text⟩ := shown
  constructor
  · rintro ⟨found, mid, ⟨rfl, hflag⟩ | ⟨rfl, rfl, -⟩, ⟨hfound, rfl, hpattern⟩ |
      ⟨hfound, last, hflag', rfl, hpattern⟩⟩
    · exact ⟨mid, hflag, hpattern⟩
    · simp at hfound
    · simp at hfound
    · exact ⟨last, hflag', hpattern⟩
  · rintro ⟨mid, hflag, hpattern⟩
    cases flag with
    | sane => exact ⟨true, mid, .inl ⟨rfl, hflag⟩, .inl ⟨rfl, rfl, hpattern⟩⟩
    | url =>
      refine ⟨false, cs, .inr ⟨rfl, rfl, ?_⟩, .inr ⟨rfl, mid, hflag, rfl, hpattern⟩⟩
      intro mid' hflag'
      exact ContainFlag.noConfusion (flag_unique hflag' hflag)

/-- A rule for a container is read exactly where its clause starts, up to the container. -/
theorem realizes_autocontain : Realizes id autocontain (ClauseTo .autocontain) := by
  refine (realizes_containPattern.bind fun pair =>
    (realizes_word .identifier .identifier).bind fun container => Realizes.pure id _).congr ?_
  intro cs node rest
  constructor
  · rintro ⟨⟨flag, pattern⟩, mid, hcontain, container, _, hcontainer, rfl, rfl⟩
    exact .autocontain hcontain hcontainer
  · intro hclause
    cases hclause with
    | @autocontain _ mid _ flag pattern container hcontain hcontainer =>
      exact ⟨(flag, pattern), mid, hcontain, container, rest, hcontainer, rfl, rfl⟩

/-- A key is read from the characters that it is written as. -/
theorem ofChars?_key {cs : List Char} {key : Key} :
    Key.ofChars? cs = some key ↔ cs = key.toText.toList ∧ key.Valid := by
  constructor
  · intro h
    unfold Key.ofChars? at h
    split at h
    · next k =>
      split at h
      · next hletter =>
        obtain rfl := Option.some.inj h
        exact ⟨String.toList_ofList.symm, hletter⟩
      · simp at h
    · next m k =>
      split at h
      · next hc =>
        obtain rfl := Option.some.inj h
        rw [Bool.and_eq_true] at hc
        exact ⟨String.toList_ofList.symm, hc⟩
      · simp at h
    · simp at h
  · rintro ⟨rfl, hvalid⟩
    cases key with
    | single k => simpa [Key.toText, Key.ofChars?, Key.Valid] using hvalid
    | compound m k => simpa [Key.toText, Key.ofChars?, Key.Valid] using hvalid

/-- A key is read from the text that it is written as. -/
theorem ofText?_key {text : String} {key : Key} :
    Key.ofText? text = some key ↔ text = key.toText ∧ key.Valid := by
  rw [Key.ofText?, ofChars?_key, String.toList_inj]

/-- A word of either notation of keys is read as a key. -/
theorem exists_key_of_word {kind : TokenKind} {w : List Char}
    (h : PatternWord [.compoundKey, .singleKey] kind w) :
    ∃ key, Key.ofText? (String.ofList w) = some key := by
  obtain ⟨pattern, hmem, -, hlang⟩ := h
  obtain ⟨key, rfl, hvalid⟩ := Key.exists_of_lang hmem hlang
  exact ⟨key, ofText?_key.mpr ⟨String.ofList_toList, hvalid⟩⟩

/-- A key field has the text of a valid key. -/
theorem realizes_key : Realizes id key KeyField := by
  have hknows := Request.knows_wholeWord Recogniser.apart_keys
  refine ((realizes_need .key hknows).bind fun text =>
    realizes_require .key (Key.ofText? text)).congr ?_
  intro cs key rest
  constructor
  · rintro ⟨text, mid, ⟨hfield, -⟩, hkey, rfl⟩
    obtain ⟨rfl, hvalid⟩ := ofText?_key.mp hkey
    exact ⟨hfield, hvalid⟩
  · rintro ⟨hfield, hvalid⟩
    refine ⟨key.toText, rest, ⟨hfield, ?_⟩, ofText?_key.mpr ⟨rfl, hvalid⟩, rfl⟩
    have hlang := Key.lang_toText.mpr hvalid
    exact ⟨_, key.pattern, by cases key <;> simp [Key.pattern], rfl, hlang⟩

/-- A quickmark is read exactly where its clause starts, up to the end of the URL. -/
theorem realizes_quickmark : Realizes id quickmark (ClauseTo .quickmark) := by
  have hknows := Request.knows_wholeWord (Recogniser.apart_singleton .singleKey)
  refine ((realizes_need .singleKey hknows).bind fun text =>
    (realizes_require .singleKey text.toList.head?).bind fun key =>
    (realizes_word .url .url).bind fun url => Realizes.pure id _).congr ?_
  intro cs node rest
  constructor
  · rintro ⟨text, mid, ⟨hfield, kind, pattern, hmem, -, hlang⟩, key, _, ⟨hkey, rfl⟩, url, _, hurl,
      rfl, rfl⟩
    rw [List.mem_singleton] at hmem
    subst hmem
    obtain ⟨k, hk, hchars⟩ := hlang
    rw [hchars, List.head?_cons, Option.some.injEq] at hkey
    subst hkey
    have htext : text = (Key.single k).toText := by
      rw [Key.toText, ← hchars, String.ofList_toList]
    exact .quickmark ⟨htext ▸ hfield, hk⟩ hurl
  · intro hclause
    cases hclause with
    | @quickmark _ mid _ key url hkey hurl =>
      have hchars : (Key.single key).toText.toList = [key] := by
        simp [Key.toText]
      exact ⟨(Key.single key).toText, mid, ⟨hkey.1, _, .singleKey, List.mem_singleton_self _, rfl,
        key, hkey.2, hchars⟩, key, mid, ⟨by rw [hchars, List.head?_cons], rfl⟩, url, rest, hurl,
        rfl, rfl⟩

/-- The mark that a mode stands directly behind. -/
def modeMark : List Char := "--mode=".toList

/-- A mode field, or no mark of one. -/
def ModePhrase (cs : List Char) (mode? : Option Mode) (rest : List Char) : Prop :=
  match mode? with
  | some mode => Field cs ("--mode=" ++ mode.name) rest
  | none => rest = cs ∧ ¬ modeMark <+: cs.dropWhile isBlank

/-- A mode field shows the mark and then the name. -/
theorem dropWhile_modeField {cs rest : List Char} {mode : Mode}
    (h : Field cs ("--mode=" ++ mode.name) rest) :
    cs.dropWhile isBlank = modeMark ++ (mode.name.toList ++ rest) := by
  have htext : ("--mode=" ++ mode.name).toList = modeMark ++ mode.name.toList := by
    rw [String.toList_append]
    rfl
  rw [h.dropWhile_eq ⟨'-', _, htext, by decide⟩, htext, List.append_assoc]

/-- The mark of a mode is taken wherever it comes next, whatever follows it. -/
theorem accept_modeMark {progress : Progress} {cs : List Char} (hsees : progress.Sees cs) :
    (progress.accept (.flag "--mode=") = none ∧ ¬ modeMark <+: cs.dropWhile isBlank) ∨
      ∃ token later after, progress.accept (.flag "--mode=") = some (token, later) ∧
        cs.dropWhile isBlank = modeMark ++ after ∧ later.Stands after := by
  have hrec : ∀ text : List Char, Recogniser.flag "--mode=" text =
      if modeMark.isPrefixOf text then some ⟨.flag, modeMark.length⟩ else none := by
    intro text
    have hlast : ("--mode=".toList.getLast? == some '=') = true := rfl
    simp only [Recogniser.flag, hlast, Bool.true_or, Bool.and_true]
    rfl
  by_cases hmark : modeMark <+: cs.dropWhile isBlank
  · obtain ⟨after, hafter⟩ := hmark
    have hfound : Recogniser.flag "--mode=" (modeMark ++ after) =
        some ⟨.flag, modeMark.length⟩ := by
      rw [hrec, if_pos (List.isPrefixOf_iff_prefix.mpr (List.prefix_append _ _))]
    have hskip : (Request.flag "--mode=").skipsBlanks = true := rfl
    have hne : modeMark ≠ [] := by decide
    obtain ⟨token, later, haccept, -, -, hstands⟩ :=
      Progress.accept_of_recogniser hskip hne (hsees.trans hafter.symm) hfound
    exact .inr ⟨token, later, after, haccept, hafter.symm, hstands⟩
  · refine .inl ⟨?_, hmark⟩
    rw [Progress.accept_eq_none_of_unread rfl, hsees]
    exact (hrec _).trans (if_neg fun h => hmark (List.isPrefixOf_iff_prefix.mp h))

/-- A name of a mode that comes next is taken. -/
theorem accept_modeName_of_word {progress : Progress} {kind : TokenKind} {w rest : List Char}
    (hstands : progress.Stands (w ++ rest))
    (hword : NamedWord .modeName (Mode.all.map Mode.name) kind w) (hend : FieldEnd rest) :
    ∃ token later, progress.accept .modeName = some (token, later) ∧
      token.text = String.ofList w ∧ later.Stands rest := by
  have hrec := Recogniser.recognises_modeName
  have hready : (progress.cursor.ready .modeName).rest = w ++ rest := hstands.1
  have hfound : Recogniser.modeName (w ++ rest) = some ⟨kind, w.length⟩ :=
    hrec.answers.mpr ⟨hword, hend⟩
  have hne := (hrec.visible hword).ne_nil
  obtain ⟨token, later, haccept, -, htext, hlater⟩ :=
    Progress.accept_of_ready hne hready hfound
  exact ⟨token, later, haccept, htext, hlater⟩

/-- A mode name is taken wherever it stands directly before the end of a field. -/
theorem accept_modeName {progress : Progress} {after : List Char}
    (hstands : progress.Stands after) :
    (∀ token later, progress.accept .modeName = some (token, later) → ∃ (mode : Mode) (rest : _),
      after = mode.name.toList ++ rest ∧ token.text = mode.name ∧ FieldEnd rest ∧
        later.Stands rest) ∧
    (∀ (mode : Mode) (rest : List Char), after = mode.name.toList ++ rest → FieldEnd rest →
      ∃ token later, progress.accept .modeName = some (token, later) ∧
        token.text = mode.name ∧ later.Stands rest) := by
  constructor
  · intro token later haccept
    cases hlexeme : Recogniser.modeName after with
    | none =>
      have hready : (progress.cursor.ready .modeName).rest = after := hstands.1
      have hnone : progress.accept .modeName = none := by
        rw [Progress.accept_eq_none, hready]
        exact hlexeme
      rw [hnone] at haccept
      exact absurd haccept (by simp)
    | some lexeme =>
      obtain ⟨w, rest, rfl, -, hword, hend⟩ :=
        Recogniser.recognises_modeName.exists_word hlexeme
      obtain ⟨token', later', haccept', htext, hlater⟩ :=
        accept_modeName_of_word hstands hword hend
      rw [haccept, Option.some.injEq, Prod.mk.injEq] at haccept'
      obtain ⟨rfl, rfl⟩ := haccept'
      obtain ⟨mode, -, hname⟩ := List.mem_map.mp hword.2
      refine ⟨mode, rest, ?_, htext.trans hname.symm, hend, hlater⟩
      rw [hname, String.toList_ofList]
  · rintro mode rest rfl hend
    have hmem : String.ofList mode.name.toList ∈ Mode.all.map Mode.name := by
      rw [String.ofList_toList]
      cases mode <;> decide
    obtain ⟨token, later, haccept, htext, hlater⟩ :=
      accept_modeName_of_word hstands ⟨rfl, hmem⟩ hend
    rw [String.ofList_toList] at htext
    exact ⟨token, later, haccept, htext, hlater⟩

/-- The outcome of the part for a mode, by the tokens that are found. -/
theorem mode_eq (progress : Progress) :
    mode progress = match progress.accept (.flag "--mode=") with
      | none => (.ok none, progress)
      | some (_, later) => match later.accept .modeName with
        | none => (.error (.missing .mode), later)
        | some (token, last) => match Mode.ofName? token.text with
          | none => (.error (.missing .mode), last)
          | some found => (.ok (some found), last) := by
  cases hflag : progress.accept (.flag "--mode=") with
  | none => simp [mode, Reading.optional, bind, pure, hflag]
  | some taken =>
    obtain ⟨token, later⟩ := taken
    cases hname : later.accept .modeName with
    | none => simp [mode, Reading.optional, bind, hflag, need_eq, hname]
    | some taken =>
      obtain ⟨token', last⟩ := taken
      cases hfound : Mode.ofName? token'.text with
      | none => simp [mode, Reading.optional, bind, hflag, need_eq, hname, hfound, require, missing]
      | some found =>
        simp [mode, Reading.optional, bind, pure, hflag, need_eq, hname, hfound, require]

/-- A mode is read where its flag stands with a name, and none is read where the flag does not
stand. -/
theorem realizes_mode : Realizes id mode ModePhrase where
  sound {progress later cs value} hsees hend hr := by
    rw [mode_eq] at hr
    rcases accept_modeMark hsees with ⟨hnone, hmark⟩ | ⟨token, next, after, hsome, hafter, hstands⟩
    · simp only [hnone, Prod.mk.injEq, Except.ok.injEq] at hr
      obtain ⟨rfl, rfl⟩ := hr
      exact ⟨cs, ⟨rfl, hmark⟩, hend, hsees⟩
    · cases hname : next.accept .modeName with
      | none => simp [hsome, hname] at hr
      | some taken =>
        obtain ⟨token', last⟩ := taken
        obtain ⟨mode, rest, rfl, htext, hstop, hlast⟩ :=
          (accept_modeName hstands).1 token' last hname
        simp only [hsome, hname, ofName?_mode.mpr htext, Prod.mk.injEq, Except.ok.injEq] at hr
        obtain ⟨rfl, rfl⟩ := hr
        rw [← List.append_assoc] at hafter
        obtain ⟨gap, hgap, hcs⟩ := exists_gap hend ⟨'-', _, rfl, by decide⟩ hafter
        refine ⟨rest, ⟨gap, hgap, ?_, hstop⟩, hstop, hlast.sees⟩
        rw [String.toList_append]
        exact hcs
  complete {progress cs rest shown} hsees hend hphrase := by
    rw [mode_eq]
    rcases accept_modeMark hsees with ⟨hnone, hmark⟩ | ⟨token, next, after, hsome, hafter, hstands⟩
    · cases shown with
      | none =>
        obtain ⟨rfl, -⟩ := hphrase
        exact ⟨none, progress, by rw [hnone], rfl, hend, hsees⟩
      | some found =>
        exact absurd ⟨_, (dropWhile_modeField hphrase).symm⟩ hmark
    · cases shown with
      | none => exact absurd ⟨after, hafter.symm⟩ hphrase.2
      | some found =>
        have hname := List.append_cancel_left (hafter.symm.trans (dropWhile_modeField hphrase))
        obtain ⟨-, -, -, hstop⟩ := hphrase
        obtain ⟨token', last, haccept, htext, hlast⟩ :=
          (accept_modeName hstands).2 found rest hname hstop
        refine ⟨some found, last, ?_, rfl, hstop, hlast.sees⟩
        simp only [hsome, haccept, ofName?_mode.mpr htext]

/-- No key looks like the mark of a mode. -/
theorem not_modeMark_of_keyField {cs rest : List Char} {key : Key} (h : KeyField cs key rest) :
    ¬ modeMark <+: cs.dropWhile isBlank := by
  obtain ⟨hfield, hvalid⟩ := h
  have hfirst : ∃ c tail, key.toText.toList = c :: tail ∧ isBlank c = false ∧ c ≠ '-' := by
    cases key with
    | single k =>
      have hletter : isLetter k = true := hvalid
      refine ⟨k, [], by simp [Key.toText], ?_, ?_⟩
      · exact isBlank_of_isWordChar (isWordChar_of_isLabelChar (isLabelChar_of_isLetter hletter))
      · rintro rfl
        exact absurd hletter (by decide)
    | compound m k => exact ⟨'<', [m, '-', k, '>'], by simp [Key.toText], by decide, by decide⟩
  obtain ⟨c, tail, he, hc, hne⟩ := hfirst
  rw [hfield.dropWhile_eq ⟨c, tail, he, hc⟩, he]
  rintro ⟨after, hafter⟩
  have hhead : '-' = c := (List.cons.inj hafter).1
  exact hne hhead.symm

/-- Before a key, the part for a mode is decided by its mark. -/
theorem modePhrase_iff {cs mid rest : List Char} {mode? : Option Mode} {key : Key}
    (hkey : KeyField mid key rest) : ModePhrase cs mode? mid ↔ ModeField cs mode? mid := by
  constructor
  · intro h
    cases mode? with
    | none =>
      obtain ⟨rfl, -⟩ := h
      exact .absent
    | some mode => exact .present h
  · intro h
    cases h with
    | absent => exact ⟨rfl, not_modeMark_of_keyField hkey⟩
    | present hfield => exact hfield

/-- A binding is read exactly where its clause starts. The flag of a mode is never read as a key. -/
theorem readsClause_binding : ReadsClause .bind binding := by
  refine ⟨_, realizes_mode.bind fun mode? => realizes_key.bind fun key =>
    realizes_exCommand.bind fun command => Realizes.pure id _, ?_⟩
  intro cs node
  constructor
  · rintro ⟨rest, ⟨mode?, mid, hmode, key, last, hkey, command, _, ⟨hcommand, rfl⟩, rfl, rfl⟩, -⟩
    exact .binding ((modePhrase_iff hkey).mp hmode) hkey hcommand
  · intro hclause
    cases hclause with
    | @binding _ mid rest mode? key command hmode hkey hcommand =>
      exact ⟨[], ⟨mode?, mid, (modePhrase_iff hkey).mpr hmode, key, rest, hkey, command, [],
        ⟨hcommand, rfl⟩, rfl, rfl⟩, blanks_nil⟩

/-- An unbinding is read exactly where its clause starts, up to the key. -/
theorem realizes_unbinding : Realizes id unbinding (ClauseTo .unbind) := by
  refine (realizes_mode.bind fun mode? => realizes_key.bind fun key =>
    Realizes.pure id _).congr ?_
  intro cs node rest
  constructor
  · rintro ⟨mode?, mid, hmode, key, last, hkey, rfl, rfl⟩
    exact .unbinding ((modePhrase_iff hkey).mp hmode) hkey
  · intro hclause
    cases hclause with
    | @unbinding _ mid _ mode? key hmode hkey =>
      exact ⟨mode?, mid, (modePhrase_iff hkey).mpr hmode, key, rest, hkey, rfl, rfl⟩

/-- The grammar of a keyword that runs no command reads its clause up to some place. -/
theorem realizes_clauseTo {keyword : Keyword} (h : keyword.endsEarly = true) :
    Realizes id (ofKeyword keyword) (ClauseTo keyword) := by
  cases keyword with
  | aliasDef => exact realizes_aliasDef
  | autocontain => exact realizes_autocontain
  | unbind => exact realizes_unbinding
  | quickmark => exact realizes_quickmark
  | set => exact realizes_setting
  | autocmd | bind | command => exact absurd h (by decide)

/-- The grammar of every keyword reads its clause. -/
theorem readsClause (keyword : Keyword) : ReadsClause keyword (ofKeyword keyword) := by
  by_cases hends : keyword.endsEarly = true
  · exact ⟨_, realizes_clauseTo hends, fun cs node => clauseTo_iff hends⟩
  · cases keyword with
    | autocmd => exact readsClause_autocmd
    | bind => exact readsClause_binding
    | command => exact readsClause_commandDef
    | aliasDef | autocontain | unbind | quickmark | set => exact absurd rfl hends

/-- What sees blanks sees nothing. -/
theorem sees_nil {progress : Progress} {cs : List Char} (h : progress.Sees cs)
    (hblanks : Blanks cs) : progress.Sees [] :=
  h.trans (dropWhile_eq_nil_iff_blanks.mpr hblanks)

/-- A statement is the clause of its keyword, up to the end of the line. -/
theorem realizes_statement (keyword : Keyword) :
    Realizes id (statement keyword) (fun cs node rest => Clause keyword cs node ∧ rest = []) := by
  obtain ⟨Phrase, hreads, hclause⟩ := readsClause keyword
  have hparts := hreads.bind fun node => realizes_finish.bind fun _ => Realizes.pure id node
  constructor
  · intro progress later cs node hsees hend hr
    obtain ⟨rest, ⟨found, mid, hphrase, -, last, ⟨hblanks, rfl⟩, hfound, rfl⟩, -, hlater⟩ :=
      hparts.sound hsees hend hr
    refine ⟨[], ⟨?_, rfl⟩, fieldEnd_nil, sees_nil hlater hblanks⟩
    rw [hfound]
    exact (hclause cs found).mp ⟨rest, hphrase, hblanks⟩
  · intro progress cs rest node hsees hend hphrase
    obtain ⟨hmeaning, rfl⟩ := hphrase
    obtain ⟨mid, hread, hblanks⟩ := (hclause cs node).mpr hmeaning
    obtain ⟨value, later, hr, hshown, -, hlater⟩ := hparts.complete hsees hend
      ⟨node, mid, hread, (), mid, ⟨hblanks, rfl⟩, rfl, rfl⟩
    exact ⟨value, later, hr, hshown, fieldEnd_nil, sees_nil hlater hblanks⟩

end Grammar

end RcScript
