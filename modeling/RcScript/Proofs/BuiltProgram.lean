import RcScript.Program.Build
import RcScript.Proofs.FormatStability
import RcScript.Proofs.PartField

/-!
# Built programs and their text

The builder takes any text for a name, a word, a pattern or a URL. A program whose
texts hold no white space, apart from comments and the arguments of commands, is
written with one line for each statement, and each line is read back either as the
statement that was built or as malformed, with the line verbatim. It is read back as
built exactly when every field is of the class that the language has for it. No line
is read as another statement than was built.
-/

namespace RcScript

open Text

/-- What an `autocmd` runs is named as the language allows. -/
def Action.Conforms : Action → Prop
  | exCommand command => CommandName command.name
  | aliasName name => Pattern.identifier.Lang name.toList

/-- A node of which every field is of the class that the language has for it. -/
def Node.Conforms : Node → Prop
  | aliasDef name expansion => Pattern.identifier.Lang name.toList ∧ expansion ≠ [] ∧
      ∀ word ∈ expansion, Pattern.identifier.Lang word.toList
  | autocmd _ pattern action => Pattern.domain.Lang pattern.toList ∧ action.Conforms
  | autocontain flag pattern container => (Grammar.patternOf flag).Lang pattern.toList ∧
      Pattern.identifier.Lang container.toList
  | binding _ key command => key.Valid ∧ CommandName command.name
  | unbinding _ key => key.Valid
  | commandDef name command => Pattern.identifier.Lang name.toList ∧ CommandName command.name
  | exCommand command => CommandName command.name
  | quickmark key url => (Key.single key).Valid ∧ Pattern.url.Lang url.toList
  | setting name values => Pattern.identifier.Lang name.toList ∧ ∀ value ∈ values, value.Valid
  | comment _ => True
  | blank => True
  | malformed _ _ => False

namespace Program

/-- The programs that the builder makes of parts without white space. A comment stays on
its line; a command on a line of its own is not taken for a statement of another kind;
and what an `autocmd` runs is a command where its name is listed or it has arguments,
and an alias where not. A node may be added as it is if it is a comment or stands in
another such program. Out of scope are the nodes that `add` takes and no other step makes:
a malformed line, and a setting with a value that `setting` makes of no text, such as the
word `12` or the number `a`. -/
inductive Built : Program → Prop
  | empty : Built empty
  | node {program other : Program} {node : Node} : Built program → Built other →
      node ∈ other.nodes → Built (program.add node)
  | commentNode {program : Program} {text : String} : Built program → '\n' ∉ text.toList →
      ¬ EndsInReturn text → Built (program.add (.comment text))
  | comment {program : Program} {text : String} : Built program → '\n' ∉ text.toList →
      ¬ EndsInReturn text → Built (program.comment text)
  | blank {program : Program} : Built program → Built program.blank
  | aliasDef {program : Program} {name : String} {expansion : List String} : Built program →
      Part name → (∀ word ∈ expansion, Part word) → Built (program.aliasDef name expansion)
  | bindKey {program : Program} {key : Key} {command : ExCommand} : Built program →
      Part key.toText → command.Tidy → Built (program.bindKey key command)
  | bindKeyIn {program : Program} {mode : Mode} {key : Key} {command : ExCommand} :
      Built program → Part key.toText → command.Tidy → Built (program.bindKeyIn mode key command)
  | unbindKey {program : Program} {mode : Option Mode} {key : Key} : Built program →
      Part key.toText → Built (program.unbindKey mode key)
  | commandDef {program : Program} {name : String} {command : ExCommand} : Built program →
      Part name → command.Tidy → Built (program.commandDef name command)
  | run {program : Program} {command : ExCommand} : Built program → command.Tidy →
      command.name ∉ Keyword.all.map Keyword.literal →
      command.name.toList.head? ≠ some '"' → command.name.toList.head? ≠ some byteOrderMark →
      Built (program.run command)
  | autocmd {program : Program} {event : Event} {pattern : String} {command : ExCommand} :
      Built program → Part pattern → command.Tidy →
      (command.args = none → command.name ∈ commandNames) →
      Built (program.autocmd event pattern command)
  | autocmdAlias {program : Program} {event : Event} {pattern name : String} : Built program →
      Part pattern → Part name → name ∉ commandNames →
      Built (program.autocmdAlias event pattern name)
  | containDomain {program : Program} {domain container : String} : Built program →
      Part domain → Part container → Built (program.containDomain domain container)
  | containUrl {program : Program} {url container : String} : Built program → Part url →
      Part container → Built (program.containUrl url container)
  | quickmark {program : Program} {key : Char} {url : String} : Built program →
      Part (Key.single key).toText → Part url → Built (program.quickmark key url)
  | setting {program : Program} {name : String} {values : List String} : Built program →
      Part name → (∀ value ∈ values, Part value) → Built (program.setting name values)

end Program

/-- A line that shows at once is a comment, a statement or a command from its first
character on. -/
theorem denotes_cases {l : List Char} {node : Node} (hvisible : Visible l) (h : Denotes l node) :
    (∃ text, l = '"' :: text) ∨ (∃ keyword rest, Opens keyword l rest ∧ Clause keyword rest node) ∨
      ∃ command, (∀ keyword rest, ¬ Opens keyword l rest) ∧ Invokes l command ∧
        node = .exCommand command := by
  generalize hl : l = line at h
  cases h with
  | blank hblanks => exact absurd (hl ▸ hblanks) (not_blanks_of_visible hvisible)
  | comment hblanks =>
    obtain rfl := eq_nil_of_blanks hvisible hblanks hl
    exact .inl ⟨_, rfl⟩
  | statement hopens hclause => exact .inr (.inl ⟨_, _, hopens, hclause⟩)
  | exCommand hnone hblanks hinvokes =>
    obtain rfl := eq_nil_of_blanks hvisible hblanks hl
    exact .inr (.inr ⟨_, hnone, hinvokes, rfl⟩)

/-- A line that is a keyword and more denotes what its clause allows. -/
theorem denotes_keyword_iff {keyword : Keyword} {rest : List Char} (hend : FieldEnd rest)
    {node : Node} :
    Denotes (keyword.literal.toList ++ rest) node ↔ Clause keyword rest node := by
  have hopens : Opens keyword (keyword.literal.toList ++ rest) rest :=
    ⟨[], blanks_nil, rfl, hend⟩
  constructor
  · intro h
    obtain ⟨c, tail, hliteral, hc⟩ := (isWord_literal keyword).exists_cons
    have hvisible : Visible (keyword.literal.toList ++ rest) :=
      ⟨c, tail ++ rest, by rw [hliteral, List.cons_append], isBlank_of_isWordChar hc⟩
    rcases denotes_cases hvisible h with ⟨text, hquote⟩ | ⟨other, rest', hopens', hclause⟩ |
      ⟨command, hnone, -, -⟩
    · rw [hliteral, List.cons_append] at hquote
      rw [(List.cons.inj hquote).1] at hc
      exact absurd hc (by decide)
    · obtain ⟨rfl, rfl⟩ := opens_unique hopens hopens'
      exact hclause
    · exact absurd hopens (hnone keyword rest)
  · exact .statement hopens

/-- A part that keeps a line whole: it holds no line feed and is firm at its end. -/
def Smooth (part : String) : Prop := '\n' ∉ part.toList ∧ Firm part

/-- A part is smooth, since it holds no white space. -/
theorem Part.smooth {part : String} (h : Part part) : Smooth part := by
  obtain ⟨hne, hwhite⟩ := h
  refine ⟨fun hmem => ?_, hne, fun hlast => ?_⟩
  · exact absurd (hwhite '\n' hmem) (by decide)
  · exact absurd (hwhite '\r' (List.mem_of_getLast? hlast)) (by decide)

/-- A tidy command is smooth, whether its arguments or its name stand at the end. -/
theorem ExCommand.Tidy.smooth {command : ExCommand} (h : command.Tidy) :
    Smooth command.toText := by
  have hne := h.visible.ne_nil
  obtain ⟨hname, hargs⟩ := h
  obtain ⟨name, args⟩ := command
  cases args with
  | none => exact hname.smooth
  | some args =>
    obtain ⟨hvisible, hfeed, hlast⟩ := hargs args rfl
    refine ⟨?_, hne, ?_⟩
    · rw [toList_toText_withArgs]
      simp [hname.smooth.1, hfeed]
    · have htail := getLast?_trail hvisible.ne_nil name.toList []
      rw [List.nil_append, trail_cons, trail_nil, List.append_nil] at htail
      rw [toList_toText_withArgs, htail]
      intro hreturn
      exact absurd (hlast '\r' hreturn) (by decide)

/-- A node whose canonical line is one line of a text and denotes the node, if it
conforms, and nothing else. -/
structure Node.Faithful (node : Node) : Prop where
  /-- The line holds no line feed. -/
  feed : '\n' ∉ node.toText.toList
  /-- No carriage return is lost at its end. -/
  ending : ¬ EndsInReturn node.toText
  /-- No mark is lost at its start. -/
  mark : unmarked node.toText.toList = node.toText.toList
  /-- The line denotes the node or nothing. -/
  means : ∀ other, Denotes node.toText.toList other ↔ node.Conforms ∧ other = node

/-- A statement is faithful if its parts are smooth and its clause holds of nothing
else. -/
theorem faithful_of_clause (keyword : Keyword) {node : Node}
    (htext : node.toText.toList = keyword.literal.toList ++ trail (tailParts node))
    (hne : tailParts node ≠ []) (hparts : ∀ part ∈ tailParts node, Smooth part)
    (hclause : ∀ other, Clause keyword (trail (tailParts node)) other ↔
      node.Conforms ∧ other = node) : node.Faithful := by
  have hword := isWord_literal keyword
  refine ⟨?_, ?_, ?_, ?_⟩
  · rw [htext, List.mem_append, trail, List.mem_flatMap]
    rintro (hliteral | ⟨part, hpart, hmem⟩)
    · exact absurd (hword.2 '\n' hliteral) (by decide)
    · rcases List.mem_cons.mp hmem with hspace | hmem
      · exact absurd hspace (by decide)
      · exact (hparts part hpart).1 hmem
  · have hfirm : ∀ last ∈ (tailParts node).getLast?, Firm last :=
      fun last hlast => (hparts last (List.mem_of_getLast? hlast)).2
    rw [EndsInReturn, htext]
    exact getLast?_of_firm hne hfirm _
  · obtain ⟨c, tail, he, hc⟩ := hword.exists_cons
    rw [htext, he]
    refine if_neg fun hmark => ?_
    rw [List.cons_append, List.head?_cons, Option.some.injEq] at hmark
    rw [hmark] at hc
    exact absurd hc (by decide)
  · intro other
    rw [htext, denotes_keyword_iff (fieldEnd_trail _), hclause]

/-- An alias made of parts is written as a line that means it or nothing. -/
theorem faithful_aliasDef {name : String} {expansion : List String} (hname : Part name)
    (hwords : ∀ word ∈ expansion, Part word) : (Node.aliasDef name expansion).Faithful := by
  refine faithful_of_clause .aliasDef (toList_spaced _ _) (List.cons_ne_nil _ _) ?_ ?_
  · exact List.forall_mem_cons.mpr ⟨hname.smooth, fun word hmem => (hwords word hmem).smooth⟩
  · intro other
    constructor
    · intro h
      cases h with
      | aliasDef hname' hfields hlangs hblanks =>
        obtain ⟨hlang, rfl, rfl⟩ :=
          (patternField_trail_iff (by decide) hname.unbroken).mp hname'
        obtain rfl := fields_trail_eq (fun word hmem => (hwords word hmem).unbroken)
          (fun word hmem => .of_lang (hlangs word hmem) (by decide)) hfields hblanks
        exact ⟨⟨hlang, List.cons_ne_nil _ _, hlangs⟩, rfl⟩
    · rintro ⟨⟨hlang, hne, hlangs⟩, rfl⟩
      obtain ⟨first, more, rfl⟩ := List.exists_cons_of_ne_nil hne
      exact .aliasDef ⟨field_trail _ _, hlang⟩ (fields_trail_self _) hlangs blanks_nil

/-- What a command stands for conforms if the command is named as the language allows. -/
theorem conforms_of_runs {command : ExCommand} {action : Action} (h : Runs command action) :
    action.Conforms ↔ CommandName command.name := by
  cases h with
  | aliasName hmem => exact (or_iff_right hmem).symm
  | listed _ => rfl
  | withArgs => rfl

/-- An automatic command made of parts is written as a line that means it or nothing. Its action has
to be the one that its command is read as. -/
theorem faithful_autocmd {event : Event} {pattern : String} {command : ExCommand}
    {action : Action} (hpattern : Part pattern) (hcommand : command.Tidy)
    (hruns : Runs command action) : (Node.autocmd event pattern action).Faithful := by
  have htext := toText_of_runs hruns
  have hevent := Part.of_event event
  refine faithful_of_clause .autocmd (toList_spaced _ _) (List.cons_ne_nil _ _) ?_ ?_
  · rw [tailParts, htext]
    simp [hevent.smooth, hpattern.smooth, hcommand.smooth]
  · intro other
    rw [Node.Conforms, conforms_of_runs hruns, tailParts, htext]
    constructor
    · intro h
      cases h with
      | @autocmd _ _ _ event' _ _ action' hevent' hpattern' hcommand' hruns' =>
        obtain ⟨hsame, rfl⟩ :=
          (field_trail_iff hevent.unbroken (Part.of_event event').unbroken).mp hevent'
        obtain ⟨hlang, rfl, rfl⟩ :=
          (patternField_trail_iff (by decide) hpattern.unbroken).mp hpattern'
        obtain ⟨hname, rfl⟩ := hcommand.commandField_iff.mp hcommand'
        have hfound : some event' = some event := by
          rw [← Grammar.ofName?_event.mpr hsame, ← Grammar.ofName?_event.mpr rfl]
        obtain rfl := Option.some.inj hfound
        rw [Grammar.runs_iff] at hruns hruns'
        exact ⟨⟨hlang, hname⟩, by rw [← hruns, ← hruns']⟩
    · rintro ⟨⟨hlang, hname⟩, rfl⟩
      exact .autocmd (field_trail _ _) ⟨field_trail _ _, hlang⟩
        (hcommand.commandField_iff.mpr ⟨hname, rfl⟩) hruns

/-- A rule for a container made of parts is written as a line that means it or nothing: a URL that
took in the container as well would leave no field for one. -/
theorem faithful_autocontain {flag : ContainFlag} {pattern container : String}
    (hpattern : Part pattern) (hcontainer : Part container) :
    (Node.autocontain flag pattern container).Faithful := by
  have hflag := Part.of_flag flag
  refine faithful_of_clause .autocontain (toList_spaced _ _) (List.cons_ne_nil _ _) ?_ ?_
  · simp [tailParts, hflag.smooth, hpattern.smooth, hcontainer.smooth]
  · intro other
    constructor
    · intro h
      cases h with
      | autocontainSane hflag' hpattern' hcontainer' hblanks =>
        obtain ⟨hsame, rfl⟩ :=
          (field_trail_iff hflag.unbroken (Part.of_flag .sane).unbroken).mp hflag'
        obtain ⟨hlang, rfl, rfl⟩ :=
          (patternField_trail_iff (by decide) hpattern.unbroken).mp hpattern'
        obtain ⟨hlang', rfl, -⟩ :=
          (patternField_trail_iff (by decide) hcontainer.unbroken).mp hcontainer'
        cases flag with
        | sane => exact ⟨⟨hlang, hlang'⟩, rfl⟩
        | url => exact absurd hsame (by decide)
      | autocontainUrl hflag' hurl hcontainer' hblanks =>
        obtain ⟨hsame, rfl⟩ :=
          (field_trail_iff hflag.unbroken (Part.of_flag .url).unbroken).mp hflag'
        obtain ⟨hlang, rfl, rfl⟩ :=
          urlField_trail_field hpattern.unbroken hcontainer.unbroken hurl hcontainer'.1
        obtain ⟨hlang', rfl, -⟩ :=
          (patternField_trail_iff (by decide) hcontainer.unbroken).mp hcontainer'
        cases flag with
        | sane => exact absurd hsame (by decide)
        | url => exact ⟨⟨hlang, hlang'⟩, rfl⟩
    · rintro ⟨⟨hlang, hlang'⟩, rfl⟩
      cases flag with
      | sane =>
        exact .autocontainSane (field_trail _ _) ⟨field_trail _ _, hlang⟩
          ⟨field_trail _ _, hlang'⟩ blanks_nil
      | url =>
        exact .autocontainUrl (field_trail _ _) (urlField_iff.mpr ⟨field_trail _ _, hlang⟩)
          ⟨field_trail _ _, hlang'⟩ blanks_nil

/-- The flag and the name of a mode are smooth. -/
theorem smooth_modeParts (mode? : Option Mode) : ∀ part ∈ modeParts mode?, Smooth part := by
  cases mode? with
  | none => simp [modeParts]
  | some mode => simp [modeParts, (Part.of_mode mode).smooth]

/-- A binding of a key is written as a line that means it or nothing. -/
theorem faithful_binding {mode? : Option Mode} {key : Key} {command : ExCommand}
    (hkey : Part key.toText) (hcommand : command.Tidy) :
    (Node.binding mode? key command).Faithful := by
  refine faithful_of_clause .bind (toList_spaced _ _) (by simp [tailParts]) ?_ ?_
  · intro part hmem
    rcases List.mem_append.mp hmem with hmode | hmem
    · exact smooth_modeParts mode? part hmode
    · rcases List.mem_cons.mp hmem with rfl | hmem
      · exact hkey.smooth
      · rw [List.mem_singleton.mp hmem]
        exact hcommand.smooth
  · intro other
    constructor
    · intro h
      cases h with
      | binding hmode hkey' hcommand' =>
        obtain ⟨hvalid, rfl, rfl, rfl⟩ := modeField_trail_eq hkey.unbroken hmode hkey'
        obtain ⟨hname, rfl⟩ := hcommand.commandField_iff.mp hcommand'
        exact ⟨⟨hvalid, hname⟩, rfl⟩
    · rintro ⟨⟨hvalid, hname⟩, rfl⟩
      exact .binding (modeField_trail mode? _) ⟨field_trail _ _, hvalid⟩
        (hcommand.commandField_iff.mpr ⟨hname, rfl⟩)

/-- An unbinding of a key is written as a line that means it or nothing. -/
theorem faithful_unbinding {mode? : Option Mode} {key : Key} (hkey : Part key.toText) :
    (Node.unbinding mode? key).Faithful := by
  refine faithful_of_clause .unbind (toList_spaced _ _) (by simp [tailParts]) ?_ ?_
  · intro part hmem
    rcases List.mem_append.mp hmem with hmode | hmem
    · exact smooth_modeParts mode? part hmode
    · rw [List.mem_singleton.mp hmem]
      exact hkey.smooth
  · intro other
    constructor
    · intro h
      cases h with
      | unbinding hmode hkey' hblanks =>
        obtain ⟨hvalid, rfl, rfl, -⟩ := modeField_trail_eq hkey.unbroken hmode hkey'
        exact ⟨hvalid, rfl⟩
    · rintro ⟨hvalid, rfl⟩
      exact .unbinding (modeField_trail mode? _) ⟨field_trail _ _, hvalid⟩ blanks_nil

/-- The definition of a command is written as a line that means it or nothing. -/
theorem faithful_commandDef {name : String} {command : ExCommand} (hname : Part name)
    (hcommand : command.Tidy) : (Node.commandDef name command).Faithful := by
  refine faithful_of_clause .command (toList_spaced _ _) (List.cons_ne_nil _ _) ?_ ?_
  · simp [tailParts, hname.smooth, hcommand.smooth]
  · intro other
    constructor
    · intro h
      cases h with
      | commandDef hname' hcommand' =>
        obtain ⟨hlang, rfl, rfl⟩ :=
          (patternField_trail_iff (by decide) hname.unbroken).mp hname'
        obtain ⟨hlisted, rfl⟩ := hcommand.commandField_iff.mp hcommand'
        exact ⟨⟨hlang, hlisted⟩, rfl⟩
    · rintro ⟨⟨hlang, hlisted⟩, rfl⟩
      exact .commandDef ⟨field_trail _ _, hlang⟩
        (hcommand.commandField_iff.mpr ⟨hlisted, rfl⟩)

/-- A quickmark made of parts is written as a line that means it or nothing. -/
theorem faithful_quickmark {key : Char} {url : String} (hkey : Part (Key.single key).toText)
    (hurl : Part url) : (Node.quickmark key url).Faithful := by
  refine faithful_of_clause .quickmark (toList_spaced _ _) (List.cons_ne_nil _ _) ?_ ?_
  · have hparts : ∀ part ∈ [(Key.single key).toText, url], Smooth part := by
      simp [hkey.smooth, hurl.smooth]
    exact hparts
  · intro other
    constructor
    · intro h
      cases h with
      | quickmark hkey' hurl' hblanks =>
        obtain ⟨hvalid, hsame, rfl⟩ := (keyField_trail_iff hkey.unbroken).mp hkey'
        obtain rfl := Key.single.inj hsame
        obtain ⟨hlang, rfl⟩ := urlField_trail_last hurl.unbroken hurl'
        exact ⟨⟨hvalid, hlang⟩, rfl⟩
    · rintro ⟨⟨hvalid, hlang⟩, rfl⟩
      exact .quickmark ⟨field_trail _ _, hvalid⟩ (urlField_iff.mpr ⟨field_trail _ _, hlang⟩)
        blanks_nil

namespace SettingValue

/-- The value made of a text has that text, as a word or as a number. -/
theorem text_ofText (text : String) : (ofText text).text = text := by
  rw [ofText]
  split <;> rfl

/-- A value of the language is told from its text. -/
theorem ofText_text {value : SettingValue} (h : value.Valid) : ofText value.text = value := by
  cases value with
  | number text =>
    have hdigits : text.toList.all Char.isDigit = true := List.all_eq_true.mpr h.2
    have hne : text.toList.isEmpty = false := by simpa using h.1
    rw [ofText, SettingValue.text, hdigits, hne]
    rfl
  | word text =>
    obtain ⟨c, tail, he⟩ := List.exists_cons_of_ne_nil h.1
    have hc := isDigit_of_isNameChar (h.2 c (by rw [he]; exact List.mem_cons_self))
    have hdigits : text.toList.all Char.isDigit = false := by simp [he, hc]
    rw [ofText, SettingValue.text, hdigits, Bool.and_false]
    rfl

/-- Values of the language are told from their texts. -/
theorem map_ofText {values : List SettingValue} (h : ∀ value ∈ values, value.Valid) :
    (values.map text).map ofText = values := by
  rw [List.map_map]
  exact (List.map_congr_left fun value hmem => ofText_text (h value hmem)).trans (List.map_id _)

end SettingValue

/-- A setting made of parts is written as a line that means it or nothing, since a word and a number
never have the same text. -/
theorem faithful_setting {name : String} {texts : List String} (hname : Part name)
    (htexts : ∀ text ∈ texts, Part text) :
    (Node.setting name (texts.map SettingValue.ofText)).Faithful := by
  have hparts : (texts.map SettingValue.ofText).map SettingValue.text = texts := by
    rw [List.map_map]
    exact List.map_id'' SettingValue.text_ofText texts
  refine faithful_of_clause .set (toList_spaced _ _) (List.cons_ne_nil _ _) ?_ ?_
  · rw [tailParts, hparts]
    exact List.forall_mem_cons.mpr ⟨hname.smooth, fun text hmem => (htexts text hmem).smooth⟩
  · intro other
    rw [tailParts, hparts]
    constructor
    · intro h
      cases h with
      | setting hname' hfields hvalues hblanks =>
        obtain ⟨hlang, rfl, rfl⟩ :=
          (patternField_trail_iff (by decide) hname.unbroken).mp hname'
        obtain rfl := fields_trail_eq (fun text hmem => (htexts text hmem).unbroken)
          (List.forall_mem_map.mpr fun value hmem => .of_value (hvalues value hmem)) hfields
          hblanks
        rw [SettingValue.map_ofText hvalues]
        exact ⟨⟨hlang, hvalues⟩, rfl⟩
    · rintro ⟨⟨hlang, hvalues⟩, rfl⟩
      have hfields := fields_trail_self texts
      exact .setting ⟨field_trail _ _, hlang⟩ (hparts.symm ▸ hfields) hvalues blanks_nil

/-- A command whose name opens no other statement is written as a line that means it or nothing. -/
theorem faithful_exCommand {command : ExCommand} (hcommand : command.Tidy)
    (hkeyword : command.name ∉ Keyword.all.map Keyword.literal)
    (hquote : command.name.toList.head? ≠ some '"')
    (hmark : command.name.toList.head? ≠ some byteOrderMark) :
    (Node.exCommand command).Faithful := by
  obtain ⟨hfeed, -, hending⟩ := hcommand.smooth
  obtain ⟨rest, htext, -⟩ := command.exists_rest
  obtain ⟨c, tail, he⟩ := List.exists_cons_of_ne_nil hcommand.1.1
  rw [he, List.cons_append] at htext
  rw [he, List.head?_cons] at hquote hmark
  refine ⟨hfeed, hending, ?_, ?_⟩
  · rw [Node.toText, htext]
    exact if_neg hmark
  · intro other
    rw [Node.toText, Node.Conforms]
    constructor
    · intro h
      rcases denotes_cases hcommand.visible h with ⟨text, hline⟩ | ⟨keyword, rest', hopens, -⟩ |
        ⟨found, -, hinvokes, rfl⟩
      · rw [htext] at hline
        exact absurd (congrArg some (List.cons.inj hline).1) hquote
      · exact absurd hopens (hcommand.not_opens hkeyword keyword rest')
      · obtain ⟨hname, rfl⟩ := hcommand.invokes_iff.mp hinvokes
        exact ⟨hname, rfl⟩
    · rintro ⟨hname, rfl⟩
      have hopens := hcommand.not_opens hkeyword
      rw [← List.nil_append command.toText.toList] at hopens ⊢
      exact .exCommand hopens blanks_nil (hcommand.invokes hname)

/-- A line that denotes a node that conforms denotes that node alone. -/
theorem means_of_denotes {l : List Char} {node : Node} (h : Denotes l node)
    (hconforms : node.Conforms) (other : Node) :
    Denotes l other ↔ node.Conforms ∧ other = node := by
  constructor
  · intro h'
    exact ⟨hconforms, denotes_unique h' h⟩
  · rintro ⟨-, rfl⟩
    exact h

/-- A blank line means itself. -/
theorem faithful_blank : Node.blank.Faithful :=
  ⟨by decide, by decide, rfl, means_of_denotes (.blank blanks_nil) trivial⟩

/-- A comment on one line means itself, if no carriage return stands at its end. -/
theorem faithful_comment {text : String} (hfeed : '\n' ∉ text.toList)
    (hreturn : ¬ EndsInReturn text) : (Node.comment text).Faithful := by
  have htext : (Node.comment text).toText.toList = '"' :: text.toList := by
    rw [toList_comment, trimReturns_of_not_endsInReturn hreturn]
  refine ⟨?_, ?_, ?_, ?_⟩
  · rw [htext]
    simp [hfeed]
  · rw [EndsInReturn, htext]
    cases htail : text.toList with
    | nil => decide
    | cons c tail =>
      rw [List.getLast?_cons_cons, ← htail]
      exact hreturn
  · rw [htext]
    exact if_neg (by simp [byteOrderMark])
  · have hdenotes : Denotes ([] ++ '"' :: text.toList) (.comment (String.ofList text.toList)) :=
      .comment blanks_nil
    rw [String.ofList_toList] at hdenotes
    rw [htext]
    exact means_of_denotes hdenotes trivial

/-- A space in front does not change how a text ends. -/
theorem endsInReturn_space (text : String) : EndsInReturn (" " ++ text) ↔ EndsInReturn text := by
  have hspace : (" " ++ text).toList = ' ' :: text.toList := String.toList_append
  rw [EndsInReturn, EndsInReturn, hspace]
  cases text.toList with
  | nil => decide
  | cons c tail => rw [List.getLast?_cons_cons]

namespace Program

/-- A program whose nodes are written faithfully remains one when such a node is added. -/
theorem faithful_add {program : Program} {node : Node}
    (h : ∀ other ∈ program.nodes, other.Faithful) (hnode : node.Faithful) :
    ∀ other ∈ (program.add node).nodes, other.Faithful := by
  intro other hmem
  rw [nodes, add, List.map_append, List.mem_append] at hmem
  rcases hmem with hmem | hmem
  · exact h other hmem
  · rw [List.mem_singleton.mp hmem]
    exact hnode

/-- Every node of a built program is faithful. -/
theorem Built.faithful {program : Program} (h : program.Built) :
    ∀ node ∈ program.nodes, node.Faithful := by
  induction h with
  | empty => simp [nodes, Program.empty]
  | node _ _ hmem ih ihOther => exact faithful_add ih (ihOther _ hmem)
  | commentNode _ hfeed hreturn ih => exact faithful_add ih (faithful_comment hfeed hreturn)
  | comment _ hfeed hreturn ih =>
    refine faithful_add ih (faithful_comment ?_ (mt (endsInReturn_space _).mp hreturn))
    rw [String.toList_append]
    simp [hfeed]
  | blank _ ih => exact faithful_add ih faithful_blank
  | aliasDef _ hname hwords ih => exact faithful_add ih (faithful_aliasDef hname hwords)
  | bindKey _ hkey hcommand ih => exact faithful_add ih (faithful_binding hkey hcommand)
  | bindKeyIn _ hkey hcommand ih => exact faithful_add ih (faithful_binding hkey hcommand)
  | unbindKey _ hkey ih => exact faithful_add ih (faithful_unbinding hkey)
  | commandDef _ hname hcommand ih => exact faithful_add ih (faithful_commandDef hname hcommand)
  | run _ hcommand hkeyword hquote hmark ih =>
    exact faithful_add ih (faithful_exCommand hcommand hkeyword hquote hmark)
  | @autocmd _ _ _ command _ hpattern hcommand hlisted ih =>
    refine faithful_add ih (faithful_autocmd hpattern hcommand ?_)
    obtain ⟨name, args⟩ := command
    cases args with
    | none => exact .listed (hlisted rfl)
    | some args => exact .withArgs
  | @autocmdAlias _ _ _ name _ hpattern hname hmem ih =>
    have hcommand : ExCommand.Tidy ⟨name, none⟩ := ⟨hname, by simp⟩
    exact faithful_add ih (faithful_autocmd hpattern hcommand (.aliasName hmem))
  | containDomain _ hdomain hcontainer ih =>
    exact faithful_add ih (faithful_autocontain hdomain hcontainer)
  | containUrl _ hurl hcontainer ih =>
    exact faithful_add ih (faithful_autocontain hurl hcontainer)
  | quickmark _ hkey hurl ih => exact faithful_add ih (faithful_quickmark hkey hurl)
  | setting _ hname hvalues ih => exact faithful_add ih (faithful_setting hname hvalues)

end Program

/-- The line of a faithful node is read as the node if the node conforms, and as
malformed if not. -/
theorem ReadAt.again_of_faithful {index : Nat} {node again : Node} (h : node.Faithful)
    (hagain : ReadAt index (canonicalLine node).content again) :
    (node.Conforms → again = node) ∧
      (¬ node.Conforms → ∃ diagnostic, again = .malformed diagnostic node.toText) := by
  rw [content_canonicalLine h.ending] at hagain
  have htext : lineText (index = 0) node.toText.toList = node.toText.toList := by
    rw [lineText, h.mark, ite_self]
  constructor
  · intro hconforms
    refine hagain.eq_of_denotes ?_
    rw [htext]
    exact (h.means node).mpr ⟨hconforms, rfl⟩
  · intro hconforms
    rcases hagain.denotes_or_malformed with hdenotes | ⟨⟨diagnostic, hmalformed⟩, -⟩
    · rw [htext, h.means] at hdenotes
      exact absurd hdenotes.1 hconforms
    · rw [String.ofList_toList] at hmalformed
      exact ⟨diagnostic, hmalformed⟩

namespace Program

/-- A built program is read back from its text statement by statement: as built where
the statement conforms, and as malformed, with the line verbatim, where it does not. -/
theorem parse_format_of_built {program : Program} (h : program.Built) :
    (parse program.format).statements.length = program.statements.length ∧
      ∀ (index : Nat) (built again : Node), program.nodes[index]? = some built →
        (parse program.format).nodes[index]? = some again →
        (built.Conforms → again = built) ∧
          (¬ built.Conforms → ∃ diagnostic, again = .malformed diagnostic built.toText) := by
  have hlines : lines program.format.toList = program.nodes.map canonicalLine := by
    rw [toList_format, lines_flatMap_toText fun node hmem => (h.faithful node hmem).feed]
  have hlength := length_nodes_parse program.format
  rw [hlines, nodes, nodes, List.length_map, List.length_map, List.length_map] at hlength
  refine ⟨hlength, ?_⟩
  intro index built again hbuilt hagain
  have hline : (lines program.format.toList)[index]? = some (canonicalLine built) := by
    rw [hlines, List.getElem?_map, hbuilt, Option.map_some]
  obtain ⟨found, hfound, -, hread⟩ := exists_readAt hline
  rw [hagain, Option.some.injEq] at hfound
  subst hfound
  exact hread.again_of_faithful (h.faithful built (List.mem_of_getElem? hbuilt))

/-- A program with a binding, a rule whose URL is too short, an alias and a setting. -/
def mixedProgram : Program :=
  ((((empty.comment "made").bindKeyIn .hint (.ctrl 'j') ((ExCommand.ofName "open").arg "-c")
    ).containUrl "http://a" "work").autocmdAlias .docStart "a.b" "greet").setting "delay" ["300"]

/-- The statements of `mixedProgram` are read back, or refused, one by one. -/
theorem parse_format_mixedProgram :
    (parse mixedProgram.format).statements.length = mixedProgram.statements.length ∧
      ∀ (index : Nat) (built again : Node), mixedProgram.nodes[index]? = some built →
        (parse mixedProgram.format).nodes[index]? = some again →
        (built.Conforms → again = built) ∧
          (¬ built.Conforms → ∃ diagnostic, again = .malformed diagnostic built.toText) := by
  have hcomment : (empty.comment "made").Built := .comment .empty (by decide) (by decide)
  have hbuilt : mixedProgram.Built :=
    .setting (.autocmdAlias (.containUrl (.bindKeyIn hcomment (by decide) (by decide))
      (by decide) (by decide)) (by decide) (by decide) (by decide)) (by decide) (by decide)
  exact parse_format_of_built hbuilt

end Program

end RcScript
