import RcScript.Grammar
import RcScript.Proofs.PatternLanguage

/-!
# The grammar of the language

What a line denotes is stated here without reference to cursors, tokens or the
order in which alternatives are tried. A statement is a keyword and the fields
that its clause asks for. Every field stands behind a gap and ends at a blank or
with the line. A command takes all that is left of its line as arguments. A line
that denotes nothing is malformed; no claim is made here about what is said of it.
-/

namespace RcScript

open Text

/-- A run of blanks, which may be empty. -/
def Blanks (cs : List Char) : Prop := ∀ c ∈ cs, isBlank c = true

/-- A run of blanks that parts two fields. -/
def Gap (cs : List Char) : Prop := cs ≠ [] ∧ Blanks cs

/-- A gap and then the text of a field, which ends at a blank or with the line. -/
def Field (cs : List Char) (text : String) (rest : List Char) : Prop :=
  ∃ gap, Gap gap ∧ cs = gap ++ (text.toList ++ rest) ∧ FieldEnd rest

/-- Some fields, one behind the other. -/
inductive Fields : List Char → List String → List Char → Prop
  | nil {cs : List Char} : Fields cs [] cs
  | cons {cs mid rest : List Char} {text : String} {texts : List String} :
      Field cs text mid → Fields mid texts rest → Fields cs (text :: texts) rest

/-- A field that is a word of a pattern. -/
def PatternField (pattern : Pattern) (cs : List Char) (text : String) (rest : List Char) : Prop :=
  Field cs text rest ∧ pattern.Lang text.toList

/-- A field that is the longest URL at its place. -/
def UrlField (cs : List Char) (text : String) (rest : List Char) : Prop :=
  Field cs text rest ∧ Pattern.url.Longest (text.toList ++ rest) text.toList

/-- The keys that the language can write. -/
def Key.Valid : Key → Prop
  | single key => isLetter key = true
  | compound modifier key => isModifier modifier = true ∧ isLetter key = true

/-- The pattern of the texts of a key. -/
def Key.pattern : Key → Pattern
  | single _ => .singleKey
  | compound _ _ => .compoundKey

/-- The text of a key is a word of its pattern exactly when the language can write the key. -/
theorem Key.lang_toText {key : Key} : key.pattern.Lang key.toText.toList ↔ key.Valid := by
  cases key with
  | single k => simp [pattern, toText, Pattern.Lang, Valid]
  | compound m k => simp [pattern, toText, Pattern.Lang, Valid]

/-- A word of a pattern of keys is the text of a key. -/
theorem Key.exists_of_lang {pattern : Pattern} {w : List Char}
    (hmem : pattern ∈ [.compoundKey, .singleKey]) (h : pattern.Lang w) :
    ∃ key : Key, w = key.toText.toList ∧ key.Valid := by
  simp only [List.mem_cons, List.not_mem_nil, or_false] at hmem
  rcases hmem with rfl | rfl
  · obtain ⟨m, k, hm, hk, rfl⟩ := h
    exact ⟨.compound m k, String.toList_ofList.symm, hm, hk⟩
  · obtain ⟨k, hk, rfl⟩ := h
    exact ⟨.single k, String.toList_ofList.symm, hk⟩

/-- A field that is a key. -/
def KeyField (cs : List Char) (key : Key) (rest : List Char) : Prop :=
  Field cs key.toText rest ∧ key.Valid

/-- A field that limits a binding to a mode, or nothing. -/
inductive ModeField : List Char → Option Mode → List Char → Prop
  | absent {cs : List Char} : ModeField cs none cs
  | present {cs rest : List Char} {mode : Mode} :
      Field cs ("--mode=" ++ mode.name) rest → ModeField cs (some mode) rest

/-- The values that a setting can be given. -/
def SettingValue.Valid : SettingValue → Prop
  | word text => Pattern.identifier.Lang text.toList
  | number text => Pattern.number.Lang text.toList

/-- The names that a command can be called by. -/
def CommandName (name : String) : Prop :=
  name ∈ commandNames ∨ Pattern.identifier.Lang name.toList

/-- A command that takes all of a text, from its name on. -/
inductive Invokes : List Char → ExCommand → Prop
  | bare {name : String} {blanks : List Char} : CommandName name → Blanks blanks →
      Invokes (name.toList ++ blanks) ⟨name, none⟩
  | withArgs {name : String} {gap : List Char} {first : Char} {later : List Char} :
      CommandName name → Gap gap → isBlank first = false →
      Invokes (name.toList ++ (gap ++ first :: later))
        ⟨name, some (String.ofList (trimEnd isWhiteSpace (first :: later)))⟩

/-- A gap and then a command, up to the end of the line. -/
def CommandField (cs : List Char) (command : ExCommand) : Prop :=
  ∃ gap body, Gap gap ∧ cs = gap ++ body ∧ Invokes body command

/-- What a command stands for in an `autocmd`: an alias if its name is not listed
and it has no arguments. -/
inductive Runs : ExCommand → Action → Prop
  | aliasName {name : String} : name ∉ commandNames → Runs ⟨name, none⟩ (.aliasName name)
  | listed {name : String} : name ∈ commandNames → Runs ⟨name, none⟩ (.exCommand ⟨name, none⟩)
  | withArgs {name args : String} :
      Runs ⟨name, some args⟩ (.exCommand ⟨name, some args⟩)

/-- What follows a keyword, up to the end of the line, with its meaning. -/
inductive Clause : Keyword → List Char → Node → Prop
  | aliasDef {cs mid rest : List Char} {name first : String} {more : List String} :
      PatternField .identifier cs name mid → Fields mid (first :: more) rest →
      (∀ text ∈ first :: more, Pattern.identifier.Lang text.toList) → Blanks rest →
      Clause .aliasDef cs (.aliasDef name (first :: more))
  | autocmd {cs mid rest : List Char} {event : Event} {pattern : String} {command : ExCommand}
      {action : Action} :
      Field cs event.name mid → PatternField .domain mid pattern rest →
      CommandField rest command → Runs command action →
      Clause .autocmd cs (.autocmd event pattern action)
  | autocontainSane {cs mid last rest : List Char} {pattern container : String} :
      Field cs "-s" mid → PatternField .domain mid pattern last →
      PatternField .identifier last container rest → Blanks rest →
      Clause .autocontain cs (.autocontain .sane pattern container)
  | autocontainUrl {cs mid last rest : List Char} {pattern container : String} :
      Field cs "-u" mid → UrlField mid pattern last →
      PatternField .identifier last container rest → Blanks rest →
      Clause .autocontain cs (.autocontain .url pattern container)
  | binding {cs mid rest : List Char} {mode : Option Mode} {key : Key} {command : ExCommand} :
      ModeField cs mode mid → KeyField mid key rest → CommandField rest command →
      Clause .bind cs (.binding mode key command)
  | unbinding {cs mid rest : List Char} {mode : Option Mode} {key : Key} :
      ModeField cs mode mid → KeyField mid key rest → Blanks rest →
      Clause .unbind cs (.unbinding mode key)
  | commandDef {cs rest : List Char} {name : String} {command : ExCommand} :
      PatternField .identifier cs name rest → CommandField rest command →
      Clause .command cs (.commandDef name command)
  | quickmark {cs mid rest : List Char} {key : Char} {url : String} :
      KeyField cs (.single key) mid → UrlField mid url rest → Blanks rest →
      Clause .quickmark cs (.quickmark key url)
  | setting {cs mid rest : List Char} {name : String} {values : List SettingValue} :
      PatternField .identifier cs name mid → Fields mid (values.map SettingValue.text) rest →
      (∀ value ∈ values, value.Valid) → Blanks rest →
      Clause .set cs (.setting name values)

/-- A line whose first field is a keyword, with what follows it. -/
def Opens (keyword : Keyword) (l rest : List Char) : Prop :=
  ∃ blanks, Blanks blanks ∧ l = blanks ++ (keyword.literal.toList ++ rest) ∧ FieldEnd rest

/-- What a line means, if it means anything. -/
inductive Denotes : List Char → Node → Prop
  | blank {l : List Char} : Blanks l → Denotes l .blank
  | comment {blanks text : List Char} : Blanks blanks →
      Denotes (blanks ++ '"' :: text) (.comment (String.ofList text))
  | statement {l rest : List Char} {keyword : Keyword} {node : Node} :
      Opens keyword l rest → Clause keyword rest node → Denotes l node
  | exCommand {blanks body : List Char} {command : ExCommand} :
      (∀ keyword rest, ¬ Opens keyword (blanks ++ body) rest) → Blanks blanks →
      Invokes body command → Denotes (blanks ++ body) (.exCommand command)

/-- The empty text is a run of no blanks. -/
theorem blanks_nil : Blanks [] := by
  simp [Blanks]

/-- Blanks behind blanks are blanks. -/
theorem Blanks.append {before after : List Char} (hb : Blanks before) (ha : Blanks after) :
    Blanks (before ++ after) := by
  intro c hc
  rcases List.mem_append.mp hc with hc | hc
  · exact hb c hc
  · exact ha c hc

/-- A field can end before blanks. -/
theorem Blanks.fieldEnd {cs : List Char} (h : Blanks cs) : FieldEnd cs := by
  intro c hc
  exact h c (List.mem_of_mem_head? hc)

/-- A field can end before a gap. -/
theorem Gap.fieldEnd {gap : List Char} (h : Gap gap) (cs : List Char) : FieldEnd (gap ++ cs) := by
  obtain ⟨hne, hb⟩ := h
  cases gap with
  | nil => exact absurd rfl hne
  | cons c gap => exact fieldEnd_cons.mpr (hb c List.mem_cons_self)

/-- The blanks at the start of a text, up to the first other character. -/
theorem dropWhile_blanks {blanks : List Char} (hb : Blanks blanks) (cs : List Char) :
    (blanks ++ cs).dropWhile isBlank = cs.dropWhile isBlank := by
  rw [List.dropWhile_append_of_pos hb]

/-- A text is its leading blanks and what follows them. -/
theorem exists_blanks (cs : List Char) : ∃ blanks, Blanks blanks ∧
    cs = blanks ++ cs.dropWhile isBlank :=
  ⟨cs.takeWhile isBlank, List.all_eq_true.mp List.all_takeWhile,
    List.takeWhile_append_dropWhile.symm⟩

/-- Nothing is left behind leading blanks exactly when there is nothing else. -/
theorem dropWhile_eq_nil_iff_blanks {cs : List Char} :
    cs.dropWhile isBlank = [] ↔ Blanks cs := by
  constructor
  · intro h
    obtain ⟨blanks, hb, he⟩ := exists_blanks cs
    rw [h, List.append_nil] at he
    exact he ▸ hb
  · intro hb
    have hd := dropWhile_blanks hb []
    rwa [List.append_nil] at hd

/-- A URL that ends as a field is the longest at its place. -/
theorem urlField_iff {cs : List Char} {text : String} {rest : List Char} :
    UrlField cs text rest ↔ PatternField .url cs text rest := by
  constructor
  · intro h
    exact ⟨h.1, h.2.1⟩
  · intro h
    obtain ⟨gap, hgap, hcs, hend⟩ := h.1
    exact ⟨h.1, Pattern.longest_of_fieldEnd h.2 hend⟩

end RcScript
