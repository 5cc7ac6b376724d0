import Mathlib.Data.List.Nodup
import RcScript.Program.Dump

/-!
# Reading the structured form back

Every structured form has a reader, which finds the fields of an object by their names
and the alternatives of a type by their tags, and which gives back the value that was
written. No object of a structured form has two fields of one name, not even where the
fields of a node stand beside its kind, so that none of them hides another. What is said
here is about structured values; how a value is spelled out as text is left out.
-/

namespace RcScript

namespace Json

variable {α : Type}

/-- No object in a value has two fields of one name. -/
inductive Distinct : Json → Prop
  | null : Distinct null
  | number (value : Nat) : Distinct (number value)
  | text (value : String) : Distinct (text value)
  | array {items : List Json} : (∀ item ∈ items, Distinct item) → Distinct (array items)
  | object {fields : List (String × Json)} : (fields.map Prod.fst).Nodup →
      (∀ field ∈ fields, Distinct field.2) → Distinct (object fields)

/-- A number has no fields. -/
@[simp]
theorem distinct_number (value : Nat) : (number value).Distinct := .number value

/-- A text has no fields. -/
@[simp]
theorem distinct_text (value : String) : (text value).Distinct := .text value

/-- The fields of an array are those of its items. -/
@[simp]
theorem distinct_array_iff {items : List Json} :
    (array items).Distinct ↔ ∀ item ∈ items, item.Distinct := by
  constructor
  · rintro ⟨⟩
    assumption
  · exact .array

/-- An object has distinct fields when its own names are distinct and every value in it has them. -/
@[simp]
theorem distinct_object_iff {fields : List (String × Json)} :
    (object fields).Distinct ↔
      (fields.map Prod.fst).Nodup ∧ ∀ field ∈ fields, field.2.Distinct := by
  constructor
  · rintro ⟨⟩
    exact ⟨by assumption, by assumption⟩
  · rintro ⟨hnames, hvalues⟩
    exact .object hnames hvalues

/-- A tag adds one field, which has no other to clash with. -/
@[simp]
theorem distinct_tagged_iff {tag : String} {value : Json} :
    (tagged tag value).Distinct ↔ value.Distinct := by
  simp [tagged]

/-- A value that may be left out has distinct fields in both cases. -/
theorem distinct_ofOption {encode : α → Json} (h : ∀ value, (encode value).Distinct)
    (value? : Option α) : (ofOption encode value?).Distinct := by
  cases value? with
  | none => exact .null
  | some value => exact h value

/-- A text. -/
def text? : Json → Option String
  | text value => some value
  | _ => none

/-- A number. -/
def number? : Json → Option Nat
  | number value => some value
  | _ => none

/-- A text of one character. -/
def char? (value : Json) : Option Char :=
  match value.text?.map String.toList with
  | some [c] => some c
  | _ => none

/-- An array, with `decode` for its items. -/
def array? (decode : Json → Option α) : Json → Option (List α)
  | array items => items.mapM decode
  | _ => none

/-- Null or a value for `decode`. -/
def option? (decode : Json → Option α) : Json → Option (Option α)
  | null => some none
  | value => (decode value).map some

/-- The one of `all` that a text is the name of. -/
def named? (all : List α) (name : α → String) (value : Json) : Option α :=
  value.text?.bind fun text => all.find? fun item => name item == text

/-- The field of an object that has a name, with `decode` for its value. -/
def field? (name : String) (decode : Json → Option α) : Json → Option α
  | object fields => (fields.lookup name).bind decode
  | _ => none

/-- The tag and the value of an object of one field. -/
def tagged? : Json → Option (String × Json)
  | object [field] => some field
  | _ => none

/-- A text is read back from its form. -/
@[simp]
theorem text?_text (value : String) : (text value).text? = some value := rfl

/-- A number is read back from its form. -/
@[simp]
theorem number?_number (value : Nat) : (number value).number? = some value := rfl

/-- A character is read back from the text that it stands alone in. -/
@[simp]
theorem char?_singleton (c : Char) : (text (String.singleton c)).char? = some c := by
  simp [char?]

/-- A field is found by its name, past the fields of other names. -/
@[simp]
theorem field?_cons (name other : String) (decode : Json → Option α) (value : Json)
    (fields : List (String × Json)) : (object ((other, value) :: fields)).field? name decode =
      if name = other then decode value else (object fields).field? name decode := by
  by_cases h : name = other
  · rw [if_pos h, field?, List.lookup_cons, beq_iff_eq.mpr h]
    rfl
  · rw [if_neg h, field?, List.lookup_cons, beq_false_of_ne h]
    rfl

/-- A tag and its value are read back from the object that carries them. -/
@[simp]
theorem tagged?_tagged (tag : String) (value : Json) :
    (tagged tag value).tagged? = some (tag, value) := rfl

/-- Items that can each be read back can be read back together. -/
theorem array?_array {encode : α → Json} {decode : Json → Option α}
    (h : ∀ item, decode (encode item) = some item) (items : List α) :
    (array (items.map encode)).array? decode = some items := by
  rw [array?]
  induction items with
  | nil => rfl
  | cons item items ih => simp [h item, ih]

/-- An option can be read back when its value can and is never written as null. -/
theorem option?_ofOption {encode : α → Json} {decode : Json → Option α}
    (h : ∀ value, decode (encode value) = some value) (hnull : ∀ value, encode value ≠ null)
    (value? : Option α) : (ofOption encode value?).option? decode = some value? := by
  cases value? with
  | none => rfl
  | some value =>
    rw [ofOption, option?, h value]
    · rfl
    · exact hnull value

/-- Names that differ can be read back. -/
theorem named?_text {all : List α} {name : α → String} (hnames : (all.map name).Nodup)
    {item : α} (hitem : item ∈ all) : named? all name (text (name item)) = some item := by
  have hfound : (all.find? fun other => name other == name item).isSome = true :=
    List.find?_isSome.mpr ⟨item, hitem, beq_self_eq_true _⟩
  obtain ⟨other, hother⟩ := Option.isSome_iff_exists.mp hfound
  have hname : name other = name item := by simpa using List.find?_some hother
  have hmem := List.mem_of_find?_eq_some hother
  rw [named?, text?_text, Option.bind_some, hother,
    List.inj_on_of_nodup_map hnames hmem hitem hname]

end Json

open Json

namespace Span

/-- The span that a value is the structured form of. -/
def ofJson? (value : Json) : Option Span :=
  return ⟨← value.field? "start" number?, ← value.field? "end" number?,
    ← value.field? "line" number?, ← value.field? "column" number?⟩

/-- A span is read back from its four numbers. -/
theorem ofJson?_toJson (span : Span) : ofJson? span.toJson = some span := by
  simp [ofJson?, toJson]

/-- The four numbers of a span stand under four names. -/
theorem distinct_toJson (span : Span) : span.toJson.Distinct := by
  simp [toJson]

end Span

/-- Every kind of token. -/
def TokenKind.all : List TokenKind :=
  [keyword, flag, quoteMark, modeName, eventName, compoundKey, domain, url, number, identifier,
    singleKey, remainder]

namespace Token

/-- The token that a value is the structured form of. -/
def ofJson? (value : Json) : Option Token :=
  return ⟨← value.field? "kind" (named? TokenKind.all TokenKind.name),
    ← value.field? "text" text?, ← value.field? "span" Span.ofJson?⟩

/-- A token is read back with its kind, its text and its span. -/
theorem ofJson?_toJson (token : Token) : ofJson? token.toJson = some token := by
  have hkind : named? TokenKind.all TokenKind.name (Json.text token.kind.name) =
      some token.kind :=
    named?_text (by decide) (by cases token.kind <;> decide)
  simp [ofJson?, toJson, hkind, Span.ofJson?_toJson]

/-- The fields of a token and of its span have distinct names. -/
theorem distinct_toJson (token : Token) : token.toJson.Distinct := by
  simp [toJson, token.span.distinct_toJson]

/-- A token is never written as the value that stands for none. -/
theorem toJson_ne_null (token : Token) : token.toJson ≠ null := by
  simp [toJson]

end Token

namespace Key

/-- The key that a value is the structured form of. -/
def ofJson? (value : Json) : Option Key :=
  match value.tagged? with
  | some ("single", letter) => return single (← letter.char?)
  | some ("compound", parts) =>
    return compound (← parts.field? "modifier" char?) (← parts.field? "key" char?)
  | _ => none

/-- A key is read back, and its tag tells a letter from a letter with a modifier. -/
theorem ofJson?_toJson (key : Key) : ofJson? key.toJson = some key := by
  cases key <;> simp [ofJson?, toJson]

/-- A key carries one tag, and the two characters of a compound key stand under two names. -/
theorem distinct_toJson (key : Key) : key.toJson.Distinct := by
  cases key <;> simp [toJson]

end Key

/-- Optional texts are read back. -/
theorem option?_text (text? : Option String) :
    (ofOption Json.text text?).option? Json.text? = some text? :=
  option?_ofOption text?_text (by simp) text?

namespace ExCommand

/-- The command whose fields an object has. -/
def ofJson? (value : Json) : Option ExCommand :=
  return ⟨← value.field? "name" text?, ← value.field? "args" (option? text?)⟩

/-- A command is read back with its name and with whether it has arguments. -/
theorem ofJson?_toJson (command : ExCommand) : ofJson? command.toJson = some command := by
  simp [ofJson?, toJson, jsonFields, option?_text]

/-- The name of a command and its arguments stand under two names. -/
theorem distinct_toJson (command : ExCommand) : command.toJson.Distinct := by
  simp [toJson, jsonFields, distinct_ofOption distinct_text]

end ExCommand

namespace Action

/-- The action that a value is the structured form of. -/
def ofJson? (value : Json) : Option Action :=
  match value.tagged? with
  | some ("ex_command", command) => return exCommand (← ExCommand.ofJson? command)
  | some ("alias", name) => return aliasName (← name.text?)
  | _ => none

/-- An action is read back, and its tag tells a command from the name of an alias. -/
theorem ofJson?_toJson (action : Action) : ofJson? action.toJson = some action := by
  cases action <;> simp [ofJson?, toJson, ExCommand.ofJson?_toJson]

/-- An action carries one tag, and what stands under it has distinct fields. -/
theorem distinct_toJson (action : Action) : action.toJson.Distinct := by
  cases action <;> simp [toJson, ExCommand.distinct_toJson]

end Action

namespace SettingValue

/-- The value of a setting that a value is the structured form of. -/
def ofJson? (value : Json) : Option SettingValue :=
  match value.tagged? with
  | some ("word", text) => return word (← text.text?)
  | some ("number", text) => return number (← text.text?)
  | _ => none

/-- The value of a setting is read back, and its tag tells a word from a number. -/
theorem ofJson?_toJson (value : SettingValue) : ofJson? value.toJson = some value := by
  cases value <;> simp [ofJson?, toJson]

/-- The value of a setting is a text under one tag. -/
theorem distinct_toJson (value : SettingValue) : value.toJson.Distinct := by
  cases value <;> simp [toJson]

end SettingValue

/-- Everything that a grammar can wait for. -/
def Expected.all : List Expected :=
  [identifier, number, event, domain, url, key, singleKey, mode, containFlag, exCommand]

/-- The kind of a statement is read back from its tag. -/
theorem StatementKind.named?_tag (kind : StatementKind) :
    named? all tag (text kind.tag) = some kind :=
  named?_text (by decide) (by cases kind <;> decide)

namespace Cause

/-- The cause that a value is the structured form of. -/
def ofJson? (value : Json) : Option Cause :=
  match value.tagged? with
  | some ("unrecognized_leading_token", parts) =>
    return unrecognized (← parts.field? "found" text?)
  | some ("statement_incomplete", parts) =>
    return incomplete (← parts.field? "statement" (named? StatementKind.all StatementKind.tag))
      (← parts.field? "expected" (named? Expected.all Expected.tag))
      (← parts.field? "found" (option? text?))
  | some ("trailing_input", parts) =>
    return trailing (← parts.field? "statement" (named? StatementKind.all StatementKind.tag))
      (← parts.field? "found" text?)
  | _ => none

/-- The cause of a fault is read back with everything that it names. -/
theorem ofJson?_toJson (cause : Cause) : ofJson? cause.toJson = some cause := by
  have hexpected : ∀ expected : Expected,
      named? Expected.all Expected.tag (text expected.tag) = some expected :=
    fun expected => named?_text (by decide) (by cases expected <;> decide)
  cases cause <;> simp [ofJson?, toJson, StatementKind.named?_tag, hexpected, option?_text]

/-- What a cause names stands under distinct names. -/
theorem distinct_toJson (cause : Cause) : cause.toJson.Distinct := by
  cases cause <;> simp [toJson, distinct_ofOption distinct_text]

end Cause

namespace Diagnostic

/-- The diagnostic that a value is the structured form of. -/
def ofJson? (value : Json) : Option Diagnostic :=
  return ⟨← value.field? "kind" Cause.ofJson?, ← value.field? "span" Span.ofJson?,
    ← value.field? "fallback" (option? Token.ofJson?)⟩

/-- A diagnostic is read back with its cause, its span and the token that it falls back to. -/
theorem ofJson?_toJson (diagnostic : Diagnostic) :
    ofJson? diagnostic.toJson = some diagnostic := by
  have hfallback := option?_ofOption Token.ofJson?_toJson Token.toJson_ne_null
    diagnostic.fallback
  simp [ofJson?, toJson, Cause.ofJson?_toJson, Span.ofJson?_toJson, hfallback]

/-- The cause, the span and the fallback of a diagnostic stand under three names. -/
theorem distinct_toJson (diagnostic : Diagnostic) : diagnostic.toJson.Distinct := by
  simp [toJson, Cause.distinct_toJson, Span.distinct_toJson,
    distinct_ofOption Token.distinct_toJson]

end Diagnostic

namespace Node

/-- Modes are read back, where there is one. -/
theorem option?_mode (mode? : Option Mode) :
    (modeJson mode?).option? (named? Mode.all Mode.name) = some mode? :=
  option?_ofOption (fun mode => named?_text (by decide) (by cases mode <;> decide)) (by simp) mode?

/-- A mode is written as its name or as none, and neither has fields. -/
theorem distinct_modeJson (mode? : Option Mode) : (modeJson mode?).Distinct := by
  rw [modeJson]
  exact distinct_ofOption (fun mode => distinct_text mode.name) mode?

/-- The node of a kind whose fields an object has. -/
def ofFields? (value : Json) : StatementKind → Option Node
  | .aliasDef =>
    return aliasDef (← value.field? "name" text?) (← value.field? "expansion" (array? text?))
  | .autocmd =>
    return autocmd (← value.field? "event" (named? Event.all Event.name))
      (← value.field? "pattern" text?) (← value.field? "action" Action.ofJson?)
  | .autocontain =>
    return autocontain (← value.field? "flag" (named? [.sane, .url] ContainFlag.tag))
      (← value.field? "pattern" text?) (← value.field? "container" text?)
  | .binding =>
    return binding (← value.field? "mode" (option? (named? Mode.all Mode.name)))
      (← value.field? "key" Key.ofJson?) (← value.field? "excmd" ExCommand.ofJson?)
  | .unbinding =>
    return unbinding (← value.field? "mode" (option? (named? Mode.all Mode.name)))
      (← value.field? "key" Key.ofJson?)
  | .commandDef =>
    return commandDef (← value.field? "name" text?) (← value.field? "excmd" ExCommand.ofJson?)
  | .exCommand => return exCommand (← ExCommand.ofJson? value)
  | .quickmark => return quickmark (← value.field? "key" char?) (← value.field? "url" text?)
  | .setting =>
    return setting (← value.field? "name" text?)
      (← value.field? "values" (array? SettingValue.ofJson?))
  | .comment => return comment (← value.field? "text" text?)
  | .blank => return blank
  | .malformed =>
    return malformed (← value.field? "error" Diagnostic.ofJson?) (← value.field? "text" text?)

/-- The node that a value is the structured form of. Its kind says which fields to expect. -/
def ofJson? (value : Json) : Option Node := do
  ofFields? value (← value.field? "kind" (named? StatementKind.all StatementKind.tag))

/-- A node is read back: its kind says which fields to look for, and none of them is hidden. -/
theorem ofJson?_toJson (node : Node) : ofJson? node.toJson = some node := by
  have hkind : ofJson? node.toJson = ofFields? node.toJson node.kind := by
    simp [ofJson?, toJson, StatementKind.named?_tag]
  rw [hkind]
  cases node with
  | aliasDef name expansion =>
    simp [kind, ofFields?, toJson, jsonFields, array?_array text?_text]
  | autocmd event pattern action =>
    have hevent : named? Event.all Event.name (text event.name) = some event :=
      named?_text (by decide) (by cases event <;> decide)
    simp [kind, ofFields?, toJson, jsonFields, hevent, Action.ofJson?_toJson]
  | autocontain flag pattern container =>
    have hflag : named? [.sane, .url] ContainFlag.tag (text flag.tag) = some flag :=
      named?_text (by decide) (by cases flag <;> decide)
    simp [kind, ofFields?, toJson, jsonFields, hflag]
  | binding mode key command =>
    simp [kind, ofFields?, toJson, jsonFields, option?_mode, Key.ofJson?_toJson,
      ExCommand.ofJson?_toJson]
  | unbinding mode key =>
    simp [kind, ofFields?, toJson, jsonFields, option?_mode, Key.ofJson?_toJson]
  | commandDef name command =>
    simp [kind, ofFields?, toJson, jsonFields, ExCommand.ofJson?_toJson]
  | exCommand command =>
    simp [kind, ofFields?, toJson, jsonFields, ExCommand.ofJson?, ExCommand.jsonFields,
      option?_text]
  | quickmark key url => simp [kind, ofFields?, toJson, jsonFields]
  | setting name values =>
    simp [kind, ofFields?, toJson, jsonFields, array?_array SettingValue.ofJson?_toJson]
  | comment content => simp [kind, ofFields?, toJson, jsonFields]
  | blank => rfl
  | malformed diagnostic content =>
    simp [kind, ofFields?, toJson, jsonFields, Diagnostic.ofJson?_toJson]

/-- The fields of a node have names of their own, and none is called after its kind. -/
theorem distinct_toJson (node : Node) : node.toJson.Distinct := by
  cases node <;>
    simp [toJson, jsonFields, ExCommand.jsonFields, distinct_modeJson, Action.distinct_toJson,
      Key.distinct_toJson, ExCommand.distinct_toJson, SettingValue.distinct_toJson,
      Diagnostic.distinct_toJson, distinct_ofOption distinct_text]

end Node

namespace Statement

/-- The statement that a value is the structured form of. -/
def ofJson? (value : Json) : Option Statement :=
  return ⟨← value.field? "span" Span.ofJson?, ← value.field? "tokens" (array? Token.ofJson?),
    ← value.field? "node" Node.ofJson?⟩

/-- A statement is read back with its span, its tokens and its node. -/
theorem ofJson?_toJson (statement : Statement) : ofJson? statement.toJson = some statement := by
  simp [ofJson?, toJson, Span.ofJson?_toJson, array?_array Token.ofJson?_toJson,
    Node.ofJson?_toJson]

/-- The span, the tokens and the node of a statement stand under three names. -/
theorem distinct_toJson (statement : Statement) : statement.toJson.Distinct := by
  simp [toJson, Span.distinct_toJson, Token.distinct_toJson, Node.distinct_toJson]

end Statement

namespace Program

/-- The program that a value is the structured form of. -/
def ofJson? (value : Json) : Option Program :=
  return ⟨← value.field? "statements" (array? Statement.ofJson?)⟩

/-- The structured form of a program determines the program, and no object in it has two
fields of one name. -/
theorem toJson_faithful (program : Program) :
    ofJson? program.toJson = some program ∧ program.toJson.Distinct := by
  constructor
  · have hstatements := array?_array Statement.ofJson?_toJson program.statements
    simp [ofJson?, toJson, hstatements]
  · simp [toJson, Statement.distinct_toJson]

end Program

end RcScript
