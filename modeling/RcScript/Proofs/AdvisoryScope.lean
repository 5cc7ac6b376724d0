import Mathlib.Data.List.ReduceOption
import RcScript.Program.Advisory

/-!
# What advisories are about

An advisory is about the one name that a statement checks: the name of a setting, which
must be listed, or the name of a command, which must be listed or defined on an earlier
line. What a statement checks and what it defines is stated here for each kind of
statement, without the order in which a program is gone through. A definition counts for
later lines only, neither for its own line nor for the lines before it. Where an advisory
points is left out.
-/

namespace RcScript

namespace Node

/-- A node runs or stands for a command of the given name. -/
inductive ChecksCommand : Node → String → Prop
  | aliasDef {name first : String} {more : List String} :
      ChecksCommand (.aliasDef name (first :: more)) first
  | autocmd {event : Event} {pattern : String} {command : ExCommand} :
      ChecksCommand (.autocmd event pattern (.exCommand command)) command.name
  | autocmdAlias {event : Event} {pattern name : String} :
      ChecksCommand (.autocmd event pattern (.aliasName name)) name
  | binding {mode : Option Mode} {key : Key} {command : ExCommand} :
      ChecksCommand (.binding mode key command) command.name
  | commandDef {name : String} {command : ExCommand} :
      ChecksCommand (.commandDef name command) command.name
  | exCommand {command : ExCommand} : ChecksCommand (.exCommand command) command.name

/-- A node defines a command of the given name. -/
inductive DefinesCommand : Node → String → Prop
  | aliasDef {name : String} {expansion : List String} :
      DefinesCommand (.aliasDef name expansion) name
  | commandDef {name : String} {command : ExCommand} :
      DefinesCommand (.commandDef name command) name

/-- What is raised about a node, given the names that are in scope. -/
inductive Raises (InScope : String → Prop) (node : Node) : Concern → Prop
  | setting {name : String} {values : List SettingValue} : node = .setting name values →
      name ∉ settingNames → Raises InScope node (.unknownSetting name)
  | command {name : String} : node.ChecksCommand name → name ∉ commandNames →
      ¬ InScope name → Raises InScope node (.unknownCommand name)

/-- The command that a node uses is the one that is to be checked. -/
theorem usedCommand?_eq_some_iff {node : Node} {name : String} :
    node.usedCommand? = some name ↔ node.ChecksCommand name := by
  constructor
  · intro h
    cases node with
    | aliasDef own expansion =>
      obtain ⟨more, rfl⟩ := List.head?_eq_some_iff.mp h
      exact .aliasDef
    | autocmd event pattern action =>
      obtain rfl := Option.some.inj h
      cases action with
      | exCommand command => exact .autocmd
      | aliasName name => exact .autocmdAlias
    | binding => exact Option.some.inj h ▸ .binding
    | commandDef => exact Option.some.inj h ▸ .commandDef
    | exCommand => exact Option.some.inj h ▸ .exCommand
    | _ => exact absurd h (Option.some_ne_none name).symm
  · rintro ⟨⟩ <;> rfl

/-- The command that a node defines is the name of its alias or of its command. -/
theorem definedCommand?_eq_some_iff {node : Node} {name : String} :
    node.definedCommand? = some name ↔ node.DefinesCommand name := by
  constructor
  · intro h
    cases node with
    | aliasDef => exact Option.some.inj h ▸ .aliasDef
    | commandDef => exact Option.some.inj h ▸ .commandDef
    | _ => exact absurd h (Option.some_ne_none name).symm
  · rintro ⟨⟩ <;> rfl

/-- A setting raises a concern if its name is not listed, whatever was defined. -/
theorem concern?_setting (defined : List String) (name : String) (values : List SettingValue) :
    (setting name values).concern? defined =
      if name ∈ settingNames then none else some (.unknownSetting name) := by
  simp [concern?, isKnownSetting]

/-- Of any other node only its command is looked at. -/
theorem concern?_of_not_setting {node : Node} (h : ∀ name values, node ≠ .setting name values)
    (defined : List String) : node.concern? defined = node.usedCommand?.bind fun name =>
      if name ∈ commandNames ∨ name ∈ defined then none else some (.unknownCommand name) := by
  cases node with
  | setting name values => exact absurd rfl (h name values)
  | aliasDef name expansion => cases expansion <;> simp [concern?, usedCommand?, isKnownCommand]
  | _ => simp [concern?, usedCommand?, isKnownCommand]

/-- What there is to note about a node is what it raises. -/
theorem concern?_eq_some_iff {defined : List String} {node : Node} {concern : Concern} :
    node.concern? defined = some concern ↔ node.Raises (· ∈ defined) concern := by
  by_cases hsetting : ∃ name values, node = .setting name values
  · obtain ⟨name, values, rfl⟩ := hsetting
    rw [concern?_setting, Option.ite_none_left_eq_some]
    constructor
    · rintro ⟨hunlisted, hconcern⟩
      exact Option.some.inj hconcern ▸ .setting rfl hunlisted
    · intro h
      cases h with
      | setting hnode hunlisted =>
        cases hnode
        exact ⟨hunlisted, rfl⟩
      | command hchecks => cases hchecks
  · rw [concern?_of_not_setting fun name values hnode => hsetting ⟨name, values, hnode⟩,
      Option.bind_eq_some_iff]
    simp only [Option.ite_none_left_eq_some, not_or]
    constructor
    · rintro ⟨name, hused, ⟨hunlisted, hscope⟩, hconcern⟩
      have hchecks := usedCommand?_eq_some_iff.mp hused
      exact Option.some.inj hconcern ▸ .command hchecks hunlisted hscope
    · intro h
      cases h with
      | setting hnode => exact absurd ⟨_, _, hnode⟩ hsetting
      | command hchecks hunlisted hscope =>
        exact ⟨_, usedCommand?_eq_some_iff.mpr hchecks, ⟨hunlisted, hscope⟩, rfl⟩

end Node

/-- Statements, each with the names that are defined when it is looked at. -/
def withScopes (defined : List String) : List Statement → List (List String × Statement)
  | [] => []
  | statement :: later =>
    (defined, statement) :: withScopes (statement.node.definedCommand?.toList ++ defined) later

/-- A name is defined by a statement before a place. -/
def DefinedBefore (statements : List Statement) (index : Nat) (name : String) : Prop :=
  ∃ earlier statement, earlier < index ∧ statements[earlier]? = some statement ∧
    statement.node.DefinesCommand name

/-- No command is defined before the first statement. -/
theorem not_definedBefore_zero (statements : List Statement) (name : String) :
    ¬ DefinedBefore statements 0 name := by
  rintro ⟨earlier, statement, hlt, -⟩
  exact Nat.not_lt_zero _ hlt

/-- A name is defined behind the first statement by it or by a later one. -/
theorem definedBefore_cons_succ {statement : Statement} {later : List Statement} {index : Nat}
    {name : String} : DefinedBefore (statement :: later) (index + 1) name ↔
      statement.node.DefinesCommand name ∨ DefinedBefore later index name := by
  constructor
  · rintro ⟨earlier, other, hlt, hget, hdefines⟩
    cases earlier with
    | zero => exact .inl (Option.some.inj hget ▸ hdefines)
    | succ earlier => exact .inr ⟨earlier, other, Nat.lt_of_succ_lt_succ hlt, hget, hdefines⟩
  · rintro (hdefines | ⟨earlier, other, hlt, hget, hdefines⟩)
    · exact ⟨0, statement, Nat.succ_pos index, rfl, hdefines⟩
    · exact ⟨earlier + 1, other, Nat.succ_lt_succ hlt, hget, hdefines⟩

/-- The advisories are those of the statements with what is defined at each of them. -/
theorem advise_eq (defined : List String) (statements : List Statement) :
    advise defined statements =
      (withScopes defined statements).filterMap fun found => found.2.advisory? found.1 := by
  induction statements generalizing defined with
  | nil => rfl
  | cons statement later ih =>
    rw [advise, withScopes, List.filterMap_cons, ih]
    cases statement.advisory? defined <;> rfl

/-- Every statement has a scope. -/
theorem length_withScopes (defined : List String) (statements : List Statement) :
    (withScopes defined statements).length = statements.length := by
  induction statements generalizing defined with
  | nil => rfl
  | cons statement later ih => rw [withScopes, List.length_cons, List.length_cons, ih]

/-- What is defined at a place was given or is defined before it. -/
theorem exists_scope (defined : List String) {statements : List Statement}
    {statement : Statement} {index : Nat} (h : statements[index]? = some statement) :
    ∃ scope, (withScopes defined statements)[index]? = some (scope, statement) ∧
      ∀ name, name ∈ scope ↔ name ∈ defined ∨ DefinedBefore statements index name := by
  induction statements generalizing defined index with
  | nil => simp at h
  | cons first later ih =>
    cases index with
    | zero =>
      cases h
      exact ⟨defined, rfl, fun name => by simp [not_definedBefore_zero]⟩
    | succ index =>
      obtain ⟨scope, hget, hscope⟩ := ih (first.node.definedCommand?.toList ++ defined) h
      refine ⟨scope, hget, fun name => ?_⟩
      rw [hscope, definedBefore_cons_succ, List.mem_append, Option.mem_toList,
        Node.definedCommand?_eq_some_iff]
      tauto

/-- Of a whole program, what is defined at a place is what is defined before it. -/
theorem exists_scope_nil {statements : List Statement} {statement : Statement} {index : Nat}
    (h : statements[index]? = some statement) :
    ∃ scope, (withScopes [] statements)[index]? = some (scope, statement) ∧
      (· ∈ scope) = DefinedBefore statements index := by
  obtain ⟨scope, hget, hscope⟩ := exists_scope [] h
  exact ⟨scope, hget, funext fun name => propext (by simp [hscope])⟩

/-- The kinds of statements that neither check nor define a name. -/
def StatementKind.Silent (kind : StatementKind) : Prop :=
  kind ∈ [.autocontain, .unbinding, .quickmark, .comment, .blank, .malformed]

namespace Node

/-- A silent node raises nothing. -/
theorem not_raises_of_silent {node : Node} (h : node.kind.Silent) (InScope : String → Prop)
    (concern : Concern) : ¬ node.Raises InScope concern := by
  rintro (⟨rfl, -⟩ | ⟨⟨⟩, -, -⟩) <;> revert h <;> simp [StatementKind.Silent, kind]

/-- A silent node defines nothing. -/
theorem not_definesCommand_of_silent {node : Node} (h : node.kind.Silent) (name : String) :
    ¬ node.DefinesCommand name := by
  rintro ⟨⟩ <;> revert h <;> simp [StatementKind.Silent, kind]

end Node

namespace Program

/-- The statement at a place raises a concern, after all definitions of earlier lines. -/
def RaisesAt (program : Program) (index : Nat) (concern : Concern) : Prop :=
  ∃ statement, program.statements[index]? = some statement ∧
    statement.node.Raises (DefinedBefore program.statements index) concern

/-- What there is to note about each statement, after the definitions of earlier lines. -/
def concerns (program : Program) : List (Option Concern) :=
  (withScopes [] program.statements).map fun found => found.2.node.concern? found.1

/-- Every statement has a place in the list of concerns. -/
theorem length_concerns (program : Program) :
    program.concerns.length = program.statements.length := by
  rw [concerns, List.length_map, length_withScopes]

/-- The advisories of a program are the concerns of its statements, where there are any. -/
theorem lint_eq_concerns (program : Program) :
    program.lint.map Advisory.concern = program.concerns.reduceOption := by
  rw [lint, advise_eq, List.map_filterMap, List.reduceOption, concerns, List.filterMap_map]
  refine List.filterMap_congr fun found _ => ?_
  simp [Statement.advisory?, Function.comp_def]

/-- What there is to note about a statement is what it raises at its place. -/
theorem exists_concern {program : Program} {index : Nat} {statement : Statement}
    (h : program.statements[index]? = some statement) :
    ∃ concern?, program.concerns[index]? = some concern? ∧ ∀ concern, concern? = some concern ↔
      statement.node.Raises (DefinedBefore program.statements index) concern := by
  obtain ⟨scope, hget, hdefined⟩ := exists_scope_nil h
  refine ⟨statement.node.concern? scope, ?_, fun concern => ?_⟩
  · rw [concerns, List.getElem?_map, hget, Option.map_some]
  · rw [← hdefined]
    exact Node.concern?_eq_some_iff

/-- Advisories come in the order of the statements, at most one for each, and a statement
has one exactly when it raises what the advisory is about. Statements of silent kinds have
none, and they define nothing. -/
theorem lint_concerns (program : Program) :
    ∃ found : List (Option Concern), found.length = program.statements.length ∧
      program.lint.map Advisory.concern = found.reduceOption ∧
      (∀ index concern, found[index]? = some (some concern) ↔ program.RaisesAt index concern) ∧
      ∀ (index : Nat) (statement : Statement), program.statements[index]? = some statement →
        statement.kind.Silent →
          found[index]? = some none ∧ ∀ name, ¬ statement.node.DefinesCommand name := by
  refine ⟨program.concerns, program.length_concerns, program.lint_eq_concerns, ?_, ?_⟩
  · intro index concern
    cases hstatement : program.statements[index]? with
    | none =>
      have hnone : program.concerns[index]? = none := by
        rw [List.getElem?_eq_none_iff, length_concerns]
        exact List.getElem?_eq_none_iff.mp hstatement
      simp [hnone, RaisesAt, hstatement]
    | some statement =>
      obtain ⟨concern?, hget, hraises⟩ := exists_concern hstatement
      simp [hget, RaisesAt, hstatement, hraises]
  · intro index statement hstatement hsilent
    refine ⟨?_, Node.not_definesCommand_of_silent hsilent⟩
    obtain ⟨concern?, hget, hraises⟩ := exists_concern hstatement
    have hnone : concern? = none := Option.eq_none_iff_forall_ne_some.mpr fun concern heq =>
      Node.not_raises_of_silent hsilent _ concern ((hraises concern).mp heq)
    rw [hget, hnone]

end Program

end RcScript
