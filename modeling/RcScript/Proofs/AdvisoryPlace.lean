import RcScript.Proofs.AdvisoryScope
import RcScript.Proofs.StatementTokens
import RcScript.Proofs.TokenAccount

/-!
# Where advisories point

The name that a statement checks stands at a fixed place among its tokens. The place of
an advisory is looked up by spelling instead: it points at the last identifier that is
spelled like the name. The two agree unless the word comes again behind the name, which
happens in the expansion of an alias and among the values of a setting only, since the
arguments of a command are no identifiers.
-/

namespace RcScript

namespace Node

/-- The index of the token that the checked name is read from. -/
def namePlace : Node → Nat
  | aliasDef .. => 2
  | autocmd .. => 3
  | binding none _ _ => 2
  | binding (some _) _ _ => 4
  | commandDef .. => 2
  | setting .. => 1
  | _ => 0

/-- The checked name comes again behind itself. -/
inductive RepeatsName : Node → Prop
  | aliasDef {name first : String} {more : List String} :
      first ∈ more → RepeatsName (.aliasDef name (first :: more))
  | setting {name : String} {values : List SettingValue} :
      .word name ∈ values → RepeatsName (.setting name values)

end Node

/-- The token that the checked name of a statement is read from. -/
def Statement.nameToken? (statement : Statement) : Option Token :=
  statement.tokens[statement.node.namePlace]?

/-- A token is an identifier of the given spelling. -/
def Token.Names (token : Token) (name : String) : Prop :=
  token.kind = .identifier ∧ token.text = name

instance (token : Token) (name : String) : Decidable (token.Names name) :=
  inferInstanceAs (Decidable (_ ∧ _))

/-- An advisory points at the token that the checked name is read from. -/
def Advisory.PointsAtName (advisory : Advisory) (statement : Statement) : Prop :=
  ∃ token ∈ statement.nameToken?, token.Names advisory.concern.name ∧ advisory.span = token.span

instance (advisory : Advisory) (statement : Statement) :
    Decidable (advisory.PointsAtName statement) :=
  inferInstanceAs (Decidable (∃ token ∈ statement.nameToken?, _))

/-- The place of an advisory among the tokens of the statement that it is about. -/
structure Advisory.PlacedIn (advisory : Advisory) (statement : Statement) : Prop where
  /-- The checked name is read from an identifier. -/
  named : ∃ token ∈ statement.nameToken?, token.Names advisory.concern.name
  /-- The advisory points at the last identifier of its spelling. -/
  last : ∃ front token back, statement.tokens = front ++ token :: back ∧
    token.Names advisory.concern.name ∧ advisory.span = token.span ∧
    ∀ later ∈ back, ¬ later.Names advisory.concern.name
  /-- That is the checked name unless it comes again. -/
  points_iff : advisory.PointsAtName statement ↔ ¬ statement.node.RepeatsName

/-- A token names something exactly if it is shown as that name. -/
theorem Token.piece_eq_identifier {token : Token} {name : String} :
    token.piece = (.identifier, name) ↔ token.Names name := by
  constructor
  · intro h
    obtain ⟨hkind, htext⟩ := Prod.mk.inj h
    rw [hkind, if_neg (by decide)] at htext
    exact ⟨hkind, htext⟩
  · rintro ⟨hkind, rfl⟩
    exact piece_of_kind hkind (by decide)

namespace Node

/-- What a node is made of has a name at its place, and again behind it where it is repeated. -/
def NamedAt (node : Node) (name : String) : Prop :=
  ∃ front back, node.pieces = front ++ (.identifier, name) :: back ∧
    front.length = node.namePlace ∧ ((.identifier, name) ∈ back ↔ node.RepeatsName)

/-- Behind the name of a command there are only arguments, which are no identifier. -/
theorem namedAt_command {node : Node} {command : ExCommand} (front : List (TokenKind × String))
    (hpieces : node.pieces = front ++ command.pieces) (hlength : front.length = node.namePlace)
    (hnot : ¬ node.RepeatsName) : node.NamedAt command.name := by
  refine ⟨front, _, hpieces, hlength, iff_of_false ?_ hnot⟩
  cases command.args <;> simp

/-- The command that is checked stands at the place of names. -/
theorem ChecksCommand.namedAt {node : Node} {name : String} (h : node.ChecksCommand name) :
    node.NamedAt name := by
  cases h with
  | @aliasDef own _ more =>
    refine ⟨[(.keyword, "alias"), (.identifier, own)],
      more.map fun text => (.identifier, text), rfl, rfl, ?_⟩
    constructor
    · intro hmem
      exact .aliasDef (by simpa using hmem)
    · intro h
      cases h with
      | aliasDef hmem => simpa using hmem
  | @autocmd event pattern command =>
    exact namedAt_command [(.keyword, "autocmd"), (.eventName, event.name), (.domain, pattern)]
      rfl rfl nofun
  | @autocmdAlias event pattern =>
    exact ⟨[(.keyword, "autocmd"), (.eventName, event.name), (.domain, pattern)], [], rfl, rfl,
      nofun, nofun⟩
  | @binding mode key command =>
    cases mode with
    | none => exact namedAt_command [(.keyword, "bind"), key.piece] rfl rfl nofun
    | some mode =>
      exact namedAt_command ((.keyword, "bind") :: (modePieces (some mode) ++ [key.piece]))
        rfl rfl nofun
  | @commandDef own command =>
    exact namedAt_command [(.keyword, "command"), (.identifier, own)] rfl rfl nofun
  | exCommand => exact namedAt_command [] rfl rfl nofun

/-- The name that a concern is about stands at its place. -/
theorem Raises.namedAt {InScope : String → Prop} {node : Node} {concern : Concern}
    (h : node.Raises InScope concern) : node.NamedAt concern.name := by
  cases h with
  | command hchecks _ _ => exact hchecks.namedAt
  | @setting name values hnode _ =>
    subst hnode
    refine ⟨[(.keyword, "set")], values.map Grammar.ofValue, rfl, rfl, ?_⟩
    constructor
    · intro hmem
      obtain ⟨value, hvalue, he⟩ := List.mem_map.mp hmem
      cases value with
      | word text =>
        obtain rfl := (Prod.mk.inj he).2
        exact .setting hvalue
      | number text => exact TokenKind.noConfusion (Prod.mk.inj he).1
    · intro h
      cases h with
      | setting hmem => exact List.mem_map_of_mem hmem

end Node

/-- The tokens of a line start one behind the other. -/
theorem Reader.starts_readLine (line : SourceLine) :
    (readLine line).1.Pairwise fun first second => first.span.start < second.span.start := by
  obtain ⟨progress, hreached, htokens, -⟩ := readTo_readLine line
  have hspells := hreached.accounts.spells
  rw [htokens]
  refine List.Pairwise.imp_of_mem ?_ hspells.ordered
  intro first second hfirst _ hle
  obtain ⟨ahead, behind, -, hne, hspan⟩ := hspells.exists_piece first hfirst
  have hpos := Text.utf8Length_pos hne
  have hlt : first.span.start < first.span.stop := by
    simp only [hspan, SourceLine.spanBehind]
    omega
  exact Nat.lt_of_lt_of_le hlt hle

namespace Statement

variable {statement : Statement} {name : String}

/-- What is looked up are the identifiers of a spelling. -/
theorem nameSpan_eq (statement : Statement) (name : String) :
    statement.nameSpan name =
      (((statement.tokens.filter fun token => token.Names name).getLast?).map Token.span).getD
        statement.span := by
  have hnames : (fun token : Token => token.kind == .identifier && token.text == name) =
      fun token => decide (token.Names name) := by
    funext token
    rw [Bool.eq_iff_iff, decide_eq_true_iff, Bool.and_eq_true, beq_iff_eq, beq_iff_eq, Token.Names]
  rw [nameSpan, hnames]

/-- The place that is looked up is that of the last identifier of its spelling. -/
theorem exists_last {token : Token} (hmem : token ∈ statement.tokens) (hnames : token.Names name) :
    ∃ front last back, statement.tokens = front ++ last :: back ∧ last.Names name ∧
      statement.nameSpan name = last.span ∧ ∀ later ∈ back, ¬ later.Names name := by
  rw [nameSpan_eq]
  cases hlast : (statement.tokens.filter fun token => token.Names name).getLast? with
  | none =>
    have hnone := List.filter_eq_nil_iff.mp (List.getLast?_eq_none_iff.mp hlast) token hmem
    exact absurd (decide_eq_true hnames) hnone
  | some last =>
    obtain ⟨earlier, hearlier⟩ := List.getLast?_eq_some_iff.mp hlast
    obtain ⟨front, rest, htokens, -, hrest⟩ := List.filter_eq_append_iff.mp hearlier
    obtain ⟨middle, back, rfl, -, hfound, hback⟩ := List.filter_eq_cons_iff.mp hrest
    refine ⟨front ++ middle, last, back, by rw [htokens, List.append_assoc],
      of_decide_eq_true hfound, rfl, ?_⟩
    intro later hlater hagain
    exact List.filter_eq_nil_iff.mp hback later hlater (decide_eq_true hagain)

/-- An identifier is found unless its spelling comes again behind it. -/
theorem nameSpan_eq_iff {front back : List Token} {token : Token}
    (hstarts : statement.tokens.Pairwise fun first second => first.span.start < second.span.start)
    (htokens : statement.tokens = front ++ token :: back) (hnames : token.Names name) :
    statement.nameSpan name = token.span ↔ ∀ later ∈ back, ¬ later.Names name := by
  have hspan : statement.nameSpan name =
      ((back.filter fun token => token.Names name).getLast?.getD token).span := by
    rw [nameSpan_eq, htokens, List.filter_append, List.filter_cons,
      if_pos (decide_eq_true hnames), List.getLast?_append, List.getLast?_cons]
    rfl
  rw [htokens, List.pairwise_append, List.pairwise_cons] at hstarts
  obtain ⟨-, ⟨hbehind, -⟩, -⟩ := hstarts
  rw [hspan]
  cases hlast : (back.filter fun token => token.Names name).getLast? with
  | none =>
    have hnone := List.filter_eq_nil_iff.mp (List.getLast?_eq_none_iff.mp hlast)
    exact iff_of_true rfl fun later hmem hlater => hnone later hmem (decide_eq_true hlater)
  | some last =>
    obtain ⟨hmem, hfound⟩ := List.mem_filter.mp (List.mem_of_getLast? hlast)
    refine iff_of_false ?_ fun hnone => hnone last hmem (of_decide_eq_true hfound)
    intro hsame
    have hlt := hbehind last hmem
    rw [← hsame] at hlt
    exact Nat.lt_irrefl _ hlt

end Statement

/-- The advisory of a statement is placed in it. -/
theorem Advisory.placedIn {statement : Statement} {concern : Concern}
    (hstarts : statement.tokens.Pairwise fun first second => first.span.start < second.span.start)
    (hpieces : statement.tokens.map Token.piece = statement.node.pieces)
    (hnamed : statement.node.NamedAt concern.name) :
    PlacedIn ⟨concern, statement.nameSpan concern.name⟩ statement := by
  obtain ⟨front, back, hnode, hlength, hrepeats⟩ := hnamed
  rw [hnode, List.map_eq_append_iff] at hpieces
  obtain ⟨before, rest, htokens, rfl, hrest⟩ := hpieces
  obtain ⟨token, behind, rfl, hpiece, rfl⟩ := List.map_eq_cons_iff.mp hrest
  have hnames := Token.piece_eq_identifier.mp hpiece
  have htoken : statement.nameToken? = some token := by
    rw [List.length_map] at hlength
    rw [Statement.nameToken?, htokens, ← hlength, List.getElem?_append_right (Nat.le_refl _),
      Nat.sub_self, List.getElem?_cons_zero]
  have hmem : token ∈ statement.tokens := by
    rw [htokens]
    exact List.mem_append_right _ List.mem_cons_self
  have hagain : (∀ later ∈ behind, ¬ later.Names concern.name) ↔ ¬ statement.node.RepeatsName := by
    rw [← hrepeats, List.mem_map]
    simp only [Token.piece_eq_identifier, not_exists, not_and]
  constructor
  case named => exact ⟨token, htoken, hnames⟩
  case last => exact Statement.exists_last hmem hnames
  case points_iff =>
    rw [← hagain, ← Statement.nameSpan_eq_iff hstarts htokens hnames]
    simp [PointsAtName, htoken, hnames]

namespace Program

/-- An advisory of a program is about what a statement raises at its place. -/
theorem exists_of_mem_lint {program : Program} {advisory : Advisory} (h : advisory ∈ program.lint) :
    ∃ (index : Nat) (statement : Statement), program.statements[index]? = some statement ∧
      statement.node.Raises (DefinedBefore program.statements index) advisory.concern ∧
      advisory = ⟨advisory.concern, statement.nameSpan advisory.concern.name⟩ := by
  rw [lint, advise_eq, List.mem_filterMap] at h
  obtain ⟨⟨scope, statement⟩, hmem, hadvisory⟩ := h
  obtain ⟨concern, hconcern, rfl⟩ := Option.map_eq_some_iff.mp hadvisory
  obtain ⟨index, hindex⟩ := List.mem_iff_getElem?.mp hmem
  obtain ⟨hlt, -⟩ := List.getElem?_eq_some_iff.mp hindex
  rw [length_withScopes] at hlt
  have hstatement := List.getElem?_eq_getElem hlt
  obtain ⟨scope', hget, hdefined⟩ := exists_scope_nil hstatement
  obtain ⟨rfl, rfl⟩ := Prod.mk.inj (Option.some.inj (hindex.symm.trans hget))
  refine ⟨index, _, hstatement, ?_, rfl⟩
  rw [← hdefined]
  exact Node.concern?_eq_some_iff.mp hconcern

/-- Every advisory of a text is about a statement that raises its concern, and it points at
the last identifier there that is spelled like the checked name. That is the name itself
exactly when the word does not come again behind it. -/
theorem lint_place {text : String} {advisory : Advisory} (h : advisory ∈ (parse text).lint) :
    ∃ index statement, (parse text).statements[index]? = some statement ∧
      (parse text).RaisesAt index advisory.concern ∧ advisory.PlacedIn statement := by
  obtain ⟨index, statement, hindex, hraises, hadvisory⟩ := exists_of_mem_lint h
  refine ⟨index, statement, hindex, ⟨statement, hindex, hraises⟩, ?_⟩
  have hspoken : ∀ kind : StatementKind, kind.Silent → statement.node.kind ≠ kind := by
    rintro kind hsilent rfl
    exact Node.not_raises_of_silent hsilent _ _ hraises
  have hpieces := pieces_statements (List.mem_of_getElem? hindex)
    (hspoken .comment (by simp [StatementKind.Silent]))
    (hspoken .malformed (by simp [StatementKind.Silent]))
  have hstarts : statement.tokens.Pairwise fun first second =>
      first.span.start < second.span.start := by
    obtain ⟨line, -, rfl⟩ := exists_line hindex
    exact Reader.starts_readLine _
  rw [hadvisory]
  exact Advisory.placedIn hstarts hpieces hraises.namedAt

/-- The advisory on an alias that stands for a word twice is at the second place of the word. -/
theorem lint_place_repeated :
    ⟨.unknownCommand "foo", ⟨23, 26, 2, 18⟩⟩ ∈ (parse "set x\nalias up foo bar foo").lint ∧
    ∃ index statement, (parse "set x\nalias up foo bar foo").statements[index]? = some statement ∧
      (parse "set x\nalias up foo bar foo").RaisesAt index (.unknownCommand "foo") ∧
      Advisory.PlacedIn ⟨.unknownCommand "foo", ⟨23, 26, 2, 18⟩⟩ statement :=
  have hmem : (⟨.unknownCommand "foo", ⟨23, 26, 2, 18⟩⟩ : Advisory) ∈
      (parse "set x\nalias up foo bar foo").lint := by decide +kernel
  ⟨hmem, lint_place hmem⟩

/-- The advisory on a setting with its own name for a value does not point at the name. -/
theorem lint_repeatedSetting :
    ∃ advisory ∈ (parse "set foo foo").lint, ∀ statement ∈ (parse "set foo foo").statements,
      ¬ advisory.PointsAtName statement := by
  decide +kernel

end Program

end RcScript
