import RcScript.Program.Layout
import RcScript.Proofs.LineMeaning

/-!
# Canonical lines

The canonical line of a node that some line denotes denotes that node again, with
single blanks for the gaps. Three things may be lost on the way: the carriage
returns at the end of a comment, arguments that are all white space and so trimmed
to nothing, and with these the difference between a command and an alias in an
`autocmd`. What is left is the settled node.
-/

namespace RcScript

open Text

section Trimming

variable {p : Char → Bool}

/-- A list is its trimmed form and a run of the characters trimmed. -/
theorem exists_trimEnd (p : Char → Bool) (cs : List Char) :
    ∃ tail, cs = trimEnd p cs ++ tail ∧ ∀ c ∈ tail, p c = true := by
  refine ⟨(cs.reverse.takeWhile p).reverse, ?_, ?_⟩
  · rw [trimEnd, ← List.reverse_append, List.takeWhile_append_dropWhile, List.reverse_reverse]
  · intro c hc
    exact List.all_eq_true.mp List.all_takeWhile c (List.mem_reverse.mp hc)

/-- A trimmed list does not end in a character that would be trimmed. -/
theorem getLast?_trimEnd (p : Char → Bool) (cs : List Char) :
    ∀ c ∈ (trimEnd p cs).getLast?, p c = false := by
  intro c hc
  have hhead := List.head?_dropWhile_not p cs.reverse
  rw [trimEnd, List.getLast?_reverse] at hc
  rw [hc] at hhead
  simpa using hhead

/-- A list that ends in no character to trim is trimmed already. -/
theorem trimEnd_of_getLast {cs : List Char} (h : ∀ c ∈ cs.getLast?, p c = false) :
    trimEnd p cs = cs := by
  have hhead : ∀ c ∈ cs.reverse.head?, p c = false := by
    intro c hc
    exact h c (by rwa [List.head?_reverse] at hc)
  rw [trimEnd]
  cases hr : cs.reverse with
  | nil => rw [List.dropWhile_nil, ← hr, List.reverse_reverse]
  | cons c later =>
    have hc : p c = false := hhead c (by rw [hr]; rfl)
    rw [List.dropWhile_cons_of_neg (by simp [hc]), ← hr, List.reverse_reverse]

/-- What is trimmed away may as well not be there. -/
theorem trimEnd_append {tail : List Char} (h : ∀ c ∈ tail, p c = true) (cs : List Char) :
    trimEnd p (cs ++ tail) = trimEnd p cs := by
  have hreverse : ∀ c ∈ tail.reverse, p c = true := fun c hc => h c (List.mem_reverse.mp hc)
  rw [trimEnd, List.reverse_append, List.dropWhile_append_of_pos hreverse, trimEnd]

/-- Nothing is left of a text if all of it is trimmed. -/
theorem trimEnd_eq_nil_iff {cs : List Char} : trimEnd p cs = [] ↔ ∀ c ∈ cs, p c = true := by
  constructor
  · intro hnil
    obtain ⟨tail, hcs, htail⟩ := exists_trimEnd p cs
    rw [hnil, List.nil_append] at hcs
    exact hcs ▸ htail
  · intro hcs
    exact trimEnd_append hcs []

/-- Trimming twice is trimming once. -/
theorem trimEnd_trimEnd (p : Char → Bool) (cs : List Char) :
    trimEnd p (trimEnd p cs) = trimEnd p cs :=
  trimEnd_of_getLast (getLast?_trimEnd p cs)

/-- What is left of a list by trimming starts like the list. -/
theorem head?_trimEnd {cs : List Char} (h : trimEnd p cs ≠ []) :
    (trimEnd p cs).head? = cs.head? := by
  obtain ⟨tail, he, -⟩ := exists_trimEnd p cs
  cases hne : trimEnd p cs with
  | nil => exact absurd hne h
  | cons c later =>
    rw [hne] at he
    rw [he]
    rfl

end Trimming

/-- The carriage returns at the end of a text are trimmed and nothing else. -/
theorem toList_trimReturns (text : String) :
    (trimReturns text).toList = trimEnd (· == '\r') text.toList := by
  rw [trimReturns, String.toList_ofList]

/-- What is trimmed once has no carriage return left to trim. -/
theorem trimReturns_trimReturns (text : String) :
    trimReturns (trimReturns text) = trimReturns text := by
  rw [trimReturns, toList_trimReturns, trimEnd_trimEnd, ← toList_trimReturns,
    String.ofList_toList]

/-- The parts of a canonical line behind the first. -/
def trail (parts : List String) : List Char := parts.flatMap fun part => ' ' :: part.toList

/-- No part leaves no trail. -/
theorem trail_nil : trail [] = [] := rfl

/-- The first part of a trail stands behind one space. -/
theorem trail_cons (part : String) (parts : List String) :
    trail (part :: parts) = ' ' :: (part.toList ++ trail parts) := by
  rw [trail, List.flatMap_cons, List.cons_append]
  rfl

/-- Trails of parts in sequence stand one behind the other. -/
theorem trail_append (parts others : List String) :
    trail (parts ++ others) = trail parts ++ trail others := by
  rw [trail, List.flatMap_append]
  rfl

/-- A field can end before the parts that follow it. -/
theorem fieldEnd_trail (parts : List String) : FieldEnd (trail parts) := by
  cases parts with
  | nil => exact fieldEnd_nil
  | cons part parts =>
    rw [trail_cons]
    exact fieldEnd_cons.mpr (by decide)

/-- One space is a gap. -/
theorem gap_space : Gap [' '] := by
  refine ⟨by simp, ?_⟩
  intro c hc
  rw [List.mem_singleton.mp hc]
  decide

/-- A part of a canonical line is a field. -/
theorem field_trail (part : String) (parts : List String) :
    Field (trail (part :: parts)) part (trail parts) := by
  refine ⟨[' '], gap_space, ?_, fieldEnd_trail parts⟩
  rw [trail_cons]
  rfl

/-- The parts of a trail are the fields that it starts with. -/
theorem fields_trail (parts others : List String) :
    Fields (trail (parts ++ others)) parts (trail others) := by
  induction parts with
  | nil => exact .nil
  | cons part parts ih => exact .cons (field_trail part (parts ++ others)) ih

/-- Parts with nothing behind them are fields up to the end of the line. -/
theorem fields_trail_self (parts : List String) : Fields (trail parts) parts [] := by
  have hfields := fields_trail parts []
  rwa [List.append_nil] at hfields

/-- A mode that starts a trail is read from it, and none is read where it starts with none. -/
theorem modeField_trail (mode? : Option Mode) (others : List String) :
    ModeField (trail (modeParts mode? ++ others)) mode? (trail others) := by
  cases mode? with
  | none => exact .absent
  | some mode => exact .present (field_trail _ others)

/-- A canonical line is its first part and the others behind single spaces. -/
theorem toList_spaced (first : String) (parts : List String) :
    (spaced (first :: parts)).toList = first.toList ++ trail parts := by
  induction parts generalizing first with
  | nil => rw [spaced, String.intercalate_singleton, trail_nil, List.append_nil]
  | cons part parts ih =>
    have hrest := ih part
    rw [spaced] at hrest
    rw [spaced, String.intercalate_cons_cons, String.toList_append, String.toList_append, hrest,
      trail_cons, List.append_assoc]
    rfl

/-- The command that the canonical text of a command denotes: arguments that are
trimmed to nothing are lost. -/
def ExCommand.settled (command : ExCommand) : ExCommand :=
  if command.args = some "" then ⟨command.name, none⟩ else command

/-- What the canonical text of an action denotes. -/
def Action.settled : Action → Action
  | exCommand command => Grammar.actionOf command.settled
  | aliasName name => aliasName name

/-- The node that the canonical line of a node denotes. -/
def Node.settled : Node → Node
  | autocmd event pattern action => autocmd event pattern action.settled
  | binding mode key command => binding mode key command.settled
  | commandDef name command => commandDef name command.settled
  | exCommand command => exCommand command.settled
  | comment text => comment (trimReturns text)
  | other => other

/-- The text of a command is its name and, behind a space, its arguments. -/
theorem toList_toText_withArgs (name args : String) :
    (ExCommand.toText ⟨name, some args⟩).toList = name.toList ++ ' ' :: args.toList := by
  simp only [ExCommand.toText, String.toList_append, List.append_assoc]
  rfl

/-- The canonical text of a command denotes the command, as far as it is kept. -/
theorem invokes_toText {body : List Char} {command : ExCommand} (h : Invokes body command) :
    Invokes command.toText.toList command.settled := by
  cases h with
  | @bare name blanks hname hblanks =>
    have hsettled : ExCommand.settled ⟨name, none⟩ = ⟨name, none⟩ := by
      simp [ExCommand.settled]
    have htext : (ExCommand.toText ⟨name, none⟩).toList = name.toList ++ [] := by
      simp [ExCommand.toText]
    rw [hsettled, htext]
    exact .bare hname blanks_nil
  | @withArgs name gap first later hname hgap hfirst =>
    rw [toList_toText_withArgs, String.toList_ofList]
    by_cases hempty : trimEnd isWhiteSpace (first :: later) = []
    · have hsettled : ExCommand.settled ⟨name, some (String.ofList
          (trimEnd isWhiteSpace (first :: later)))⟩ = ⟨name, none⟩ := by
        simp [ExCommand.settled, hempty]
      rw [hsettled, hempty]
      exact .bare hname gap_space.2
    · have hhead := head?_trimEnd hempty
      have htrim := trimEnd_trimEnd isWhiteSpace (first :: later)
      cases hargs : trimEnd isWhiteSpace (first :: later) with
      | nil => exact absurd hargs hempty
      | cons c args =>
        rw [hargs, List.head?_cons, List.head?_cons, Option.some.injEq] at hhead
        rw [hargs] at htrim
        subst hhead
        have hsettled : ExCommand.settled ⟨name, some (String.ofList (c :: args))⟩ =
            ⟨name, some (String.ofList (trimEnd isWhiteSpace (c :: args)))⟩ := by
          rw [ExCommand.settled, htrim]
          simp
        have hinvokes : Invokes (name.toList ++ ([' '] ++ c :: args))
            ⟨name, some (String.ofList (trimEnd isWhiteSpace (c :: args)))⟩ :=
          .withArgs hname gap_space hfirst
        rw [hsettled]
        exact hinvokes

/-- The last part of a canonical line may be a command. -/
theorem commandField_trail {cs : List Char} {command : ExCommand} (h : CommandField cs command) :
    CommandField (trail [command.toText]) command.settled := by
  obtain ⟨gap, body, -, -, hinvokes⟩ := h
  refine ⟨[' '], command.toText.toList, gap_space, ?_, invokes_toText hinvokes⟩
  rw [trail_cons, trail_nil, List.append_nil]
  rfl

/-- An action is written as the command that it stands for. -/
theorem toText_of_runs {command : ExCommand} {action : Action} (h : Runs command action) :
    action.toText = command.toText := by
  cases h <;> rfl

/-- What a command stands for settles with the command. -/
theorem runs_settled {command : ExCommand} {action : Action} (h : Runs command action) :
    Runs command.settled action.settled := by
  rw [Grammar.runs_iff]
  cases h with
  | aliasName hmem =>
    simp [ExCommand.settled, Action.settled, Grammar.actionOf, isKnownCommand, hmem]
  | listed hmem => rfl
  | withArgs => rfl

/-- The parts of a canonical line behind its keyword. -/
def tailParts : Node → List String
  | .aliasDef name expansion => name :: expansion
  | .autocmd event pattern action => [event.name, pattern, action.toText]
  | .autocontain flag pattern container => [flag.text, pattern, container]
  | .binding mode key command => modeParts mode ++ [key.toText, command.toText]
  | .unbinding mode key => modeParts mode ++ [key.toText]
  | .commandDef name command => [name, command.toText]
  | .quickmark key url => [String.ofList [key], url]
  | .setting name values => name :: values.map SettingValue.text
  | _ => []

/-- The canonical line of a statement is its keyword and its parts. -/
theorem toText_of_clause {keyword : Keyword} {cs : List Char} {node : Node}
    (h : Clause keyword cs node) :
    node.toText.toList = keyword.literal.toList ++ trail (tailParts node) := by
  cases h <;> exact toList_spaced _ _

/-- The canonical parts of a statement satisfy the clause again. -/
theorem clause_trail {keyword : Keyword} {cs : List Char} {node : Node}
    (h : Clause keyword cs node) : Clause keyword (trail (tailParts node)) node.settled := by
  cases h with
  | aliasDef hname hfields hwords hblanks =>
    exact .aliasDef ⟨field_trail _ _, hname.2⟩ (fields_trail_self _) hwords blanks_nil
  | autocmd hevent hpattern hcommand hruns =>
    rw [tailParts, toText_of_runs hruns]
    exact .autocmd (field_trail _ _) ⟨field_trail _ _, hpattern.2⟩ (commandField_trail hcommand)
      (runs_settled hruns)
  | autocontainSane hflag hpattern hcontainer hblanks =>
    exact .autocontainSane (field_trail _ _) ⟨field_trail _ _, hpattern.2⟩
      ⟨field_trail _ _, hcontainer.2⟩ blanks_nil
  | autocontainUrl hflag hurl hcontainer hblanks =>
    have hlang := (urlField_iff.mp hurl).2
    exact .autocontainUrl (field_trail _ _) (urlField_iff.mpr ⟨field_trail _ _, hlang⟩)
      ⟨field_trail _ _, hcontainer.2⟩ blanks_nil
  | @binding _ mid rest mode? key command hmode hkey hcommand =>
    exact .binding (modeField_trail mode? _) ⟨field_trail _ _, hkey.2⟩
      (commandField_trail hcommand)
  | @unbinding _ mid rest mode? key hmode hkey hblanks =>
    exact .unbinding (modeField_trail mode? _) ⟨field_trail _ _, hkey.2⟩ blanks_nil
  | commandDef hname hcommand =>
    exact .commandDef ⟨field_trail _ _, hname.2⟩ (commandField_trail hcommand)
  | quickmark hkey hurl hblanks =>
    have hlang := (urlField_iff.mp hurl).2
    exact .quickmark ⟨field_trail _ _, hkey.2⟩ (urlField_iff.mpr ⟨field_trail _ _, hlang⟩)
      blanks_nil
  | setting hname hfields hvalues hblanks =>
    exact .setting ⟨field_trail _ _, hname.2⟩ (fields_trail_self _) hvalues blanks_nil

/-- The canonical line of a comment is its mark and its text, less returns at the end. -/
theorem toList_comment (text : String) :
    (Node.comment text).toText.toList = '"' :: (trimReturns text).toList := by
  rw [Node.toText, String.toList_append]
  rfl

/-- Settling a command keeps its name. -/
theorem name_settled (command : ExCommand) : command.settled.name = command.name := by
  rw [ExCommand.settled]
  split <;> rfl

/-- The canonical line of a node that a line denotes denotes the settled node. -/
theorem denotes_toText {l : List Char} {node : Node} (h : Denotes l node) :
    Denotes node.toText.toList node.settled := by
  cases h with
  | blank hblanks => exact .blank blanks_nil
  | @comment blanks text hblanks =>
    have hdenotes : Denotes ([] ++ '"' :: (trimReturns (String.ofList text)).toList)
        (.comment (String.ofList (trimReturns (String.ofList text)).toList)) := .comment blanks_nil
    rw [String.ofList_toList] at hdenotes
    rw [toList_comment]
    exact hdenotes
  | @statement _ rest keyword node hopens hclause =>
    refine .statement ⟨[], blanks_nil, ?_, fieldEnd_trail _⟩ (clause_trail hclause)
    exact toText_of_clause hclause
  | @exCommand blanks body command hnone hblanks hinvokes =>
    have htext := invokes_toText hinvokes
    have hnone' : ∀ keyword rest, ¬ Opens keyword ([] ++ command.toText.toList) rest := by
      intro keyword rest hopens
      have hliteral := (opens_iff_of_invokes blanks_nil htext keyword).mp ⟨rest, hopens⟩
      rw [name_settled] at hliteral
      obtain ⟨rest', hopens'⟩ := (opens_iff_of_invokes hblanks hinvokes keyword).mpr hliteral
      exact hnone keyword rest' hopens'
    exact .exCommand hnone' blanks_nil htext

/-- The command that a node runs, if it runs one. -/
def Node.command? : Node → Option ExCommand
  | autocmd _ _ (.exCommand command) => some command
  | binding _ _ command => some command
  | commandDef _ command => some command
  | exCommand command => some command
  | _ => none

/-- A command without arguments trimmed to nothing is settled. -/
theorem settled_of_args {command : ExCommand} (h : command.args ≠ some "") :
    command.settled = command :=
  if_neg h

/-- The text of a command shows whether the command is settled. -/
theorem toText_settled_command {command : ExCommand} :
    command.settled.toText = command.toText ↔ command.args ≠ some "" := by
  constructor
  · intro htext hargs
    obtain ⟨name, args⟩ := command
    obtain rfl : args = some "" := hargs
    have hlength := congrArg (fun text => text.toList.length) htext
    have hsettled : (ExCommand.settled ⟨name, some ""⟩).toText = name := by
      simp [ExCommand.settled, ExCommand.toText]
    simp only [hsettled, toList_toText_withArgs, List.length_append, List.length_cons] at hlength
    omega
  · intro hargs
    rw [settled_of_args hargs]

/-- An alias is written like the command that it stands for. -/
theorem toText_actionOf (command : ExCommand) :
    (Grammar.actionOf command).toText = command.toText :=
  toText_of_runs (Grammar.runs_iff.mpr rfl)

/-- Canonical lines that differ in their last parts differ. -/
theorem spaced_concat {first last other : String} {parts : List String} :
    spaced (first :: (parts ++ [last])) = spaced (first :: (parts ++ [other])) ↔ last = other := by
  constructor
  · intro h
    have hchars := congrArg String.toList h
    rw [toList_spaced, toList_spaced, trail_append, trail_append, trail_cons, trail_cons,
      trail_nil] at hchars
    have htrail := List.append_cancel_left (List.append_cancel_left hchars)
    rw [List.append_nil, List.append_nil, List.cons.injEq, String.toList_inj] at htrail
    exact htrail.2
  · rintro rfl
    rfl

/-- The canonical line of a node is that of the settled node exactly when no
arguments of the node were trimmed to nothing. -/
theorem toText_settled (node : Node) :
    node.settled.toText = node.toText ↔ ∀ command ∈ node.command?, command.args ≠ some "" := by
  have hcommand : ∀ command : ExCommand,
      (∀ found ∈ some command, found.args ≠ some "") ↔ command.args ≠ some "" := by
    intro command
    simp
  cases node with
  | exCommand command => exact toText_settled_command.trans (hcommand command).symm
  | binding mode? key command =>
    have htext : ∀ command : ExCommand, (Node.binding mode? key command).toText =
        spaced ("bind" :: ((modeParts mode? ++ [key.toText]) ++ [command.toText])) := by
      intro command
      simp [Node.toText]
    rw [Node.settled, htext, htext, spaced_concat]
    exact toText_settled_command.trans (hcommand command).symm
  | commandDef name command =>
    have htext : ∀ command : ExCommand, (Node.commandDef name command).toText =
        spaced ("command" :: ([name] ++ [command.toText])) := fun _ => rfl
    rw [Node.settled, htext, htext, spaced_concat]
    exact toText_settled_command.trans (hcommand command).symm
  | autocmd event pattern action =>
    have htext : ∀ action : Action, (Node.autocmd event pattern action).toText =
        spaced ("autocmd" :: ([event.name, pattern] ++ [action.toText])) := fun _ => rfl
    rw [Node.settled, htext, htext, spaced_concat]
    cases action with
    | aliasName name => simp [Action.settled, Node.command?]
    | exCommand command =>
      rw [Action.settled, toText_actionOf]
      exact toText_settled_command.trans (hcommand command).symm
  | comment text =>
    simp [Node.settled, Node.toText, Node.command?, trimReturns_trimReturns]
  | aliasDef => simp [Node.settled, Node.command?]
  | autocontain => simp [Node.settled, Node.command?]
  | unbinding => simp [Node.settled, Node.command?]
  | quickmark => simp [Node.settled, Node.command?]
  | setting => simp [Node.settled, Node.command?]
  | blank => simp [Node.settled, Node.command?]
  | malformed => simp [Node.settled, Node.command?]

/-- What stands for a command whose arguments are not trimmed to nothing is settled. -/
theorem settled_of_runs {command : ExCommand} {action : Action} (h : Runs command action)
    (hargs : command.args ≠ some "") : action.settled = action := by
  have hsettled := runs_settled h
  rw [settled_of_args hargs, Grammar.runs_iff] at hsettled
  rw [Grammar.runs_iff] at h
  exact hsettled.symm.trans h

/-- A node that loses neither arguments nor carriage returns is settled. -/
theorem settled_eq {l : List Char} {node : Node} (h : Denotes l node)
    (hargs : ∀ command ∈ node.command?, command.args ≠ some "")
    (hreturn : ∀ text, node = .comment text → trimReturns text = text) :
    node.settled = node := by
  cases h with
  | blank => rfl
  | comment => rw [Node.settled, hreturn _ rfl]
  | exCommand => rw [Node.settled, settled_of_args (hargs _ rfl)]
  | statement hopens hclause =>
    cases hclause with
    | aliasDef => rfl
    | @autocmd _ mid rest event pattern command action hevent hpattern hcommand hruns =>
      have hsettled : action.settled = action := by
        cases hruns with
        | aliasName => rfl
        | listed hmem => exact settled_of_runs (.listed hmem) (by simp)
        | withArgs => exact settled_of_runs .withArgs (hargs _ rfl)
      rw [Node.settled, hsettled]
    | autocontainSane => rfl
    | autocontainUrl => rfl
    | binding => rw [Node.settled, settled_of_args (hargs _ rfl)]
    | unbinding => rfl
    | commandDef => rw [Node.settled, settled_of_args (hargs _ rfl)]
    | quickmark => rfl
    | setting => rfl

end RcScript
