import RcScript.CommandLine

/-!
# Runs over several files

A task for several files writes what it writes for each of them alone, in order, and it
has failed when it fails for one of them: what is done for a file only adds to what was
written before and never takes a failure back. Which files a task fails for is said here
without running it. Advisories are no failure, and the line that reports a file as valid
counts every statement that is neither a comment nor blank. How a file system comes to
its answers is left open, so that a directory tree held in memory is only one of them.
-/

namespace RcScript

/-- The bytes that a file system gives for each path, or why it gives none. -/
abbrev FileBytes := String → Except ReadFailure ByteArray

/-- The text at a path. -/
def FileBytes.read (files : FileBytes) (path : String) : Except ReadFailure String :=
  (files path).bind decodeText

/-- The bytes of the files in a directory tree. -/
def Directory.bytes (directory : Directory) : FileBytes := fun path =>
  match directory.resolve path with
  | .ok (.file content) => .ok content
  | .ok .directory => .error .isDirectory
  | .error failure => .error failure

/-- The text at a path of a directory tree is that of the bytes there. -/
theorem Directory.read_eq (directory : Directory) (path : String) :
    directory.read path = directory.bytes.read path := by
  rw [Directory.read, FileBytes.read, Directory.bytes]
  cases directory.resolve path with
  | error failure => rfl
  | ok entry => cases entry <;> rfl

/-- What a task has written and whether it failed, for one path after another. -/
def Task.outcomeOf (task : Task) (files : FileBytes) (paths : List String) : Outcome :=
  Invocation.run ⟨task, paths⟩ files.read

/-- A run in a directory tree is a run over the bytes of its files. -/
theorem Directory.run_eq (directory : Directory) (task : Task) (paths : List String) :
    Invocation.run ⟨task, paths⟩ directory.read = task.outcomeOf directory.bytes paths := by
  rw [Task.outcomeOf, funext directory.read_eq]

/-- A text is not as a task wants it. -/
inductive Task.Rejects : Task → String → Prop
  /-- A line of a text to validate is malformed. -/
  | malformed {lint : Bool} {text : String} {statement : Statement} :
      statement ∈ (Program.parse text).statements → statement.kind = .malformed →
      Rejects (.validate lint) text
  /-- A text to check is not in canonical form. -/
  | notCanonical {text : String} : (Program.parse text).format ≠ text → Rejects .check text

/-- A task fails for the file at a path. -/
inductive Task.FailsAt (task : Task) (files : FileBytes) (path : String) : Prop
  /-- The file cannot be read. -/
  | unreadable {failure : ReadFailure} : files path = .error failure → FailsAt task files path
  /-- The bytes of the file are no UTF-8 text. -/
  | noText {bytes : ByteArray} : files path = .ok bytes → ¬ bytes.IsValidUTF8 →
      FailsAt task files path
  /-- The text of the file is not as the task wants it. -/
  | rejected {text : String} : files.read path = .ok text → task.Rejects text →
      FailsAt task files path

/-- The five counts of a valid program. -/
structure Counts where
  /-- Bindings and their removals. -/
  bindings : Nat
  /-- Aliases and commands that are defined. -/
  aliases : Nat
  /-- Rules for events and for containers. -/
  autocmds : Nat
  /-- Settings. -/
  settings : Nat
  /-- Commands and quickmarks. -/
  others : Nat

namespace Counts

/-- The counts as they are written. -/
def text (counts : Counts) : String :=
  toString counts.bindings ++ " binding(s), " ++ toString counts.aliases ++ " alias(es), " ++
    toString counts.autocmds ++ " autocmd(s), " ++ toString counts.settings ++ " setting(s), " ++
    toString counts.others ++ " other command(s)"

/-- All that is counted. -/
def total (counts : Counts) : Nat :=
  counts.bindings + counts.aliases + counts.autocmds + counts.settings + counts.others

end Counts

/-- A line about a file on the message channel. -/
def fileLine (path message : String) : String := pathMessage path message ++ "\n"

namespace Program

/-- What there is to report about the lines of a program, with advisories if asked for. -/
def reports (lint : Bool) (program : Program) : List String :=
  program.diagnostics.map Diagnostic.message ++
    if lint then program.lint.map fun advisory => "warning: " ++ advisory.message else []

/-- The counts of a program. -/
def counts (program : Program) : Counts :=
  ⟨program.countOf [.binding, .unbinding], program.countOf [.aliasDef, .commandDef],
    program.countOf [.autocmd, .autocontain], program.countOf [.setting],
    program.countOf [.exCommand, .quickmark]⟩

/-- The summary of a program spells out its counts. -/
theorem summary_eq (program : Program) : program.summary = program.counts.text := rfl

/-- There are diagnostics exactly when a line is malformed. -/
theorem diagnostics_ne_nil_iff {program : Program} :
    program.diagnostics ≠ [] ↔
      ∃ statement ∈ program.statements, statement.kind = .malformed := by
  have hmalformed : ∀ statement : Statement,
      statement.diagnostic? = none ↔ statement.kind ≠ .malformed := by
    intro statement
    obtain ⟨span, tokens, node⟩ := statement
    cases node <;> simp [Statement.diagnostic?, Statement.kind, Node.kind]
  simp [diagnostics, List.filterMap_eq_nil_iff, hmalformed]

/-- Every statement is counted once, apart from comments and blank and malformed lines. -/
theorem total_counts (program : Program) :
    program.counts.total + program.statements.countP (fun statement =>
        statement.kind == .malformed) =
      program.statements.countP fun statement =>
        statement.kind != .comment && statement.kind != .blank := by
  simp only [counts, Counts.total, countOf, ofKind, List.foldl_cons, List.foldl_nil,
    ← List.countP_eq_length_filter]
  obtain ⟨statements⟩ := program
  induction statements with
  | nil => rfl
  | cons statement later ih =>
    simp only [List.countP_cons] at ih ⊢
    cases statement.kind <;> simp <;> omega

end Program

namespace Outcome

/-- What was written and failed before and after. -/
def andThen (first second : Outcome) : Outcome :=
  ⟨first.output ++ second.output, first.messages ++ second.messages,
    first.failed || second.failed⟩

/-- Outcomes follow one another in any grouping. -/
theorem andThen_assoc (first second third : Outcome) :
    (first.andThen second).andThen third = first.andThen (second.andThen third) := by
  simp [andThen, String.append_assoc, Bool.or_assoc]

/-- Nothing changes an outcome that it follows. -/
@[simp]
theorem andThen_empty (outcome : Outcome) : outcome.andThen empty = outcome := by
  simp [andThen, empty]

/-- Nothing changes an outcome that follows it. -/
@[simp]
theorem empty_andThen (outcome : Outcome) : empty.andThen outcome = outcome := by
  simp [andThen, empty]

/-- Printing a text adds to the output. -/
theorem print_eq (outcome : Outcome) (text : String) :
    outcome.print text = outcome.andThen ⟨text, "", false⟩ := by
  simp [print, andThen]

/-- Reporting a message adds one line to the messages. -/
theorem report_eq (outcome : Outcome) (path message : String) :
    outcome.report path message = outcome.andThen ⟨"", fileLine path message, false⟩ := by
  simp [report, andThen, fileLine, String.append_assoc]

/-- Reporting messages adds one line for each of them. -/
theorem reportAll_eq (outcome : Outcome) (path : String) (messages : List String) :
    outcome.reportAll path messages =
      outcome.andThen ⟨"", String.join (messages.map (fileLine path)), false⟩ := by
  rw [reportAll]
  induction messages generalizing outcome with
  | nil => simp [andThen]
  | cons message messages ih =>
    rw [List.foldl_cons, ih, report_eq, andThen_assoc]
    simp [andThen]

/-- Failing sets the exit code and prints nothing. -/
theorem fail_eq (outcome : Outcome) : outcome.fail = outcome.andThen ⟨"", "", true⟩ := by
  simp [fail, andThen]

end Outcome

namespace Task

open Outcome

/-- What is written for the text of a file, and whether the task fails for it. -/
theorem runText_eq (task : Task) (path text : String) (outcome : Outcome) :
    task.runText path text outcome = outcome.andThen (task.runText path text empty) := by
  cases task with
  | validate lint =>
    simp only [runText, validateProgram]
    split <;> split <;> simp only [reportAll_eq, report_eq, fail_eq, andThen_assoc, empty_andThen]
  | fmt => simp [runText, print_eq]
  | check =>
    simp only [runText]
    split <;> simp only [report_eq, fail_eq, andThen_assoc, empty_andThen]
  | tokens => simp [runText, print_eq]
  | dump => simp [runText, print_eq]

/-- Doing a task for a file only adds to what was written, and to failures. -/
theorem runFile_eq (task : Task) (outcome : Outcome)
    (file : String × Except ReadFailure String) :
    task.runFile outcome file = outcome.andThen (task.runFile empty file) := by
  obtain ⟨path, failure | text⟩ := file
  · simp only [runFile, report_eq, fail_eq, andThen_assoc, empty_andThen]
  · exact task.runText_eq path _ outcome

/-- A task for the files at several paths is done for one after the other. -/
theorem outcomeOf_cons (task : Task) (files : FileBytes) (path : String) (paths : List String) :
    task.outcomeOf files (path :: paths) =
      (task.outcomeOf files [path]).andThen (task.outcomeOf files paths) := by
  have hfold : ∀ (given : List (String × Except ReadFailure String)) (outcome : Outcome),
      given.foldl task.runFile outcome = outcome.andThen (given.foldl task.runFile empty) := by
    intro given
    induction given with
    | nil => intro outcome; rw [List.foldl_nil, List.foldl_nil, andThen_empty]
    | cons file given ih =>
      intro outcome
      rw [List.foldl_cons, List.foldl_cons, ih, ih (task.runFile empty file), runFile_eq,
        andThen_assoc]
  exact hfold (paths.map fun path => (path, files.read path)) _

/-- What is written for several files is what is written for each of them, in order. -/
theorem outcomeOf_output (task : Task) (files : FileBytes) (paths : List String) :
    (task.outcomeOf files paths).output =
        String.join (paths.map fun path => (task.outcomeOf files [path]).output) ∧
      (task.outcomeOf files paths).messages =
        String.join (paths.map fun path => (task.outcomeOf files [path]).messages) := by
  induction paths with
  | nil => exact ⟨rfl, rfl⟩
  | cons path paths ih =>
    rw [outcomeOf_cons, List.map_cons, List.map_cons, String.join_cons, String.join_cons, ← ih.1,
      ← ih.2]
    exact ⟨rfl, rfl⟩

/-- What is written of a text to validate, and when it fails. -/
theorem runText_validate (lint : Bool) (path text : String) :
    (validate lint).runText path text empty =
      andThen ⟨"", String.join (((Program.parse text).reports lint).map (fileLine path)), false⟩
        (if (Program.parse text).diagnostics = [] then
          ⟨"", fileLine path ("valid (" ++ (Program.parse text).counts.text ++ ")"), false⟩
        else ⟨"", "", true⟩) := by
  have hreports : (if lint then
      (empty.reportAll path ((Program.parse text).diagnostics.map Diagnostic.message)).reportAll
        path ((Program.parse text).lint.map fun advisory => "warning: " ++ advisory.message)
      else empty.reportAll path ((Program.parse text).diagnostics.map Diagnostic.message)) =
      ⟨"", String.join (((Program.parse text).reports lint).map (fileLine path)), false⟩ := by
    cases lint <;> simp [reportAll_eq, Program.reports, andThen, empty]
  simp only [runText, validateProgram, hreports, List.isEmpty_iff, report_eq, fail_eq,
    Program.summary_eq]
  split <;> rfl

/-- A task fails for a text exactly when it rejects it. -/
theorem runText_failed (task : Task) (path text : String) :
    (task.runText path text empty).failed = true ↔ task.Rejects text := by
  cases task with
  | validate lint =>
    rw [runText_validate]
    by_cases hnil : (Program.parse text).diagnostics = []
    · rw [if_pos hnil]
      refine ⟨Bool.noConfusion, ?_⟩
      rintro ⟨hmem, hkind⟩
      exact absurd hnil (Program.diagnostics_ne_nil_iff.mpr ⟨_, hmem, hkind⟩)
    · rw [if_neg hnil]
      obtain ⟨statement, hmem, hkind⟩ := Program.diagnostics_ne_nil_iff.mp hnil
      exact ⟨fun _ => .malformed hmem hkind, fun _ => rfl⟩
  | check =>
    by_cases hformat : (Program.parse text).format = text
    · simp only [runText, hformat, beq_self_eq_true, if_true, report_eq]
      refine ⟨Bool.noConfusion, ?_⟩
      rintro ⟨⟩
      contradiction
    · simp only [runText, beq_false_of_ne hformat, Bool.false_eq_true, if_false, report_eq]
      exact ⟨fun _ => .notCanonical hformat, fun _ => rfl⟩
  | fmt => exact ⟨Bool.noConfusion, fun h => nomatch h⟩
  | tokens => exact ⟨Bool.noConfusion, fun h => nomatch h⟩
  | dump => exact ⟨Bool.noConfusion, fun h => nomatch h⟩

end Task

namespace FileBytes

/-- No text is read exactly when the file cannot be read or its bytes are no text. -/
theorem read_error_iff {files : FileBytes} {path : String} :
    (∃ failure, files.read path = .error failure) ↔
      (∃ failure, files path = .error failure) ∨
        ∃ bytes, files path = .ok bytes ∧ ¬ bytes.IsValidUTF8 := by
  rw [read]
  cases hbytes : files path with
  | error failure => simp [Except.bind]
  | ok bytes =>
    by_cases hvalid : bytes.IsValidUTF8 <;>
      simp [Except.bind, decodeText, String.fromUTF8?, hvalid]

end FileBytes

namespace Task

/-- Which files a task fails for. -/
theorem outcomeOf_singleton_failed {task : Task} {files : FileBytes} {path : String} :
    (task.outcomeOf files [path]).failed = true ↔ task.FailsAt files path := by
  have hrun : task.outcomeOf files [path] =
      task.runFile Outcome.empty (path, files.read path) := rfl
  rw [hrun]
  cases hread : files.read path with
  | error failure =>
    refine ⟨fun _ => ?_, fun _ => rfl⟩
    rcases FileBytes.read_error_iff.mp ⟨failure, hread⟩ with ⟨_, hfile⟩ | ⟨bytes, hfile, hbytes⟩
    · exact .unreadable hfile
    · exact .noText hfile hbytes
  | ok text =>
    refine (task.runText_failed path text).trans ⟨fun h => .rejected hread h, fun h => ?_⟩
    have hok : ¬ ∃ failure, files.read path = .error failure := by
      rw [hread]
      rintro ⟨failure, h⟩
      cases h
    rw [FileBytes.read_error_iff] at hok
    cases h with
    | unreadable hfile => exact absurd (.inl ⟨_, hfile⟩) hok
    | noText hfile hbytes => exact absurd (.inr ⟨_, hfile, hbytes⟩) hok
    | rejected hother hrejects =>
      rw [hread] at hother
      cases hother
      exact hrejects

/-- A task has failed for several files when it fails for one of them. -/
theorem outcomeOf_failed (task : Task) (files : FileBytes) (paths : List String) :
    (task.outcomeOf files paths).failed = true ↔ ∃ path ∈ paths, task.FailsAt files path := by
  induction paths with
  | nil => simp [outcomeOf, Invocation.run, runFiles, Outcome.empty]
  | cons path paths ih =>
    rw [outcomeOf_cons, Outcome.andThen, Bool.or_eq_true, outcomeOf_singleton_failed, ih]
    simp

/-- How a run over several files comes from the runs over each of them. -/
structure Composes (task : Task) (files : FileBytes) (paths : List String) : Prop where
  /-- The output is that for each file alone, in order. -/
  output : (task.outcomeOf files paths).output =
    String.join (paths.map fun path => (task.outcomeOf files [path]).output)
  /-- The messages are those for each file alone, in order. -/
  messages : (task.outcomeOf files paths).messages =
    String.join (paths.map fun path => (task.outcomeOf files [path]).messages)
  /-- The exit code is one if the task fails for a file. -/
  failure : (∃ path ∈ paths, task.FailsAt files path) →
    (task.outcomeOf files paths).exitCode = 1
  /-- The exit code is zero if the task fails for no file. -/
  success : (¬ ∃ path ∈ paths, task.FailsAt files path) →
    (task.outcomeOf files paths).exitCode = 0

/-- Every run composes from the runs on its files. -/
theorem composes (task : Task) (files : FileBytes) (paths : List String) :
    task.Composes files paths := by
  have hwritten := task.outcomeOf_output files paths
  have hfailed := task.outcomeOf_failed files paths
  refine ⟨hwritten.1, hwritten.2, fun hsome => ?_, fun hnone => ?_⟩
  · rw [Outcome.exitCode, if_pos (hfailed.mpr hsome)]
  · rw [Outcome.exitCode, if_neg fun h => hnone (hfailed.mp h)]

/-- Whether a task fails for a file to validate does not depend on advisories. -/
theorem FailsAt.of_validate {lint other : Bool} {files : FileBytes} {path : String}
    (h : (validate lint).FailsAt files path) : (validate other).FailsAt files path := by
  cases h with
  | unreadable hfile => exact .unreadable hfile
  | noText hfile hbytes => exact .noText hfile hbytes
  | rejected hread hrejects =>
    obtain ⟨hmem, hkind⟩ := hrejects
    exact .rejected hread (.malformed hmem hkind)

/-- Advisories do not change the exit code. -/
theorem exitCode_validate (files : FileBytes) (paths : List String) :
    ((validate true).outcomeOf files paths).exitCode =
      ((validate false).outcomeOf files paths).exitCode := by
  by_cases h : ∃ path ∈ paths, (validate true).FailsAt files path
  · have hplain : ∃ path ∈ paths, (validate false).FailsAt files path := by
      obtain ⟨path, hmem, hfails⟩ := h
      exact ⟨path, hmem, hfails.of_validate⟩
    rw [(composes _ files paths).failure h, (composes _ files paths).failure hplain]
  · have hplain : ¬ ∃ path ∈ paths, (validate false).FailsAt files path := by
      rintro ⟨path, hmem, hfails⟩
      exact h ⟨path, hmem, hfails.of_validate⟩
    rw [(composes _ files paths).success h, (composes _ files paths).success hplain]

end Task

/-- What is reported of a file to validate. -/
inductive Validated (lint : Bool) (path : String) (program : Program) (messages : String) : Prop
  /-- A malformed line, and no line that reports the file as valid. -/
  | faulty : (∃ statement ∈ program.statements, statement.kind = .malformed) →
      messages = String.join ((program.reports lint).map (fileLine path)) →
      Validated lint path program messages
  /-- No malformed line, and the counts of all statements but comments and blank lines. -/
  | valid {counts : Counts} : (∀ statement ∈ program.statements, statement.kind ≠ .malformed) →
      messages = String.join ((program.reports lint).map (fileLine path)) ++
        fileLine path ("valid (" ++ counts.text ++ ")") →
      counts.total = (program.statements.filter fun statement =>
        statement.kind != .comment && statement.kind != .blank).length →
      Validated lint path program messages

/-- What is reported of a text to validate. -/
theorem validated_runText (lint : Bool) (path text : String) :
    Validated lint path (Program.parse text)
      ((Task.validate lint).runText path text Outcome.empty).messages := by
  rw [Task.runText_validate]
  by_cases hnil : (Program.parse text).diagnostics = []
  · rw [if_pos hnil]
    have hvalid : ∀ statement ∈ (Program.parse text).statements, statement.kind ≠ .malformed := by
      intro statement hmem hkind
      exact Program.diagnostics_ne_nil_iff.mpr ⟨statement, hmem, hkind⟩ hnil
    have htotal := (Program.parse text).total_counts
    have hnone : (Program.parse text).statements.countP
        (fun statement => statement.kind == .malformed) = 0 := by
      simpa [List.countP_eq_zero] using hvalid
    rw [hnone, Nat.add_zero, List.countP_eq_length_filter] at htotal
    exact .valid hvalid rfl htotal
  · rw [if_neg hnil]
    exact .faulty (Program.diagnostics_ne_nil_iff.mp hnil) String.append_empty

/-- A run over several files writes what it writes for each of them, and its exit code
says whether the task fails for one of them. Advisories do not change the exit code, and
the line that reports a file as valid counts every statement but comments and blank lines.
Runs in a directory tree are among these runs. -/
theorem run_composes (task : Task) (files : FileBytes) (paths : List String) :
    task.Composes files paths ∧
      ((Task.validate true).outcomeOf files paths).exitCode =
        ((Task.validate false).outcomeOf files paths).exitCode ∧
      (∀ (lint : Bool) (path text : String), files.read path = .ok text →
        Validated lint path (Program.parse text)
          ((Task.validate lint).outcomeOf files [path]).messages) ∧
      ∀ directory : Directory,
        Invocation.run ⟨task, paths⟩ directory.read = task.outcomeOf directory.bytes paths := by
  refine ⟨task.composes files paths, Task.exitCode_validate files paths, ?_,
    fun directory => directory.run_eq task paths⟩
  intro lint path text hread
  have hrun : (Task.validate lint).outcomeOf files [path] =
      (Task.validate lint).runText path text Outcome.empty := by
    have hfile : (Task.validate lint).outcomeOf files [path] =
        (Task.validate lint).runFile Outcome.empty (path, files.read path) := rfl
    rw [hfile, hread, Task.runFile]
  rw [hrun]
  exact validated_runText lint path text

end RcScript
