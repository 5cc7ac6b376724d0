import RcScript.Program.Layout
import RcScript.Proofs.LineConcatenation

/-!
# Carriage returns before line feeds

A text without carriage returns is read alike however many of its line feeds are given
one. A return next to a line feed belongs to the terminator, so every line keeps its
content, its number and its columns; what moves is only the offsets, by one byte for
each return on the lines before. Returns elsewhere, or a second one before the same
line feed, would stay in the content and are left out.
-/

namespace RcScript

open Text

namespace Text

/-- The end of a line: a line feed, with a return before it if `returned`. -/
def lineEnd (returned : Bool) : List Char := if returned then ['\r', '\n'] else ['\n']

/-- A text with a carriage return before every line feed that is `chosen`. Line feeds
are counted from zero. -/
def withReturns (chosen : Nat → Bool) : List Char → List Char
  | [] => []
  | c :: cs =>
    if c = '\n' then lineEnd (chosen 0) ++ withReturns (fun k => chosen (k + 1)) cs
    else c :: withReturns chosen cs

/-- The number of returns that are put before a line. -/
def returnsBefore (chosen : Nat → Bool) (index : Nat) : Nat := (List.range index).countP chosen

/-- A line feed takes one byte, and a carriage return before it another. -/
theorem utf8Length_lineEnd (returned : Bool) :
    utf8Length (lineEnd returned) = 1 + if returned then 1 else 0 := by
  cases returned <;> rfl

/-- The returns before a line are those before it on the later lines, and that of the first line. -/
theorem returnsBefore_succ (chosen : Nat → Bool) (index : Nat) :
    returnsBefore chosen (index + 1) =
      returnsBefore (fun k => chosen (k + 1)) index + if chosen 0 then 1 else 0 := by
  have hmap : (List.map Nat.succ (List.range index)).countP chosen =
      (List.range index).countP fun k => chosen (k + 1) := List.countP_map
  rw [returnsBefore, returnsBefore, List.range_succ_eq_map, List.countP_cons, hmap]

/-- Only line feeds are given a return. -/
theorem withReturns_append (chosen : Nat → Bool) {cs : List Char} (h : '\n' ∉ cs)
    (later : List Char) : withReturns chosen (cs ++ later) = cs ++ withReturns chosen later := by
  induction cs with
  | nil => rfl
  | cons c cs ih =>
    have hc : c ≠ '\n' := (List.ne_of_not_mem_cons h).symm
    rw [List.cons_append, withReturns, if_neg hc, ih (List.not_mem_of_not_mem_cons h),
      List.cons_append]

/-- A first line without returns in it is split off with its end. -/
theorem lines_lineEnd {first : List Char} (hfeed : '\n' ∉ first) (hreturn : '\r' ∉ first)
    (returned : Bool) (later : List Char) :
    lines (first ++ (lineEnd returned ++ later)) =
      ⟨first, lineEnd returned⟩ :: lines later := by
  cases returned with
  | false =>
    have hlast : first.getLast? ≠ some '\r' := fun h => hreturn (List.mem_of_getLast? h)
    have hline := ofReversed_of_getLast hlast ['\n']
    have hsplit : first ++ (lineEnd false ++ later) = first ++ '\n' :: later := rfl
    rw [hsplit, lines_feed hfeed, hline]
    rfl
  | true =>
    have hboth : '\n' ∉ first ++ ['\r'] := by simpa using hfeed
    have hline := ofReversed_return first ['\n']
    have hsplit : first ++ (lineEnd true ++ later) = (first ++ ['\r']) ++ '\n' :: later := by
      simp [lineEnd]
    rw [hsplit, lines_feed hboth, hline]
    rfl

/-- The line feed behind a first line is given a return if it is chosen. -/
theorem withReturns_feed (chosen : Nat → Bool) {first : List Char} (hf : '\n' ∉ first)
    (later : List Char) :
    withReturns chosen (first ++ '\n' :: later) =
      first ++ (lineEnd (chosen 0) ++ withReturns (fun k => chosen (k + 1)) later) := by
  rw [withReturns_append chosen hf, withReturns, if_pos rfl]

/-- A text without line feeds is given no return. -/
theorem withReturns_last (chosen : Nat → Bool) {cs : List Char} (hf : '\n' ∉ cs) :
    withReturns chosen cs = cs := by
  have hkeep := withReturns_append chosen hf []
  rwa [withReturns, List.append_nil] at hkeep

/-- Every line keeps its content. -/
theorem contents_withReturns (chosen : Nat → Bool) {cs : List Char} (h : '\r' ∉ cs) :
    (lines (withReturns chosen cs)).map Line.content = (lines cs).map Line.content := by
  induction cs using line_induction generalizing chosen with
  | nil => rfl
  | last cs hne hf => rw [withReturns_last chosen hf]
  | feed first later hf ih =>
    simp only [List.mem_append, List.mem_cons, not_or] at h
    have hplain := lines_lineEnd hf h.1 false later
    have hlater := ih (fun k => chosen (k + 1)) h.2.2
    rw [withReturns_feed chosen hf, lines_lineEnd hf h.1, List.map_cons, hlater]
    rw [lineEnd, if_neg Bool.false_ne_true, List.singleton_append] at hplain
    rw [hplain, List.map_cons]

/-- What stands before a line grows by a byte for every return that is put there. -/
theorem length_take_withReturns (chosen : Nat → Bool) {cs : List Char} (h : '\r' ∉ cs)
    {index : Nat} (hlt : index < (lines cs).length) :
    utf8Length (((lines (withReturns chosen cs)).take index).flatMap Line.toList) =
      utf8Length (((lines cs).take index).flatMap Line.toList) + returnsBefore chosen index := by
  induction cs using line_induction generalizing chosen index with
  | nil => simp at hlt
  | last cs hne hf =>
    rw [lines_last hne hf, List.length_singleton] at hlt
    obtain rfl : index = 0 := by omega
    rfl
  | feed first later hf ih =>
    simp only [List.mem_append, List.mem_cons, not_or] at h
    have hplain := lines_lineEnd hf h.1 false later
    rw [lineEnd, if_neg Bool.false_ne_true, List.singleton_append] at hplain
    rw [withReturns_feed chosen hf, lines_lineEnd hf h.1, hplain]
    cases index with
    | zero => rfl
    | succ index =>
      rw [hplain, List.length_cons] at hlt
      have hlater := ih (fun k => chosen (k + 1)) h.2.2 (Nat.lt_of_succ_lt_succ hlt)
      have hend := utf8Length_lineEnd (chosen 0)
      have hfeed : utf8Length ['\n'] = 1 := by decide
      simp only [List.take_succ_cons, List.flatMap_cons, Line.toList, utf8Length_append, hlater,
        hend, hfeed, returnsBefore_succ]
      omega

end Text

/-- Moving a node shows only in its diagnostic. -/
theorem Node.toText_shift (node : Node) (bytes lines : Int) :
    (node.shift bytes lines).toText = node.toText := by
  cases node <;> rfl

/-- The offsets of a diagnostic show in no message. -/
theorem Diagnostic.message_shift (diagnostic : Diagnostic) (bytes : Int) :
    (diagnostic.shift bytes 0).message = diagnostic.message := by
  have hline : Span.move diagnostic.span.line 0 = diagnostic.span.line := Span.move_eq (by omega)
  simp only [message, locatedMessage, shift, Span.shift, hline]

/-- What a token is, apart from where it starts and stops in the text. -/
def Token.face (token : Token) : TokenKind × String × Nat × Nat :=
  (token.kind, token.text, token.span.line, token.span.column)

/-- Moving a token along the text leaves its face alone. -/
theorem Token.face_shift (token : Token) (bytes : Int) :
    (token.shift bytes 0).face = token.face := by
  have hline : Span.move token.span.line 0 = token.span.line := Span.move_eq (by omega)
  simp only [face, shift, Span.shift, hline]

/-- A statement as it is read on a line that starts `bytes` later. -/
structure Statement.Slid (bytes : Nat) (statement again : Statement) : Prop where
  /-- The meaning is the same, with the locations of a diagnostic moved. -/
  node : again.node = statement.node.shift bytes 0
  /-- The tokens are the same, moved. -/
  tokens : again.tokens = statement.tokens.map fun token => token.shift bytes 0

/-- The message of a statement shows no offset. -/
theorem Statement.Slid.message {bytes : Nat} {statement again : Statement}
    (h : Slid bytes statement again) :
    again.diagnostic?.map Diagnostic.message = statement.diagnostic?.map Diagnostic.message := by
  have hnode := h.node
  cases hold : statement.node with
  | malformed diagnostic text =>
    have hmessage := diagnostic.message_shift bytes
    rw [hold] at hnode
    simp only [diagnostic?, hold, hnode, Node.shift, Option.map_some, hmessage]
  | _ =>
    rw [hold] at hnode
    simp only [diagnostic?, hold, hnode, Node.shift]

namespace Program

/-- The text with returns before the chosen line feeds. -/
def returned (chosen : Nat → Bool) (text : String) : String :=
  String.ofList (withReturns chosen text.toList)

variable {text : String}

/-- Carriage returns before line feeds make no lines. -/
theorem length_statements_returned (h : '\r' ∉ text.toList) (chosen : Nat → Bool) :
    (parse (returned chosen text)).statements.length = (parse text).statements.length := by
  have hlength := congrArg List.length (contents_withReturns chosen h)
  rw [List.length_map, List.length_map] at hlength
  rw [length_statements, length_statements, returned, String.toList_ofList, hlength]

/-- The statement at a place of a text with returns is the one without, moved. Only the first line
starts at offset zero, and no return stands before it, so that a mark is skipped in both or in
neither. -/
theorem exists_slid (h : '\r' ∉ text.toList) (chosen : Nat → Bool) {index : Nat}
    {statement : Statement} (hstatement : (parse text).statements[index]? = some statement) :
    ∃ again, (parse (returned chosen text)).statements[index]? = some again ∧
      statement.Slid (returnsBefore chosen index) again := by
  obtain ⟨line, hline, rfl⟩ := exists_line hstatement
  have hlt := (List.getElem?_eq_some_iff.mp hline).1
  have hlength := length_take_withReturns chosen h hlt
  have hzero := origin_eq_zero_iff hlt
  have hcontents := congrArg (fun contents => contents[index]?) (contents_withReturns chosen h)
  simp only [List.getElem?_map, hline, Option.map_some, Option.map_eq_some_iff] at hcontents
  obtain ⟨again, hagain, hcontent⟩ := hcontents
  have hmoved : SourceLine.Moved (returnsBefore chosen index) 0
      ⟨utf8Length (((lines text.toList).take index).flatMap Line.toList), index + 1,
        line.content⟩
      ⟨utf8Length (((lines (withReturns chosen text.toList)).take index).flatMap Line.toList),
        index + 1, again.content⟩ := by
    refine ⟨by simp only; omega, by simp only; omega, hcontent, fun _ => ?_⟩
    have hnone : returnsBefore chosen 0 = 0 := rfl
    simp only [hlength]
    constructor
    · intro hboth
      omega
    · intro hfirst
      rw [hfirst, hzero.mp hfirst, hnone]
  have hread := Reader.readLine_moved hmoved
  refine ⟨_, by rw [getElem?_statements, returned, String.toList_ofList, hagain, Option.map_some],
    congrArg Prod.snd hread, congrArg Prod.fst hread⟩

/-- What shows no offset is the same of every statement. -/
theorem map_statements_returned (h : '\r' ∉ text.toList) (chosen : Nat → Bool)
    (view : Statement → β)
    (hview : ∀ {bytes : Nat} {statement again : Statement}, statement.Slid bytes again →
      view again = view statement) :
    (parse (returned chosen text)).statements.map view = (parse text).statements.map view := by
  have hlength := length_statements_returned h chosen
  refine List.ext_getElem? fun index => ?_
  rw [List.getElem?_map, List.getElem?_map]
  cases hstatement : (parse text).statements[index]? with
  | none =>
    rw [List.getElem?_eq_none_iff, ← hlength] at hstatement
    rw [List.getElem?_eq_none hstatement]
  | some statement =>
    obtain ⟨again, hagain, hslid⟩ := exists_slid h chosen hstatement
    rw [hagain, Option.map_some, Option.map_some, hview hslid]

/-- Whichever line feeds of a text without carriage returns are given one, it is read as
the same statements, with the offsets behind them moved, and written alike. -/
theorem parse_returned (h : '\r' ∉ text.toList) (chosen : Nat → Bool) :
    (parse (returned chosen text)).statements.length = (parse text).statements.length ∧
      (∀ (index : Nat) (statement : Statement),
        (parse text).statements[index]? = some statement →
        ∃ again, (parse (returned chosen text)).statements[index]? = some again ∧
          again.node = statement.node.shift (returnsBefore chosen index) 0 ∧
          again.tokens.map Token.face = statement.tokens.map Token.face) ∧
      (parse (returned chosen text)).diagnostics.map Diagnostic.message =
        (parse text).diagnostics.map Diagnostic.message ∧
      (parse (returned chosen text)).format = (parse text).format := by
  refine ⟨length_statements_returned h chosen, ?_, ?_, ?_⟩
  · intro index statement hstatement
    obtain ⟨again, hagain, hslid⟩ := exists_slid h chosen hstatement
    refine ⟨again, hagain, hslid.node, ?_⟩
    rw [hslid.tokens, List.map_map]
    exact List.map_congr_left fun token _ => token.face_shift _
  · have hmessages := map_statements_returned h chosen
      (fun statement => statement.diagnostic?.map Diagnostic.message) Statement.Slid.message
    have hdiagnostics : ∀ program : Program, program.diagnostics.map Diagnostic.message =
        (program.statements.map fun statement =>
          statement.diagnostic?.map Diagnostic.message).filterMap id := by
      intro program
      rw [diagnostics, List.map_filterMap, List.filterMap_map]
      rfl
    rw [hdiagnostics, hdiagnostics, hmessages]
  · have htexts := map_statements_returned h chosen
      (fun statement => statement.node.toText ++ "\n")
      fun hslid => by rw [hslid.node, Node.toText_shift]
    rw [format, format, htexts]

/-- A marked text with two malformed lines and a blank one. -/
def faultyText : String := "\uFEFFset\tx 1\n42 things\n\nbind --mode=hint 12"

/-- The first and the last line feed of `faultyText` are given a return. -/
theorem parse_returned_faultyText :
    '\r' ∉ faultyText.toList ∧
      (parse (returned (· != 1) faultyText)).statements.length =
        (parse faultyText).statements.length ∧
      (∀ (index : Nat) (statement : Statement),
        (parse faultyText).statements[index]? = some statement →
        ∃ again, (parse (returned (· != 1) faultyText)).statements[index]? = some again ∧
          again.node = statement.node.shift (returnsBefore (· != 1) index) 0 ∧
          again.tokens.map Token.face = statement.tokens.map Token.face) ∧
      (parse (returned (· != 1) faultyText)).diagnostics.map Diagnostic.message =
        (parse faultyText).diagnostics.map Diagnostic.message ∧
      (parse (returned (· != 1) faultyText)).format = (parse faultyText).format :=
  have hreturns : '\r' ∉ faultyText.toList := by decide
  ⟨hreturns, parse_returned hreturns (· != 1)⟩

end Program

end RcScript
