import RcScript.Proofs.LineEnding
import RcScript.Proofs.LineWeight

/-!
# Reading canonical text again

The canonical text of a program has one line for each statement, and the line is
read as the settled node where it ends in no carriage return. A malformed line is
written as it was read, so it fails again for the same reason unless trimming its
carriage returns has changed it. Formatting is therefore a fixed point on the
programs that lose nothing by it, and the exact condition for a fixed point is
stated for all others.
-/

namespace RcScript

open Text

/-- A content is read as a node at a place among the lines. -/
def ReadAt (index : Nat) (content : List Char) (node : Node) : Prop :=
  ∃ line : SourceLine, line.content = content ∧ (line.origin = 0 ↔ index = 0) ∧
    (Reader.readLine line).2 = node

namespace ReadAt

variable {index : Nat} {content : List Char} {node : Node}

/-- The grammar is about the same part of a content in either description. -/
theorem text_eq {line : SourceLine} (horigin : line.origin = 0 ↔ index = 0) :
    line.text = lineText (index = 0) line.content :=
  lineText_congr horigin line.content

/-- A content that denotes a node is read as that node. -/
theorem eq_of_denotes (h : ReadAt index content node) {other : Node}
    (hdenotes : Denotes (lineText (index = 0) content) other) : node = other := by
  obtain ⟨line, rfl, horigin, rfl⟩ := h
  rw [← text_eq horigin] at hdenotes
  exact Reader.readLine_of_denotes hdenotes

/-- A content is read as a node that it denotes, or as malformed. -/
theorem denotes_or_malformed (h : ReadAt index content node) :
    Denotes (lineText (index = 0) content) node ∨
      (∃ diagnostic, node = .malformed diagnostic (String.ofList content)) ∧
        ∀ other, ¬ Denotes (lineText (index = 0) content) other := by
  obtain ⟨line, rfl, horigin, rfl⟩ := h
  rw [← text_eq horigin]
  rcases Reader.denotes_readLine line with hdenotes | ⟨cause, fallback, hmalformed⟩
  · exact .inl hdenotes
  · have hexists : ∃ diagnostic, (Reader.readLine line).2 =
        .malformed diagnostic (String.ofList line.content) := ⟨_, hmalformed⟩
    exact .inr ⟨hexists, (Reader.readLine_meaning line).2.mpr hexists⟩

/-- Skipping the mark of the first line does not add to the weight of a line. -/
theorem weight_lineText {w : Char → Nat} (index : Nat) (content : List Char) :
    weight w (lineText (index = 0) content) ≤ weight w content := by
  rw [lineText]
  split
  · rw [unmarked]
    split
    · cases content with
      | nil => exact Nat.le_refl _
      | cons c tail =>
        rw [List.tail_cons, weight_cons]
        exact Nat.le_add_left _ _
    · exact Nat.le_refl _
  · exact Nat.le_refl _

/-- The canonical line of what is read weighs no more than the content. -/
theorem weight_toText {w : Char → Nat} (hw : w ' ' ≤ w '\t') (h : ReadAt index content node) :
    weight w node.toText.toList ≤ weight w content := by
  rcases h.denotes_or_malformed with hdenotes | ⟨⟨diagnostic, rfl⟩, -⟩
  · exact Nat.le_trans (RcScript.weight_toText hw hdenotes) (weight_lineText index content)
  · have htrim := weight_trimEnd (w := w) (· == '\r') content
    rw [Node.toText, toList_trimReturns, String.toList_ofList]
    exact htrim

/-- What is read of a content without line feeds is written without any, as a weight that counts
line feeds alone shows. -/
theorem feed_not_mem (h : ReadAt index content node) (hfeed : '\n' ∉ content) :
    '\n' ∉ node.toText.toList := by
  have hle := h.weight_toText (w := fun c => if c = '\n' then 1 else 0) (by decide)
  have hcontent : weight (fun c => if c = '\n' then 1 else 0) content = 0 := by
    rw [weight_eq_zero]
    intro c hc
    have hne : c ≠ '\n' := by
      intro he
      rw [he] at hc
      exact hfeed hc
    exact if_neg hne
  have hzero := weight_eq_zero.mp (Nat.le_zero.mp (hcontent ▸ hle))
  intro hmem
  exact absurd (hzero '\n' hmem) (by decide)

/-- What is read is written in no more characters than the content has. -/
theorem length_toText (h : ReadAt index content node) :
    node.toText.toList.length ≤ content.length := by
  have hle := h.weight_toText (w := fun _ => 1) (Nat.le_refl 1)
  rw [weight_one, weight_one] at hle
  exact hle

end ReadAt

/-- The line that a node is written as. -/
def canonicalLine (node : Node) : Line := Line.ofReversed node.toText.toList.reverse ['\n']

/-- A canonical line is the text of its node and a line feed. -/
theorem toList_canonicalLine (node : Node) :
    (canonicalLine node).toList = node.toText.toList ++ ['\n'] := by
  rw [canonicalLine, toList_ofReversed, List.reverse_reverse]

/-- A canonical line is the whole text of its node unless that ends in a return. -/
theorem content_canonicalLine {node : Node} (h : node.toText.toList.getLast? ≠ some '\r') :
    (canonicalLine node).content = node.toText.toList := by
  rw [canonicalLine, ofReversed_of_getLast h]

/-- A return at the end of the text joins the terminator of the canonical line. -/
theorem content_canonicalLine_return {node : Node} {front : List Char}
    (h : node.toText.toList = front ++ ['\r']) : (canonicalLine node).content = front := by
  rw [canonicalLine, h, ofReversed_return]

namespace Program

/-- The nodes of a program, in source order. -/
def nodes (program : Program) : List Node := program.statements.map Statement.node

/-- The canonical text is the canonical lines of the nodes. -/
theorem toList_format (program : Program) :
    program.format.toList = program.nodes.flatMap fun node => node.toText.toList ++ ['\n'] := by
  rw [format, String.toList_join, nodes, List.flatMap_map, List.flatMap_map]
  refine congrArg (fun f => program.statements.flatMap f) ?_
  funext statement
  rw [String.toList_append]
  rfl

/-- Canonical lines without line feeds inside are split where they were joined. -/
theorem lines_flatMap_toText {found : List Node}
    (h : ∀ node ∈ found, '\n' ∉ node.toText.toList) :
    lines (found.flatMap fun node => node.toText.toList ++ ['\n']) = found.map canonicalLine := by
  induction found with
  | nil => rfl
  | cons node later ih =>
    have hfeed := h node List.mem_cons_self
    have hlater := ih fun other hmem => h other (List.mem_cons_of_mem _ hmem)
    rw [List.flatMap_cons, List.append_assoc, List.singleton_append, lines_feed hfeed, hlater,
      List.map_cons, canonicalLine]

end Program

namespace Program

/-- A text has as many nodes as lines. -/
theorem length_nodes_parse (text : String) :
    (parse text).nodes.length = (lines text.toList).length := by
  rw [nodes, List.length_map, length_statements]

/-- The node at a place among the lines is what the line there is read as. -/
theorem exists_readAt {text : String} {index : Nat} {line : Line}
    (h : (lines text.toList)[index]? = some line) :
    ∃ node, (parse text).nodes[index]? = some node ∧ '\n' ∉ line.content ∧
      ReadAt index line.content node := by
  obtain ⟨hlt, -⟩ := List.getElem?_eq_some_iff.mp h
  have hstatement := Reader.getElem?_readLines 0 1 (lines text.toList) index
  rw [h, Option.map_some] at hstatement
  have hsplit := lines_cut h
  have hzero := origin_eq_zero_iff hlt
  rw [← Nat.zero_add (utf8Length _)] at hzero
  refine ⟨(Reader.readStatement _ (1 + index) line).node, ?_,
    (isLine_of_lines hsplit).content_feed, ⟨_, 1 + index, line.content⟩, rfl, hzero, rfl⟩
  rw [nodes, List.getElem?_map, parse, hstatement, Option.map_some]

/-- Every node of a program was read from a content without line feeds. -/
theorem exists_content {text : String} {index : Nat} {node : Node}
    (h : (parse text).nodes[index]? = some node) :
    ∃ content, '\n' ∉ content ∧ ReadAt index content node := by
  obtain ⟨hlt, -⟩ := List.getElem?_eq_some_iff.mp h
  rw [length_nodes_parse] at hlt
  obtain ⟨found, hfound, hfeed, hread⟩ := exists_readAt (List.getElem?_eq_getElem hlt)
  rw [h, Option.some.injEq] at hfound
  exact ⟨_, hfeed, hfound ▸ hread⟩

/-- No node of a program is written with a line feed inside. -/
theorem feed_not_mem_toText {text : String} :
    ∀ node ∈ (parse text).nodes, '\n' ∉ node.toText.toList := by
  intro node hmem
  obtain ⟨index, hindex⟩ := List.mem_iff_getElem?.mp hmem
  obtain ⟨content, hfeed, hread⟩ := exists_content hindex
  exact hread.feed_not_mem hfeed

/-- The lines of the canonical text are the canonical lines. -/
theorem lines_format (text : String) :
    lines (parse text).format.toList = (parse text).nodes.map canonicalLine := by
  rw [toList_format, lines_flatMap_toText feed_not_mem_toText]

/-- The canonical text has a line for each node. -/
theorem length_nodes_format (text : String) :
    (parse (parse text).format).nodes.length = (parse text).nodes.length := by
  rw [length_nodes_parse, lines_format, List.length_map]

/-- Reading canonical text again reads the canonical line of every node. -/
theorem exists_again {text : String} {index : Nat} {node : Node}
    (h : (parse text).nodes[index]? = some node) :
    ∃ content again, ReadAt index content node ∧
      (parse (parse text).format).nodes[index]? = some again ∧
      ReadAt index (canonicalLine node).content again := by
  obtain ⟨content, -, hread⟩ := exists_content h
  have hline : (lines (parse text).format.toList)[index]? = some (canonicalLine node) := by
    rw [lines_format, List.getElem?_map, h, Option.map_some]
  obtain ⟨again, hagain, -, hreadAgain⟩ := exists_readAt hline
  exact ⟨content, again, hread, hagain, hreadAgain⟩

end Program

/-- Whether a text ends in a carriage return. -/
def EndsInReturn (text : String) : Prop := text.toList.getLast? = some '\r'

/-- The node with every location in its diagnostic erased. -/
def Node.unlocated : Node → Node
  | malformed diagnostic text =>
    malformed ⟨diagnostic.cause, Span.zero,
      diagnostic.fallback.map fun token => { token with span := Span.zero }⟩ text
  | other => other

/-- The text that a node keeps to the end of its line. -/
def Node.lastText? : Node → Option String
  | quickmark _ url => some url
  | comment text => some text
  | malformed _ text => some text
  | _ => none

/-- A node that formatting keeps: no arguments were trimmed to nothing, and the text
at the end of the line ends in no carriage return. -/
def Node.Steady (node : Node) : Prop :=
  (∀ command ∈ node.command?, command.args ≠ some "") ∧
    ∀ text ∈ node.lastText?, ¬ EndsInReturn text

/-- A node whose canonical line is written the same again: no arguments were
trimmed to nothing, no URL at the end ends in a carriage return, and a malformed
line has gained no other meaning by losing its carriage returns. -/
def Node.Settles (index : Nat) (node : Node) : Prop :=
  (∀ command ∈ node.command?, command.args ≠ some "") ∧ match node with
    | quickmark _ url => ¬ EndsInReturn url
    | malformed _ text => ∀ other, Denotes (lineText (index = 0) (trimReturns text).toList) other →
        other.toText = trimReturns text
    | _ => True

instance (text : String) : Decidable (EndsInReturn text) :=
  inferInstanceAs (Decidable (text.toList.getLast? = some '\r'))

instance (node : Node) : Decidable node.Steady :=
  inferInstanceAs (Decidable (_ ∧ _))

/-- A text that ends in no carriage return is left alone. -/
theorem trimReturns_of_not_endsInReturn {text : String} (h : ¬ EndsInReturn text) :
    trimReturns text = text := by
  have hlast : ∀ c ∈ text.toList.getLast?, (c == '\r') = false := by
    intro c hc
    refine Bool.eq_false_iff.mpr fun he => h ?_
    rw [beq_iff_eq] at he
    rw [EndsInReturn, ← he]
    exact hc
  rw [trimReturns, trimEnd_of_getLast hlast, String.ofList_toList]

/-- Trimming leaves no carriage return at the end. -/
theorem not_endsInReturn_trimReturns (text : String) : ¬ EndsInReturn (trimReturns text) := by
  intro h
  rw [EndsInReturn, toList_trimReturns] at h
  exact absurd (getLast?_trimEnd (· == '\r') text.toList '\r' h) (by decide)

/-- The canonical line of what a line denotes ends in a carriage return exactly for a
quickmark of which the URL does. -/
theorem endsInReturn_iff_of_denotes {l : List Char} {node : Node}
    (hdenotes : Denotes l node) :
    EndsInReturn node.toText ↔ ∃ key url, node = .quickmark key url ∧ EndsInReturn url := by
  constructor
  · exact quickmark_of_return hdenotes
  · rintro ⟨key, url, rfl, hurl⟩
    rwa [EndsInReturn, getLast?_of_denotes_quickmark hdenotes]

/-- A malformed line is written as it was read, less its carriage returns. -/
theorem content_malformed (diagnostic : Diagnostic) (text : String) :
    (canonicalLine (.malformed diagnostic text)).content = (trimReturns text).toList :=
  content_canonicalLine (not_endsInReturn_trimReturns text)

/-- Nodes that differ in places alone are written the same. -/
theorem toText_unlocated (node : Node) : node.unlocated.toText = node.toText := by
  cases node <;> rfl

/-- Moving a node changes its locations only. -/
theorem unlocated_shift (node : Node) (bytes lines : Int) :
    (node.shift bytes lines).unlocated = node.unlocated := by
  cases node with
  | malformed diagnostic text =>
    obtain ⟨cause, span, fallback⟩ := diagnostic
    cases fallback <;> rfl
  | _ => rfl

namespace ReadAt

variable {index : Nat} {content : List Char} {node again : Node}

/-- One content is read as one node wherever it stands, up to places. -/
theorem unlocated_eq {other : Node} (h : ReadAt index content node)
    (h' : ReadAt index content other) : node.unlocated = other.unlocated := by
  obtain ⟨line, rfl, horigin, rfl⟩ := h
  obtain ⟨line', hcontent, horigin', rfl⟩ := h'
  have hmoved : SourceLine.Moved ((line'.origin : Int) - line.origin)
      ((line'.number : Int) - line.number) line line' :=
    ⟨by omega, by omega, hcontent, fun _ => horigin'.trans horigin.symm⟩
  rw [Reader.readLine_moved hmoved, Reader.shiftRead, unlocated_shift]

/-- The canonical line of a denoted node is read as the settled node, unless it
ends in a carriage return. -/
theorem again_of_denotes {l : List Char} (hdenotes : Denotes l node)
    (hreturn : ¬ EndsInReturn node.toText)
    (hagain : ReadAt index (canonicalLine node).content again) : again = node.settled := by
  rw [content_canonicalLine hreturn] at hagain
  refine hagain.eq_of_denotes ?_
  rw [lineText_of_unmarked (unmarked_toText hdenotes)]
  exact denotes_toText hdenotes

/-- A malformed line is written again as it was exactly when it settles. -/
theorem toText_malformed {diagnostic : Diagnostic} {text : String}
    (hagain : ReadAt index (canonicalLine (.malformed diagnostic text)).content again) :
    again.toText = trimReturns text ↔ (Node.malformed diagnostic text).Settles index := by
  rw [content_malformed] at hagain
  constructor
  · intro htext
    refine ⟨by simp [Node.command?], ?_⟩
    intro other hdenotes
    rw [← hagain.eq_of_denotes hdenotes]
    exact htext
  · intro hsettles
    rcases hagain.denotes_or_malformed with hdenotes | ⟨⟨found, rfl⟩, -⟩
    · exact hsettles.2 again hdenotes
    · rw [Node.toText, String.ofList_toList, trimReturns_trimReturns]

/-- A node that is not malformed settles when its arguments are kept and its
canonical line ends in no carriage return. -/
theorem settles_iff_of_denotes {l : List Char} (hdenotes : Denotes l node) :
    node.Settles index ↔ (∀ command ∈ node.command?, command.args ≠ some "") ∧
      ¬ EndsInReturn node.toText := by
  have hkind := Reader.kind_of_denotes hdenotes
  rw [endsInReturn_iff_of_denotes hdenotes]
  refine and_congr_right fun _ => ?_
  cases node with
  | quickmark key url => simp
  | malformed diagnostic text => exact absurd rfl hkind
  | _ => simp

/-- A node whose canonical line ends in a return is not written again as it was, since the return
joins the terminator and what is left of the line is too short. -/
theorem toText_again_ne (hreturn : EndsInReturn node.toText)
    (hagain : ReadAt index (canonicalLine node).content again) : again.toText ≠ node.toText := by
  obtain ⟨front, hfront⟩ := List.getLast?_eq_some_iff.mp hreturn
  have hshort := hagain.length_toText
  rw [content_canonicalLine_return hfront] at hshort
  intro htext
  rw [htext, hfront, List.length_append, List.length_singleton] at hshort
  omega

/-- A node is written again as it was exactly when it settles. -/
theorem toText_again_iff (hread : ReadAt index content node)
    (hagain : ReadAt index (canonicalLine node).content again) :
    again.toText = node.toText ↔ node.Settles index := by
  rcases hread.denotes_or_malformed with hdenotes | ⟨⟨diagnostic, rfl⟩, -⟩
  · rw [settles_iff_of_denotes hdenotes]
    by_cases hreturn : EndsInReturn node.toText
    · constructor
      · intro htext
        exact absurd htext (toText_again_ne hreturn hagain)
      · intro h
        exact absurd hreturn h.2
    · rw [again_of_denotes hdenotes hreturn hagain, toText_settled]
      exact ⟨fun h => ⟨h, hreturn⟩, fun h => h.1⟩
  · exact toText_malformed hagain

/-- A steady node is read again as itself, up to places. -/
theorem unlocated_again (hread : ReadAt index content node)
    (hagain : ReadAt index (canonicalLine node).content again) (hsteady : node.Steady) :
    again.unlocated = node.unlocated := by
  rcases hread.denotes_or_malformed with hdenotes | ⟨⟨diagnostic, rfl⟩, -⟩
  · have hreturn : ¬ EndsInReturn node.toText := by
      intro hends
      obtain ⟨key, url, rfl, hurl⟩ := quickmark_of_return hdenotes hends
      exact hsteady.2 url rfl hurl
    have hcomment : ∀ text, node = .comment text → trimReturns text = text := by
      rintro text rfl
      exact trimReturns_of_not_endsInReturn (hsteady.2 text rfl)
    rw [again_of_denotes hdenotes hreturn hagain, settled_eq hdenotes hsteady.1 hcomment]
  · have htext : trimReturns (String.ofList content) = String.ofList content :=
      trimReturns_of_not_endsInReturn (hsteady.2 _ rfl)
    rw [content_malformed, htext, String.toList_ofList] at hagain
    exact hagain.unlocated_eq hread

end ReadAt

namespace Program

/-- The canonical text is decided by the canonical lines of the nodes. -/
theorem format_congr {program other : Program}
    (h : program.nodes.map Node.toText = other.nodes.map Node.toText) :
    program.format = other.format := by
  have hchars : ∀ p : Program, p.format.toList =
      (p.nodes.map Node.toText).flatMap fun text => text.toList ++ ['\n'] := by
    intro p
    rw [toList_format, List.flatMap_map]
  rw [← String.toList_inj, hchars, hchars, h]

/-- A program that formatting keeps: every statement is steady. -/
def Steady (program : Program) : Prop := ∀ node ∈ program.nodes, node.Steady

instance (program : Program) : Decidable program.Steady :=
  inferInstanceAs (Decidable (∀ node ∈ program.nodes, node.Steady))

/-- Formatting keeps every statement of a steady program, up to places, and
formatting again changes nothing. -/
theorem parse_format {text : String} (h : (parse text).Steady) :
    (parse (parse text).format).nodes.map Node.unlocated =
        (parse text).nodes.map Node.unlocated ∧
      (parse (parse text).format).format = (parse text).format := by
  have hnodes : (parse (parse text).format).nodes.map Node.unlocated =
      (parse text).nodes.map Node.unlocated := by
    refine List.ext_getElem? fun index => ?_
    rw [List.getElem?_map, List.getElem?_map]
    cases hnode : (parse text).nodes[index]? with
    | none =>
      rw [List.getElem?_eq_none_iff] at hnode
      rw [List.getElem?_eq_none (by rw [length_nodes_format]; exact hnode)]
    | some node =>
      obtain ⟨content, again, hread, hagain, hreadAgain⟩ := exists_again hnode
      have hsteady := h node (List.mem_of_getElem? hnode)
      rw [hagain, Option.map_some, Option.map_some, hread.unlocated_again hreadAgain hsteady]
  refine ⟨hnodes, format_congr ?_⟩
  have htexts := congrArg (List.map Node.toText) hnodes
  have hcomp : Node.toText ∘ Node.unlocated = Node.toText := funext toText_unlocated
  rw [List.map_map, List.map_map, hcomp] at htexts
  exact htexts

/-- A marked text with a binding between blanks and a malformed line. -/
def spacedText : String := "\uFEFFbind --mode=hint\tj  open  a \r\nset\r\n"

/-- Formatting keeps the statements of `spacedText`. -/
theorem parse_format_spaced :
    (parse (parse spacedText).format).nodes.map Node.unlocated =
        (parse spacedText).nodes.map Node.unlocated ∧
      (parse (parse spacedText).format).format = (parse spacedText).format := by
  have hsteady : (parse spacedText).Steady := by decide +kernel
  exact @parse_format spacedText hsteady

/-- Programs with one canonical text have the same canonical lines, if no line feed
stands inside one. -/
theorem texts_of_format {program other : Program}
    (hprogram : ∀ node ∈ program.nodes, '\n' ∉ node.toText.toList)
    (hother : ∀ node ∈ other.nodes, '\n' ∉ node.toText.toList)
    (h : program.format = other.format) :
    program.nodes.map Node.toText = other.nodes.map Node.toText := by
  have hlines := congrArg (fun text => lines text.toList) h
  simp only [toList_format, lines_flatMap_toText hprogram, lines_flatMap_toText hother] at hlines
  have htexts : ∀ node : Node,
      String.ofList ((canonicalLine node).toList.dropLast) = node.toText := by
    intro node
    rw [toList_canonicalLine, List.dropLast_concat, String.ofList_toList]
  have hmap := congrArg (List.map fun line : Line => String.ofList line.toList.dropLast) hlines
  rw [List.map_map, List.map_map] at hmap
  have hcomp : (fun line : Line => String.ofList line.toList.dropLast) ∘ canonicalLine =
      Node.toText := funext htexts
  rwa [hcomp] at hmap

/-- Formatting again changes nothing exactly when every statement settles. -/
theorem format_format_iff (text : String) :
    (parse (parse text).format).format = (parse text).format ↔
      ∀ (index : Nat) (node : Node), (parse text).nodes[index]? = some node →
        node.Settles index := by
  constructor
  · intro h index node hnode
    have htexts := texts_of_format feed_not_mem_toText feed_not_mem_toText h
    obtain ⟨content, again, hread, hagain, hreadAgain⟩ := exists_again hnode
    have hat := congrArg (fun texts => texts[index]?) htexts
    simp only [List.getElem?_map, hnode, hagain, Option.map_some, Option.some.injEq] at hat
    exact (hread.toText_again_iff hreadAgain).mp hat
  · intro h
    refine format_congr (List.ext_getElem? fun index => ?_)
    rw [List.getElem?_map, List.getElem?_map]
    cases hnode : (parse text).nodes[index]? with
    | none =>
      rw [List.getElem?_eq_none_iff] at hnode
      rw [List.getElem?_eq_none (by rw [length_nodes_format]; exact hnode)]
    | some node =>
      obtain ⟨content, again, hread, hagain, hreadAgain⟩ := exists_again hnode
      have hsettles := h index node hnode
      rw [hagain, Option.map_some, Option.map_some,
        (hread.toText_again_iff hreadAgain).mpr hsettles]

/-- A command with a no-break space for arguments loses first them and then the
space before them. -/
theorem format_noBreakSpace :
    (parse (parse "echo \u00a0").format).format ≠ (parse "echo \u00a0").format := by
  decide +kernel

end Program

end RcScript
