import RcScript.Proofs.FormatStability

/-!
# Formatting keeps the words of every line

The words of a text are its longest runs of characters that are no white space.
Formatting writes one line for each line read, with the same words in the same order;
a byte-order mark that opens the text or the canonical text belongs to no word. This
holds of malformed lines too, which lose nothing but carriage returns at their end.
-/

namespace RcScript

open Text

/-- The words of a text: the longest runs of characters that are no white space. -/
def words (cs : List Char) : List (List Char) :=
  (cs.splitOnP isWhiteSpace).filter fun word => !word.isEmpty

/-- The empty text has no words. -/
theorem words_nil : words [] = [] := rfl

/-- White space parts the words before it from those behind it. -/
theorem words_append_cons (cs ds : List Char) {c : Char} (hc : isWhiteSpace c = true) :
    words (cs ++ c :: ds) = words cs ++ words ds := by
  rw [words, List.splitOnP_append_cons cs ds hc, List.filter_append]
  rfl

/-- White space in front belongs to no word. -/
theorem words_cons {c : Char} (hc : isWhiteSpace c = true) (cs : List Char) :
    words (c :: cs) = words cs := by
  have hsplit := words_append_cons [] cs hc
  rwa [words_nil, List.nil_append, List.nil_append] at hsplit

/-- White space at the end belongs to no word. -/
theorem words_append_white (cs : List Char) {tail : List Char}
    (h : ∀ c ∈ tail, isWhiteSpace c = true) : words (cs ++ tail) = words cs := by
  induction tail generalizing cs with
  | nil => rw [List.append_nil]
  | cons c tail ih =>
    have hc := h c List.mem_cons_self
    have hnil := ih [] fun d hd => h d (List.mem_cons_of_mem c hd)
    rw [List.nil_append] at hnil
    rw [words_append_cons cs tail hc, hnil, words_nil, List.append_nil]

/-- Blanks in front belong to no word. -/
theorem words_blanks_append {blanks : List Char} (h : Blanks blanks) (cs : List Char) :
    words (blanks ++ cs) = words cs := by
  induction blanks with
  | nil => rfl
  | cons c blanks ih =>
    have hc := isWhiteSpace_of_isBlank (h c List.mem_cons_self)
    rw [List.cons_append, words_cons hc]
    exact ih fun d hd => h d (List.mem_cons_of_mem c hd)

/-- A gap parts words as a single space does. -/
theorem words_append_gap (cs : List Char) {gap : List Char} (h : Gap gap) (ds : List Char) :
    words (cs ++ (gap ++ ds)) = words cs ++ words ds := by
  obtain ⟨hne, hblanks⟩ := h
  cases gap with
  | nil => exact absurd rfl hne
  | cons c gap =>
    have hc := isWhiteSpace_of_isBlank (hblanks c List.mem_cons_self)
    rw [List.cons_append, words_append_cons cs _ hc, words_blanks_append]
    exact fun d hd => hblanks d (List.mem_cons_of_mem c hd)

/-- Making gaps single spaces keeps the words, whatever stands in front. A character that is kept
joins what stands in front of it. -/
theorem words_squeezed {cs ds : List Char} (h : Squeezed cs ds) (front : List Char) :
    words (front ++ cs) = words (front ++ ds) := by
  induction h generalizing front with
  | nil => rfl
  | keep c _ ih =>
    have hfront := ih (front ++ [c])
    rwa [List.append_assoc, List.append_assoc, List.singleton_append, List.singleton_append]
      at hfront
  | gap hgap _ ih =>
    rw [words_append_gap front hgap, words_append_cons front _ (by decide)]
    exact congrArg _ (ih [])

/-- Texts that differ in their spacing have the same words. -/
theorem words_respaced {cs ds : List Char} (h : Respaced cs ds) : words cs = words ds := by
  obtain ⟨blanks, body, tail, rfl, hblanks, hwhite, hsqueezed⟩ := h
  rw [words_blanks_append hblanks, words_append_white body hwhite]
  exact words_squeezed hsqueezed []

/-- White space at the end belongs to no word, with or without a mark in front. The mark is no white
space, so that none is skipped where the whole text is white space. -/
theorem words_lineText_append (isFirst : Prop) [Decidable isFirst] (cs : List Char)
    {tail : List Char} (h : ∀ c ∈ tail, isWhiteSpace c = true) :
    words (lineText isFirst (cs ++ tail)) = words (lineText isFirst cs) := by
  have hunmarked : words (unmarked (cs ++ tail)) = words (unmarked cs) := by
    cases cs with
    | nil =>
      have hhead : tail.head? ≠ some byteOrderMark := by
        intro hmark
        have hwhite := h byteOrderMark (List.mem_of_mem_head? hmark)
        exact absurd hwhite (by decide)
      rw [List.nil_append, unmarked, if_neg hhead]
      exact words_append_white [] h
    | cons c cs =>
      by_cases hmark : c = byteOrderMark
      · simpa [unmarked, hmark] using words_append_white cs h
      · simpa [unmarked, hmark] using words_append_white (c :: cs) h
  rw [lineText, lineText]
  split
  · exact hunmarked
  · exact words_append_white cs h

/-- The canonical line of what is read has the words of the content. -/
theorem ReadAt.words_toText {index : Nat} {content : List Char} {node : Node}
    (h : ReadAt index content node) :
    words (lineText (index = 0) node.toText.toList) = words (lineText (index = 0) content) := by
  rcases h.denotes_or_malformed with hdenotes | ⟨⟨diagnostic, rfl⟩, -⟩
  · rw [lineText_of_unmarked (unmarked_toText hdenotes), words_respaced (respaced_toText hdenotes)]
  · obtain ⟨tail, htail, hreturns⟩ := exists_trimEnd (· == '\r') content
    have hwhite : ∀ c ∈ tail, isWhiteSpace c = true := by
      intro c hc
      rw [beq_iff_eq.mp (hreturns c hc)]
      decide
    have hwords := words_lineText_append (index = 0) (trimEnd (· == '\r') content) hwhite
    rw [Node.toText, toList_trimReturns, String.toList_ofList, ← hwords, ← htail]

/-- Nothing but white space ends a line. -/
theorem isWhiteSpace_of_mem_terminator {cs : List Char} {line : Line} (h : line ∈ lines cs) :
    ∀ c ∈ line.terminator, isWhiteSpace c = true := by
  obtain ⟨front, back, hsplit⟩ := List.append_of_mem h
  rcases (isLine_of_lines hsplit).terminator with ht | ht | ⟨-, ht | ht⟩ <;> rw [ht] <;>
    exact List.all_eq_true.mp (by decide)

namespace Program

/-- The canonical text has one line for each statement, which ends with a line feed
and has the words of the line that the statement was read from, less one mark at the
start of either text. -/
theorem words_format (text : String) :
    (lines text.toList).length = (parse text).statements.length ∧
      (lines (parse text).format.toList).length = (parse text).statements.length ∧
      (∀ line ∈ lines (parse text).format.toList, line.toList.getLast? = some '\n') ∧
      ∀ (index : Nat) (input output : Line), (lines text.toList)[index]? = some input →
        (lines (parse text).format.toList)[index]? = some output →
        words (lineText (index = 0) output.toList) =
          words (lineText (index = 0) input.toList) := by
  have hlength := length_nodes_parse text
  rw [nodes, List.length_map] at hlength
  rw [lines_format]
  refine ⟨hlength.symm, by rw [nodes, List.length_map, List.length_map], ?_, ?_⟩
  · intro line hline
    obtain ⟨node, -, rfl⟩ := List.mem_map.mp hline
    rw [toList_canonicalLine, List.getLast?_concat]
  · intro index input output hinput houtput
    obtain ⟨node, hnode, -, hread⟩ := exists_readAt hinput
    rw [List.getElem?_map, hnode, Option.map_some, Option.some.injEq] at houtput
    have hfeed : ∀ c ∈ ['\n'], isWhiteSpace c = true := List.forall_mem_singleton.mpr (by decide)
    have hterminator := isWhiteSpace_of_mem_terminator (List.mem_of_getElem? hinput)
    rw [← houtput, toList_canonicalLine, words_lineText_append _ _ hfeed, Line.toList,
      words_lineText_append _ _ hterminator, hread.words_toText]

end Program

end RcScript
