import RcScript.Proofs.CanonicalLine

/-!
# How canonical lines begin and end

No canonical line begins with a byte-order mark, and only the URL of a quickmark
can make it end in a carriage return: every other part that may stand last is made
of word characters or was trimmed.
-/

namespace RcScript

open Text

/-- A part that may stand last: it is not empty and ends in no carriage return. -/
def Firm (part : String) : Prop := part.toList ≠ [] ∧ part.toList.getLast? ≠ some '\r'

/-- What stands last in a canonical line ends it. -/
theorem getLast?_trail {last : String} (h : last.toList ≠ []) (before : List Char)
    (parts : List String) :
    (before ++ trail (parts ++ [last])).getLast? = last.toList.getLast? := by
  have hsplit : before ++ trail (parts ++ [last]) =
      (before ++ trail parts ++ [' ']) ++ last.toList := by
    rw [trail_append, trail_cons, trail_nil, List.append_nil]
    simp
  rw [hsplit, List.getLast?_append, List.getLast?_eq_some_getLast h, Option.some_or]

/-- A canonical line with a firm part last ends in no carriage return. -/
theorem getLast?_of_firm {parts : List String} (hne : parts ≠ [])
    (h : ∀ last ∈ parts.getLast?, Firm last) (before : List Char) :
    (before ++ trail parts).getLast? ≠ some '\r' := by
  rcases List.eq_nil_or_concat parts with rfl | ⟨front, last, rfl⟩
  · exact absurd rfl hne
  · rw [List.concat_eq_append] at h ⊢
    have hfirm := h last (by simp)
    rw [getLast?_trail hfirm.1]
    exact hfirm.2

/-- Word characters make a firm part. -/
theorem firm_of_isWord {part : String} (h : IsWord part.toList) : Firm part := by
  refine ⟨h.1, ?_⟩
  intro hlast
  have hword := h.2 '\r' (List.mem_of_getLast? hlast)
  exact absurd hword (by decide)

/-- A name is firm, since it holds no white space. -/
theorem firm_of_identifier {part : String} (h : Pattern.identifier.Lang part.toList) :
    Firm part :=
  firm_of_isWord ⟨h.1, fun c hc => isWordChar_of_isNameChar (h.2 c hc)⟩

/-- The value of a setting is firm. -/
theorem firm_of_value {value : SettingValue} (h : value.Valid) : Firm value.text := by
  cases value with
  | word text => exact firm_of_identifier h
  | number text =>
    exact firm_of_isWord ⟨h.1, fun c hc =>
      isWordChar_of_isLabelChar (isLabelChar_of_isDigit (h.2 c hc))⟩

/-- The notation of a key is firm. -/
theorem firm_of_key {key : Key} (h : key.Valid) : Firm key.toText := by
  cases key with
  | single k =>
    refine firm_of_isWord ⟨by simp [Key.toText], ?_⟩
    intro c hc
    rw [Key.toText, String.toList_ofList, List.mem_singleton] at hc
    exact hc ▸ isWordChar_of_isLabelChar (isLabelChar_of_isLetter h)
  | compound m k => simp [Firm, Key.toText]

/-- The canonical text of a command ends in its name, a space or arguments that are
trimmed. -/
theorem firm_of_invokes {body : List Char} {command : ExCommand} (h : Invokes body command) :
    Firm command.toText := by
  cases h with
  | @bare name blanks hname hblanks =>
    exact firm_of_isWord (Recogniser.isWord_of_commandName hname)
  | @withArgs name gap first later hname hgap hfirst =>
    have hlast := getLast?_trimEnd isWhiteSpace (first :: later)
    rw [Firm, toList_toText_withArgs, String.toList_ofList]
    refine ⟨by simp, ?_⟩
    cases hargs : trimEnd isWhiteSpace (first :: later) with
    | nil => simp
    | cons c args =>
      rw [hargs] at hlast
      have hsplit : name.toList ++ ' ' :: c :: args = (name.toList ++ [' ']) ++ (c :: args) := by
        simp
      rw [hsplit, List.getLast?_append, List.getLast?_eq_some_getLast (List.cons_ne_nil c args),
        Option.some_or]
      intro hreturn
      rw [List.getLast?_eq_some_getLast (List.cons_ne_nil c args)] at hlast
      exact absurd (hlast '\r' hreturn) (by decide)

/-- A command as a field is firm, since its arguments are trimmed at the end. -/
theorem firm_of_commandField {cs : List Char} {command : ExCommand}
    (h : CommandField cs command) : Firm command.toText := by
  obtain ⟨gap, body, hgap, hcs, hinvokes⟩ := h
  exact firm_of_invokes hinvokes

/-- The last part of a statement is firm, but for the URL of a quickmark. -/
theorem firm_of_clause {keyword : Keyword} {cs : List Char} {node : Node}
    (h : Clause keyword cs node) :
    (∀ last ∈ (tailParts node).getLast?, Firm last) ∨
      ∃ key url, node = .quickmark key url ∧ Pattern.url.Lang url.toList := by
  cases h with
  | @aliasDef _ mid rest name first more hname hfields hwords hblanks =>
    refine .inl fun last hlast => firm_of_identifier ?_
    rcases List.mem_cons.mp (List.mem_of_getLast? hlast) with rfl | hmem
    · exact hname.2
    · exact hwords last hmem
  | @autocmd _ mid rest event pattern command action hevent hpattern hcommand hruns =>
    refine .inl fun last hlast => ?_
    obtain rfl : action.toText = last := by simpa [tailParts] using hlast
    rw [toText_of_runs hruns]
    exact firm_of_commandField hcommand
  | @autocontainSane _ mid last rest pattern container hflag hpattern hcontainer hblanks =>
    refine .inl fun last hlast => ?_
    obtain rfl : container = last := by simpa [tailParts] using hlast
    exact firm_of_identifier hcontainer.2
  | @autocontainUrl _ mid last rest pattern container hflag hurl hcontainer hblanks =>
    refine .inl fun last hlast => ?_
    obtain rfl : container = last := by simpa [tailParts] using hlast
    exact firm_of_identifier hcontainer.2
  | @binding _ mid rest mode? key command hmode hkey hcommand =>
    refine .inl fun last hlast => ?_
    obtain rfl : command.toText = last := by simpa [tailParts, List.getLast?_append] using hlast
    exact firm_of_commandField hcommand
  | @unbinding _ mid rest mode? key hmode hkey hblanks =>
    refine .inl fun last hlast => ?_
    obtain rfl : key.toText = last := by simpa [tailParts, List.getLast?_append] using hlast
    exact firm_of_key hkey.2
  | @commandDef _ rest name command hname hcommand =>
    refine .inl fun last hlast => ?_
    obtain rfl : command.toText = last := by simpa [tailParts] using hlast
    exact firm_of_commandField hcommand
  | @quickmark _ mid rest key url hkey hurl hblanks =>
    exact .inr ⟨key, url, rfl, (urlField_iff.mp hurl).2⟩
  | @setting _ mid rest name values hname hfields hvalues hblanks =>
    refine .inl fun last hlast => ?_
    rcases List.mem_cons.mp (List.mem_of_getLast? hlast) with rfl | hmem
    · exact firm_of_identifier hname.2
    · obtain ⟨value, hvalue, rfl⟩ := List.mem_map.mp hmem
      exact firm_of_value (hvalues value hvalue)

/-- A statement has parts behind its keyword. -/
theorem tailParts_ne_nil {keyword : Keyword} {cs : List Char} {node : Node}
    (h : Clause keyword cs node) : tailParts node ≠ [] := by
  cases h <;> simp [tailParts]

/-- The canonical line of a quickmark ends like its URL. -/
theorem getLast?_quickmark {key : Char} {url : String} (h : Pattern.url.Lang url.toList) :
    (Node.quickmark key url).toText.toList.getLast? = url.toList.getLast? := by
  have hne := (Pattern.visible_of_lang h).ne_nil
  have htext : (Node.quickmark key url).toText.toList =
      "quickmark".toList ++ trail ([String.ofList [key]] ++ [url]) := toList_spaced _ _
  rw [htext, getLast?_trail hne]

/-- A canonical line ends in a carriage return only behind a URL that does. -/
theorem quickmark_of_return {l : List Char} {node : Node} (h : Denotes l node)
    (hreturn : node.toText.toList.getLast? = some '\r') :
    ∃ key url, node = .quickmark key url ∧ url.toList.getLast? = some '\r' := by
  cases h with
  | blank => exact absurd hreturn (by decide)
  | @comment blanks text hblanks =>
    rw [toList_comment, toList_trimReturns] at hreturn
    have hlast := getLast?_trimEnd (· == '\r') (String.ofList text).toList
    cases htrim : trimEnd (· == '\r') (String.ofList text).toList with
    | nil =>
      rw [htrim] at hreturn
      exact absurd hreturn (by decide)
    | cons c later =>
      rw [htrim, List.getLast?_cons_cons] at hreturn
      rw [htrim] at hlast
      exact absurd (hlast '\r' hreturn) (by decide)
  | @statement _ rest keyword node hopens hclause =>
    rcases firm_of_clause hclause with hfirm | ⟨key, url, rfl, hlang⟩
    · rw [toText_of_clause hclause] at hreturn
      exact absurd hreturn (getLast?_of_firm (tailParts_ne_nil hclause) hfirm _)
    · rw [getLast?_quickmark hlang] at hreturn
      exact ⟨key, url, rfl, hreturn⟩
  | @exCommand blanks body command hnone hblanks hinvokes =>
    exact absurd hreturn (firm_of_invokes hinvokes).2

/-- The canonical line of a quickmark that a line denotes ends like its URL. -/
theorem getLast?_of_denotes_quickmark {l : List Char} {key : Char} {url : String}
    (h : Denotes l (.quickmark key url)) :
    (Node.quickmark key url).toText.toList.getLast? = url.toList.getLast? := by
  cases h with
  | statement hopens hclause =>
    cases hclause with
    | quickmark hkey hurl hblanks => exact getLast?_quickmark (urlField_iff.mp hurl).2

/-- A text that starts with a character of a word starts with no byte-order mark. -/
theorem unmarked_of_isWordChar {cs : List Char}
    (h : ∃ c tail, cs = c :: tail ∧ isWordChar c = true) : unmarked cs = cs := by
  obtain ⟨c, tail, rfl, hc⟩ := h
  refine if_neg fun hhead => ?_
  rw [List.head?_cons, Option.some.injEq] at hhead
  rw [hhead] at hc
  exact absurd hc (by decide)

/-- A keyword and what follows it start with no byte-order mark. -/
theorem unmarked_literal (keyword : Keyword) (rest : List Char) :
    unmarked (keyword.literal.toList ++ rest) = keyword.literal.toList ++ rest := by
  obtain ⟨c, tail, he, hc⟩ := (isWord_literal keyword).exists_cons
  exact unmarked_of_isWordChar ⟨c, tail ++ rest, by rw [he, List.cons_append], hc⟩

/-- No canonical line starts with a byte-order mark. -/
theorem unmarked_toText {l : List Char} {node : Node} (h : Denotes l node) :
    unmarked node.toText.toList = node.toText.toList := by
  cases h with
  | blank => rfl
  | comment =>
    rw [toList_comment]
    exact if_neg (by simp [byteOrderMark])
  | @statement _ rest keyword node hopens hclause =>
    rw [toText_of_clause hclause]
    exact unmarked_literal keyword _
  | @exCommand blanks body command hnone hblanks hinvokes =>
    obtain ⟨rest, htext, -, hname⟩ := exists_name_of_invokes (invokes_toText hinvokes)
    obtain ⟨c, tail, he, hc⟩ := (Recogniser.isWord_of_commandName hname).exists_cons
    have hbody : (Node.exCommand command).toText = command.toText := rfl
    rw [hbody, htext]
    exact unmarked_of_isWordChar ⟨c, _, by rw [he, List.cons_append], hc⟩

/-- A text without a byte-order mark in front is the same at every place among the lines. -/
theorem lineText_of_unmarked {cs : List Char} (h : unmarked cs = cs) (isFirst : Prop)
    [Decidable isFirst] : lineText isFirst cs = cs := by
  rw [lineText, h]
  exact ite_self cs

end RcScript
