import RcScript.Proofs.CanonicalLine

/-!
# The spacing of canonical lines

A canonical line is the line that its node was read from with every gap between two
fields made a single space, and with nothing else taken away but blanks in front and
white space at the end. What a line holds besides its spacing is therefore found in
the canonical line too, in the same order. Nothing is said of malformed lines, which
denote no node.
-/

namespace RcScript

open Text

/-- One text with some of its gaps made single spaces. -/
inductive Squeezed : List Char → List Char → Prop
  | nil : Squeezed [] []
  | keep {cs ds : List Char} (c : Char) : Squeezed cs ds → Squeezed (c :: cs) (c :: ds)
  | gap {gap cs ds : List Char} : Gap gap → Squeezed cs ds → Squeezed (gap ++ cs) (' ' :: ds)

/-- One text with some of its gaps made single spaces, less blanks in front and white
space at the end. -/
def Respaced (cs ds : List Char) : Prop :=
  ∃ blanks body tail, cs = blanks ++ (body ++ tail) ∧ Blanks blanks ∧
    (∀ c ∈ tail, isWhiteSpace c = true) ∧ Squeezed body ds

namespace Squeezed

/-- A text is its own squeezed form, with no gap made smaller. -/
theorem refl (cs : List Char) : Squeezed cs cs := by
  induction cs with
  | nil => exact .nil
  | cons c cs ih => exact .keep c ih

/-- Texts in sequence are squeezed in sequence. -/
theorem append {cs ds cs' ds' : List Char} (h : Squeezed cs ds) (h' : Squeezed cs' ds') :
    Squeezed (cs ++ cs') (ds ++ ds') := by
  induction h with
  | nil => exact h'
  | keep c _ ih => exact .keep c ih
  | gap hgap _ ih =>
    rw [List.append_assoc]
    exact .gap hgap ih

/-- A gap before a text that is kept. -/
theorem gap_refl {gap : List Char} (h : Gap gap) (cs : List Char) :
    Squeezed (gap ++ cs) (' ' :: cs) :=
  .gap h (refl cs)

end Squeezed

/-- The first part of a text is written as the given parts, each behind a space. -/
def Spaced (cs : List Char) (parts : List String) (rest : List Char) : Prop :=
  ∃ read, cs = read ++ rest ∧ Squeezed read (trail parts)

namespace Spaced

/-- Reading no part leaves the text as it is. -/
theorem nil (cs : List Char) : Spaced cs [] cs :=
  ⟨[], rfl, .nil⟩

/-- Parts that follow one another are written one behind the other. -/
theorem append {cs mid rest : List Char} {parts others : List String}
    (h : Spaced cs parts mid) (h' : Spaced mid others rest) :
    Spaced cs (parts ++ others) rest := by
  obtain ⟨read, rfl, hread⟩ := h
  obtain ⟨read', rfl, hread'⟩ := h'
  refine ⟨read ++ read', (List.append_assoc _ _ _).symm, ?_⟩
  rw [trail_append]
  exact hread.append hread'

/-- A gap and a text up to the end of what is read. -/
theorem of_gap {gap : List Char} (hgap : Gap gap) {read rest : List Char} {part : String}
    (h : Squeezed read part.toList) : Spaced (gap ++ (read ++ rest)) [part] rest := by
  refine ⟨gap ++ read, (List.append_assoc _ _ _).symm, ?_⟩
  rw [trail_cons, trail_nil, List.append_nil]
  exact .gap hgap h

/-- A field is one part behind a gap. -/
theorem field {cs : List Char} {text : String} {rest : List Char} (h : Field cs text rest) :
    Spaced cs [text] rest := by
  obtain ⟨gap, hgap, rfl, -⟩ := h
  exact of_gap hgap (.refl _)

/-- Fields are parts behind gaps. -/
theorem fields {cs : List Char} {texts : List String} {rest : List Char}
    (h : Fields cs texts rest) : Spaced cs texts rest := by
  induction h with
  | nil => exact nil _
  | cons hfield _ ih => exact (field hfield).append ih

/-- A mode is one part behind a gap, or no part. -/
theorem modeField {cs : List Char} {mode? : Option Mode} {rest : List Char}
    (h : ModeField cs mode? rest) : Spaced cs (modeParts mode?) rest := by
  cases h with
  | absent => exact nil cs
  | present hfield => exact field hfield

/-- A command is written without the white space behind it. -/
theorem exists_invokes {body : List Char} {command : ExCommand} (h : Invokes body command) :
    ∃ read tail, body = read ++ tail ∧ (∀ c ∈ tail, isWhiteSpace c = true) ∧
      Squeezed read command.toText.toList := by
  cases h with
  | @bare name blanks hname hblanks =>
    exact ⟨name.toList, blanks, rfl, fun c hc => isWhiteSpace_of_isBlank (hblanks c hc), .refl _⟩
  | @withArgs name gap first later hname hgap hfirst =>
    obtain ⟨tail, htail, hwhite⟩ := exists_trimEnd isWhiteSpace (first :: later)
    refine ⟨name.toList ++ (gap ++ trimEnd isWhiteSpace (first :: later)), tail, ?_, hwhite, ?_⟩
    · rw [List.append_assoc, List.append_assoc, ← htail]
    · rw [toList_toText_withArgs, String.toList_ofList]
      exact (Squeezed.refl name.toList).append (.gap_refl hgap _)

/-- A command is one part behind a gap, and only white space is left behind it. -/
theorem commandField {cs : List Char} {command : ExCommand} (h : CommandField cs command) :
    ∃ tail, (∀ c ∈ tail, isWhiteSpace c = true) ∧ Spaced cs [command.toText] tail := by
  obtain ⟨gap, body, hgap, rfl, hinvokes⟩ := h
  obtain ⟨read, tail, rfl, hwhite, hread⟩ := exists_invokes hinvokes
  exact ⟨tail, hwhite, of_gap hgap hread⟩

/-- What follows a keyword is written as the parts of the statement. -/
theorem clause {keyword : Keyword} {cs : List Char} {node : Node} (h : Clause keyword cs node) :
    ∃ tail, (∀ c ∈ tail, isWhiteSpace c = true) ∧ Spaced cs (tailParts node) tail := by
  have hwhite : ∀ {rest : List Char}, Blanks rest → ∀ c ∈ rest, isWhiteSpace c = true :=
    fun hblanks c hc => isWhiteSpace_of_isBlank (hblanks c hc)
  cases h with
  | aliasDef hname hfields hwords hblanks =>
    exact ⟨_, hwhite hblanks, (field hname.1).append (fields hfields)⟩
  | autocmd hevent hpattern hcommand hruns =>
    obtain ⟨tail, htail, hlast⟩ := commandField hcommand
    rw [tailParts, toText_of_runs hruns]
    exact ⟨tail, htail, (field hevent).append ((field hpattern.1).append hlast)⟩
  | autocontainSane hflag hpattern hcontainer hblanks =>
    exact ⟨_, hwhite hblanks,
      (field hflag).append ((field hpattern.1).append (field hcontainer.1))⟩
  | autocontainUrl hflag hurl hcontainer hblanks =>
    exact ⟨_, hwhite hblanks, (field hflag).append ((field hurl.1).append (field hcontainer.1))⟩
  | binding hmode hkey hcommand =>
    obtain ⟨tail, htail, hlast⟩ := commandField hcommand
    exact ⟨tail, htail, (modeField hmode).append ((field hkey.1).append hlast)⟩
  | unbinding hmode hkey hblanks =>
    exact ⟨_, hwhite hblanks, (modeField hmode).append (field hkey.1)⟩
  | commandDef hname hcommand =>
    obtain ⟨tail, htail, hlast⟩ := commandField hcommand
    exact ⟨tail, htail, (field hname.1).append hlast⟩
  | quickmark hkey hurl hblanks =>
    exact ⟨_, hwhite hblanks, (field hkey.1).append (field hurl.1)⟩
  | setting hname hfields hvalues hblanks =>
    exact ⟨_, hwhite hblanks, (field hname.1).append (fields hfields)⟩

end Spaced

/-- A line that denotes a node differs from its canonical line in spacing alone. -/
theorem respaced_toText {l : List Char} {node : Node} (h : Denotes l node) :
    Respaced l node.toText.toList := by
  cases h with
  | blank hblanks => exact ⟨l, [], [], by simp, hblanks, by simp, .nil⟩
  | @comment blanks text hblanks =>
    obtain ⟨tail, htail, hreturns⟩ := exists_trimEnd (· == '\r') text
    refine ⟨blanks, '"' :: trimEnd (· == '\r') text, tail, ?_, hblanks, ?_, ?_⟩
    · rw [List.cons_append, ← htail]
    · intro c hc
      rw [beq_iff_eq.mp (hreturns c hc)]
      decide
    · rw [toList_comment, toList_trimReturns, String.toList_ofList]
      exact .refl _
  | @statement _ rest keyword node hopens hclause =>
    obtain ⟨blanks, hblanks, rfl, -⟩ := hopens
    obtain ⟨tail, hwhite, read, rfl, hread⟩ := Spaced.clause hclause
    refine ⟨blanks, keyword.literal.toList ++ read, tail, ?_, hblanks, hwhite, ?_⟩
    · rw [List.append_assoc]
    · rw [toText_of_clause hclause]
      exact (Squeezed.refl _).append hread
  | @exCommand blanks body command hnone hblanks hinvokes =>
    obtain ⟨read, tail, rfl, hwhite, hread⟩ := Spaced.exists_invokes hinvokes
    exact ⟨blanks, read, tail, rfl, hblanks, hwhite, hread⟩

end RcScript
