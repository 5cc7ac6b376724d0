import RcScript.Proofs.PartField

/-!
# Blanks at the end of a line

Blanks behind a line do not change what it means. Every field but a URL ends in no blank,
so the fields of the longer line are those of the shorter one, and arguments are trimmed.
The second character of a URL's host may be a blank, however. A quickmark that stops behind
the first one is therefore completed by the blank that follows, and it is the only malformed
line that is completed so. A comment keeps its blanks and is left out.
-/

namespace RcScript

open Text

/-- A text that ends in a character that is no blank. -/
def Tight (cs : List Char) : Prop := ∃ front last, cs = front ++ [last] ∧ isBlank last = false

/-- The scheme of a URL and the first character of its host. -/
def IsStem (cs : List Char) : Prop :=
  ∃ scheme ∈ schemes, ∃ first, isHostStart first = true ∧ cs = scheme ++ [first]

/-- A quickmark of which the URL stops behind the first character of its host, and the line
with it. -/
def StopsInHost (l : List Char) (key : Char) (stem : String) : Prop :=
  ∃ cs mid, Opens .quickmark l cs ∧ KeyField cs (.single key) mid ∧ Field mid stem [] ∧
    IsStem stem.toList

/-- A character that is no blank is tight. -/
theorem tight_singleton {c : Char} (h : isBlank c = false) : Tight [c] :=
  ⟨[], c, rfl, h⟩

/-- A text without white space is tight, since it is not empty. -/
theorem Unbroken.tight {cs : List Char} (h : Unbroken cs) : Tight cs := by
  obtain ⟨hne, hcs⟩ := h
  rcases List.eq_nil_or_concat cs with rfl | ⟨front, last, rfl⟩
  · exact absurd rfl hne
  · rw [List.concat_eq_append] at hcs ⊢
    exact ⟨front, last, rfl, hcs last (by simp)⟩

/-- A word is tight. -/
theorem IsWord.tight {cs : List Char} (h : IsWord cs) : Tight cs :=
  Unbroken.tight ⟨h.1, h.isBlank_of_mem⟩

/-- What a pattern other than that of a URL matches is tight. -/
theorem tight_of_lang {pattern : Pattern} {cs : List Char} (h : pattern.Lang cs)
    (hurl : pattern ≠ .url) : Tight cs :=
  (Unbroken.of_lang h hurl).tight

/-- The first character of a host is no blank. -/
theorem isBlank_of_isHostStart {c : Char} (h : isHostStart c = true) : isBlank c = false := by
  rw [isHostStart, Bool.and_eq_true] at h
  exact isBlank_of_not_isWhiteSpace h.1

/-- A scheme with the first character of a host is tight. -/
theorem IsStem.tight {cs : List Char} (h : IsStem cs) : Tight cs := by
  obtain ⟨scheme, -, first, hfirst, rfl⟩ := h
  exact ⟨scheme, first, rfl, isBlank_of_isHostStart hfirst⟩

/-- A URL ends in no white space, or one character behind the first of its host, which may be
any character at all. -/
theorem last_of_url {cs : List Char} (h : Pattern.url.Lang cs) :
    (∃ front last, cs = front ++ [last] ∧ isWhiteSpace last = false) ∨
      ∃ stem last, IsStem stem ∧ cs = stem ++ [last] := by
  obtain ⟨scheme, hscheme, first, any, tail, hfirst, htail, rfl⟩ := h
  rcases List.eq_nil_or_concat tail with rfl | ⟨front, last, rfl⟩
  · refine .inr ⟨scheme ++ [first], any, ⟨scheme, hscheme, first, hfirst, rfl⟩, ?_⟩
    rw [List.append_assoc]
    rfl
  · rw [List.concat_eq_append] at htail ⊢
    refine .inl ⟨scheme ++ first :: any :: front, last, ?_, htail last (by simp)⟩
    simp only [List.append_assoc, List.cons_append]

/-- A URL ends in no blank, or in one behind the first character of its host. -/
theorem tight_url {cs : List Char} (h : Pattern.url.Lang cs) :
    Tight cs ∨ ∃ stem blank, IsStem stem ∧ cs = stem ++ [blank] := by
  rcases last_of_url h with ⟨front, last, hcs, hlast⟩ | hstem
  · exact .inl ⟨front, last, hcs, isBlank_of_not_isWhiteSpace (by rw [hlast]; rfl)⟩
  · exact .inr hstem

section

variable {w : List Char}

/-- Where a text that ends in no blank stands before the end of a line with blanks behind it,
the blanks are behind the text, since they do not reach back to its last character. -/
theorem exists_of_append_blanks (hw : Blanks w) {cs front piece rest : List Char}
    (hpiece : Tight piece) (he : cs ++ w = front ++ (piece ++ rest)) :
    ∃ later, rest = later ++ w ∧ cs = front ++ (piece ++ later) := by
  obtain ⟨start, last, rfl, hlast⟩ := hpiece
  have hcut := he.trans (List.append_assoc front (start ++ [last]) rest).symm
  rcases List.append_eq_append_iff.mp hcut with ⟨more, hfront, hblanks⟩ | ⟨later, hcs, hrest⟩
  · rcases List.eq_nil_or_concat more with rfl | ⟨middle, other, rfl⟩
    · rw [List.append_nil] at hfront
      rw [List.nil_append] at hblanks
      exact ⟨[], hblanks.symm, by rw [List.append_nil, hfront]⟩
    · rw [List.concat_eq_append] at hfront hblanks
      rw [← List.append_assoc, ← List.append_assoc] at hfront
      obtain ⟨-, hother⟩ := List.append_inj' hfront rfl
      obtain rfl := List.singleton_inj.mp hother
      have hblank := hw last (by rw [hblanks]; simp)
      rw [hlast] at hblank
      exact absurd hblank (by decide)
  · exact ⟨later, hrest, by rw [hcs, List.append_assoc]⟩

/-- Blanks are white space. -/
theorem Blanks.isWhiteSpace (hw : Blanks w) : ∀ c ∈ w, isWhiteSpace c = true :=
  fun c hc => isWhiteSpace_of_isBlank (hw c hc)

/-- Blanks behind a text leave it as blank as it was. -/
theorem blanks_append_iff (hw : Blanks w) {cs : List Char} : Blanks (cs ++ w) ↔ Blanks cs := by
  constructor
  · intro h c hc
    exact h c (List.mem_append_left _ hc)
  · intro h
    exact h.append hw

/-- Blanks behind a text do not change whether a field ends in front of it. -/
theorem fieldEnd_append_iff (hw : Blanks w) {cs : List Char} : FieldEnd (cs ++ w) ↔ FieldEnd cs := by
  cases cs with
  | nil => exact ⟨fun _ => fieldEnd_nil, fun _ => hw.fieldEnd⟩
  | cons c later => rw [List.cons_append, fieldEnd_cons, fieldEnd_cons]

/-- A field is still one with blanks behind the line. -/
theorem Field.append {cs rest : List Char} {text : String} (h : Field cs text rest)
    (hw : Blanks w) : Field (cs ++ w) text (rest ++ w) := by
  obtain ⟨gap, hgap, rfl, hend⟩ := h
  refine ⟨gap, hgap, ?_, (fieldEnd_append_iff hw).mpr hend⟩
  rw [List.append_assoc, List.append_assoc]

/-- A field that ends in no blank is there without the blanks behind the line. -/
theorem Field.exists_later {cs rest : List Char} {text : String} (h : Field (cs ++ w) text rest)
    (hw : Blanks w) (htext : Tight text.toList) :
    ∃ later, rest = later ++ w ∧ Field cs text later := by
  obtain ⟨gap, hgap, he, hend⟩ := h
  obtain ⟨later, rfl, rfl⟩ := exists_of_append_blanks hw htext he
  exact ⟨later, rfl, gap, hgap, rfl, (fieldEnd_append_iff hw).mp hend⟩

/-- Fields are still fields with blanks behind the line. -/
theorem Fields.append {cs rest : List Char} {texts : List String} (h : Fields cs texts rest)
    (hw : Blanks w) : Fields (cs ++ w) texts (rest ++ w) := by
  induction h with
  | nil => exact .nil
  | cons hfield _ ih => exact .cons (hfield.append hw) ih

/-- Fields whose texts are tight leave the blanks behind the line alone. -/
theorem Fields.exists_later {cs rest : List Char} {texts : List String}
    (h : Fields (cs ++ w) texts rest) (hw : Blanks w)
    (htexts : ∀ text ∈ texts, Tight text.toList) :
    ∃ later, rest = later ++ w ∧ Fields cs texts later := by
  induction texts generalizing cs with
  | nil =>
    cases h
    exact ⟨cs, rfl, .nil⟩
  | cons text texts ih =>
    cases h with
    | cons hfield hfields =>
      obtain ⟨mid, rfl, hfield'⟩ := hfield.exists_later hw (htexts text List.mem_cons_self)
      obtain ⟨later, rfl, hfields'⟩ :=
        ih hfields fun other hmem => htexts other (List.mem_cons_of_mem _ hmem)
      exact ⟨later, rfl, .cons hfield' hfields'⟩

/-- A field of a pattern is still one with blanks behind the line. -/
theorem PatternField.append {pattern : Pattern} {cs rest : List Char} {text : String}
    (h : PatternField pattern cs text rest) (hw : Blanks w) :
    PatternField pattern (cs ++ w) text (rest ++ w) :=
  ⟨h.1.append hw, h.2⟩

/-- A field of a pattern other than that of a URL leaves the blanks behind the line alone. -/
theorem PatternField.exists_later {pattern : Pattern} {cs rest : List Char} {text : String}
    (h : PatternField pattern (cs ++ w) text rest) (hw : Blanks w) (hurl : pattern ≠ .url) :
    ∃ later, rest = later ++ w ∧ PatternField pattern cs text later := by
  obtain ⟨later, hrest, hfield⟩ := h.1.exists_later hw (tight_of_lang h.2 hurl)
  exact ⟨later, hrest, hfield, h.2⟩

/-- A URL in a field is still one with blanks behind the line. -/
theorem UrlField.append {cs rest : List Char} {text : String} (h : UrlField cs text rest)
    (hw : Blanks w) : UrlField (cs ++ w) text (rest ++ w) :=
  urlField_iff.mpr ((urlField_iff.mp h).append hw)

/-- A URL is there without the blanks behind the line, unless its last character is the first of
them. -/
theorem UrlField.exists_later {cs rest : List Char} {text : String}
    (h : UrlField (cs ++ w) text rest) (hw : Blanks w) :
    (∃ later, rest = later ++ w ∧ UrlField cs text later) ∨
      ∃ stem blank, w = blank :: rest ∧ Field cs stem [] ∧ IsStem stem.toList := by
  obtain ⟨hfield, hlang⟩ := urlField_iff.mp h
  rcases tight_url hlang with htight | ⟨stem, blank, hstem, htext⟩
  · obtain ⟨later, hrest, hfield⟩ := hfield.exists_later hw htight
    exact .inl ⟨later, hrest, urlField_iff.mpr ⟨hfield, hlang⟩⟩
  · obtain ⟨gap, hgap, he, hend⟩ := hfield
    rw [htext, List.append_assoc, List.singleton_append] at he
    obtain ⟨later, hrest, rfl⟩ := exists_of_append_blanks hw hstem.tight he
    cases later with
    | nil =>
      have hfield : Field (gap ++ (stem ++ [])) (String.ofList stem) [] :=
        ⟨gap, hgap, by rw [String.toList_ofList], fieldEnd_nil⟩
      exact .inr ⟨_, blank, hrest.symm, hfield, by rwa [String.toList_ofList]⟩
    | cons c later =>
      obtain ⟨rfl, rfl⟩ := List.cons.inj hrest
      refine .inl ⟨later, rfl, urlField_iff.mpr ⟨⟨gap, hgap, ?_, ?_⟩, hlang⟩⟩
      · rw [htext, List.append_assoc, List.singleton_append]
      · exact (fieldEnd_append_iff hw).mp hend

/-- A key is still one with blanks behind the line. -/
theorem KeyField.append {cs rest : List Char} {key : Key} (h : KeyField cs key rest)
    (hw : Blanks w) : KeyField (cs ++ w) key (rest ++ w) :=
  ⟨h.1.append hw, h.2⟩

/-- A key leaves the blanks behind the line alone. -/
theorem KeyField.exists_later {cs rest : List Char} {key : Key} (h : KeyField (cs ++ w) key rest)
    (hw : Blanks w) : ∃ later, rest = later ++ w ∧ KeyField cs key later := by
  obtain ⟨later, hrest, hfield⟩ := h.1.exists_later hw (Unbroken.of_key h.2).tight
  exact ⟨later, hrest, hfield, h.2⟩

/-- A mode, or none, is read alike with blanks behind the line. -/
theorem ModeField.append {cs rest : List Char} {mode? : Option Mode} (h : ModeField cs mode? rest)
    (hw : Blanks w) : ModeField (cs ++ w) mode? (rest ++ w) := by
  cases h with
  | absent => exact .absent
  | present hfield => exact .present (hfield.append hw)

/-- A mode leaves the blanks behind the line alone, and so does one that is not there. -/
theorem ModeField.exists_later {cs rest : List Char} {mode? : Option Mode}
    (h : ModeField (cs ++ w) mode? rest) (hw : Blanks w) :
    ∃ later, rest = later ++ w ∧ ModeField cs mode? later := by
  cases h with
  | absent => exact ⟨cs, rfl, .absent⟩
  | @present _ mode hfield =>
    obtain ⟨later, hrest, hfield⟩ := hfield.exists_later hw (Part.of_mode mode).unbroken.tight
    exact ⟨later, hrest, .present hfield⟩

/-- A command keeps its arguments with blanks behind them. -/
theorem Invokes.append {body : List Char} {command : ExCommand} (h : Invokes body command)
    (hw : Blanks w) : Invokes (body ++ w) command := by
  cases h with
  | bare hname hblanks =>
    rw [List.append_assoc]
    exact .bare hname (hblanks.append hw)
  | @withArgs name gap first later hname hgap hfirst =>
    rw [← trimEnd_append hw.isWhiteSpace, List.append_assoc, List.append_assoc, List.cons_append]
    exact .withArgs hname hgap hfirst

/-- A command is there without the blanks behind the line. -/
theorem Invokes.exists_shorter {cs front body : List Char} {command : ExCommand}
    (h : Invokes body command) (hw : Blanks w) (he : cs ++ w = front ++ body) :
    ∃ shorter, cs = front ++ shorter ∧ Invokes shorter command := by
  cases h with
  | @bare name blanks hname hblanks =>
    have hword := Recogniser.isWord_of_commandName hname
    obtain ⟨later, rfl, rfl⟩ := exists_of_append_blanks hw hword.tight he
    exact ⟨_, rfl, .bare hname ((blanks_append_iff hw).mp hblanks)⟩
  | @withArgs name gap first later hname hgap hfirst =>
    have hcut : cs ++ w = (front ++ (name.toList ++ gap)) ++ ([first] ++ later) := by
      rw [he]
      simp only [List.append_assoc, List.singleton_append]
    obtain ⟨fewer, rfl, rfl⟩ := exists_of_append_blanks hw (tight_singleton hfirst) hcut
    have htrim := trimEnd_append hw.isWhiteSpace (first :: fewer)
    rw [List.cons_append] at htrim
    refine ⟨name.toList ++ (gap ++ first :: fewer), ?_, ?_⟩
    · simp only [List.append_assoc, List.singleton_append]
    · rw [htrim]
      exact .withArgs hname hgap hfirst

/-- A command in a field is the same with blanks behind the line. -/
theorem CommandField.append {cs : List Char} {command : ExCommand} (h : CommandField cs command)
    (hw : Blanks w) : CommandField (cs ++ w) command := by
  obtain ⟨gap, body, hgap, rfl, hinvokes⟩ := h
  exact ⟨gap, body ++ w, hgap, List.append_assoc _ _ _, hinvokes.append hw⟩

/-- A command in a field does not owe anything to the blanks behind the line. -/
theorem CommandField.of_append {cs : List Char} {command : ExCommand}
    (h : CommandField (cs ++ w) command) (hw : Blanks w) : CommandField cs command := by
  obtain ⟨gap, body, hgap, he, hinvokes⟩ := h
  obtain ⟨shorter, rfl, hshorter⟩ := hinvokes.exists_shorter hw he
  exact ⟨gap, shorter, hgap, rfl, hshorter⟩

/-- What follows a keyword means the same with blanks behind it. -/
theorem Clause.append {keyword : Keyword} {cs : List Char} {node : Node}
    (h : Clause keyword cs node) (hw : Blanks w) : Clause keyword (cs ++ w) node := by
  cases h with
  | aliasDef hname hfields hwords hblanks =>
    exact .aliasDef (hname.append hw) (hfields.append hw) hwords (hblanks.append hw)
  | autocmd hevent hpattern hcommand hruns =>
    exact .autocmd (hevent.append hw) (hpattern.append hw) (hcommand.append hw) hruns
  | autocontainSane hflag hpattern hcontainer hblanks =>
    exact .autocontainSane (hflag.append hw) (hpattern.append hw) (hcontainer.append hw)
      (hblanks.append hw)
  | autocontainUrl hflag hurl hcontainer hblanks =>
    exact .autocontainUrl (hflag.append hw) (hurl.append hw) (hcontainer.append hw)
      (hblanks.append hw)
  | binding hmode hkey hcommand =>
    exact .binding (hmode.append hw) (hkey.append hw) (hcommand.append hw)
  | unbinding hmode hkey hblanks =>
    exact .unbinding (hmode.append hw) (hkey.append hw) (hblanks.append hw)
  | commandDef hname hcommand => exact .commandDef (hname.append hw) (hcommand.append hw)
  | quickmark hkey hurl hblanks =>
    exact .quickmark (hkey.append hw) (hurl.append hw) (hblanks.append hw)
  | setting hname hfields hvalues hblanks =>
    exact .setting (hname.append hw) (hfields.append hw) hvalues (hblanks.append hw)

/-- No field stands among blanks. -/
theorem not_patternField_of_blanks {pattern : Pattern} {cs rest : List Char} {text : String}
    (hcs : Blanks cs) : ¬ PatternField pattern cs text rest := by
  rintro ⟨hfield, hlang⟩
  have hvisible := Pattern.visible_of_lang hlang
  have hdrop := hfield.dropWhile_eq hvisible
  rw [dropWhile_eq_nil_iff_blanks.mpr hcs] at hdrop
  exact hvisible.ne_nil (List.append_eq_nil_iff.mp hdrop.symm).1

/-- What follows a keyword with blanks behind it means the same without them, unless the blanks
complete the URL of a quickmark. Behind a URL that takes a blank there are blanks only, and so no
container. -/
theorem Clause.of_append {keyword : Keyword} {cs : List Char} {node : Node}
    (h : Clause keyword (cs ++ w) node) (hw : Blanks w) :
    Clause keyword cs node ∨ w ≠ [] ∧ keyword = .quickmark ∧ ∃ mid key stem,
      KeyField cs (.single key) mid ∧ Field mid stem [] ∧ IsStem stem.toList := by
  cases h with
  | aliasDef hname hfields hwords hblanks =>
    obtain ⟨mid, rfl, hname'⟩ := hname.exists_later hw (by decide)
    obtain ⟨rest, rfl, hfields'⟩ := hfields.exists_later hw fun text hmem =>
      tight_of_lang (hwords text hmem) (by decide)
    exact .inl (.aliasDef hname' hfields' hwords ((blanks_append_iff hw).mp hblanks))
  | @autocmd _ _ _ event _ _ _ hevent hpattern hcommand hruns =>
    obtain ⟨mid, rfl, hevent'⟩ := hevent.exists_later hw (Part.of_event event).unbroken.tight
    obtain ⟨rest, rfl, hpattern'⟩ := hpattern.exists_later hw (by decide)
    exact .inl (.autocmd hevent' hpattern' (hcommand.of_append hw) hruns)
  | autocontainSane hflag hpattern hcontainer hblanks =>
    obtain ⟨mid, rfl, hflag'⟩ := hflag.exists_later hw (Part.of_flag .sane).unbroken.tight
    obtain ⟨last, rfl, hpattern'⟩ := hpattern.exists_later hw (by decide)
    obtain ⟨rest, rfl, hcontainer'⟩ := hcontainer.exists_later hw (by decide)
    exact .inl (.autocontainSane hflag' hpattern' hcontainer' ((blanks_append_iff hw).mp hblanks))
  | autocontainUrl hflag hurl hcontainer hblanks =>
    obtain ⟨mid, rfl, hflag'⟩ := hflag.exists_later hw (Part.of_flag .url).unbroken.tight
    rcases hurl.exists_later hw with ⟨last, rfl, hurl'⟩ | ⟨stem, blank, rfl, -⟩
    · obtain ⟨rest, rfl, hcontainer'⟩ := hcontainer.exists_later hw (by decide)
      exact .inl (.autocontainUrl hflag' hurl' hcontainer' ((blanks_append_iff hw).mp hblanks))
    · exact absurd hcontainer
        (not_patternField_of_blanks fun c hc => hw c (List.mem_cons_of_mem _ hc))
  | binding hmode hkey hcommand =>
    obtain ⟨mid, rfl, hmode'⟩ := hmode.exists_later hw
    obtain ⟨rest, rfl, hkey'⟩ := hkey.exists_later hw
    exact .inl (.binding hmode' hkey' (hcommand.of_append hw))
  | unbinding hmode hkey hblanks =>
    obtain ⟨mid, rfl, hmode'⟩ := hmode.exists_later hw
    obtain ⟨rest, rfl, hkey'⟩ := hkey.exists_later hw
    exact .inl (.unbinding hmode' hkey' ((blanks_append_iff hw).mp hblanks))
  | commandDef hname hcommand =>
    obtain ⟨rest, rfl, hname'⟩ := hname.exists_later hw (by decide)
    exact .inl (.commandDef hname' (hcommand.of_append hw))
  | quickmark hkey hurl hblanks =>
    obtain ⟨mid, rfl, hkey'⟩ := hkey.exists_later hw
    rcases hurl.exists_later hw with ⟨rest, rfl, hurl'⟩ | ⟨stem, blank, rfl, hfield, hstem⟩
    · exact .inl (.quickmark hkey' hurl' ((blanks_append_iff hw).mp hblanks))
    · exact .inr ⟨List.cons_ne_nil _ _, rfl, mid, _, stem, hkey', hfield, hstem⟩
  | setting hname hfields hvalues hblanks =>
    obtain ⟨mid, rfl, hname'⟩ := hname.exists_later hw (by decide)
    obtain ⟨rest, rfl, hfields'⟩ := hfields.exists_later hw fun text hmem => by
      obtain ⟨value, hvalue, rfl⟩ := List.mem_map.mp hmem
      exact (Unbroken.of_value (hvalues value hvalue)).tight
    exact .inl (.setting hname' hfields' hvalues ((blanks_append_iff hw).mp hblanks))

/-- A keyword opens a line also with blanks behind it. -/
theorem Opens.append {keyword : Keyword} {l rest : List Char} (h : Opens keyword l rest)
    (hw : Blanks w) : Opens keyword (l ++ w) (rest ++ w) :=
  opens_iff.mpr ((opens_iff.mp h).append hw)

/-- A keyword that opens a line leaves the blanks behind the line alone. -/
theorem Opens.exists_later {keyword : Keyword} {l rest : List Char}
    (h : Opens keyword (l ++ w) rest) (hw : Blanks w) :
    ∃ later, rest = later ++ w ∧ Opens keyword l later := by
  have hfield : Field (' ' :: l ++ w) keyword.literal rest := opens_iff.mp h
  obtain ⟨later, hrest, hfield⟩ := hfield.exists_later hw (isWord_literal keyword).tight
  exact ⟨later, hrest, opens_iff.mpr hfield⟩

/-- A line means the same with blanks behind it, unless it is a comment. The name of a command
decides whether its line opens with a keyword, and blanks do not change that name. -/
theorem Denotes.append {l : List Char} {node : Node} (h : Denotes l node) (hw : Blanks w)
    (hcomment : node.kind ≠ .comment) : Denotes (l ++ w) node := by
  cases h with
  | blank hblanks => exact .blank (hblanks.append hw)
  | comment => exact absurd rfl hcomment
  | statement hopens hclause => exact .statement (hopens.append hw) (hclause.append hw)
  | @exCommand blanks body command hnone hblanks hinvokes =>
    rw [List.append_assoc]
    refine .exCommand (fun keyword rest hopens => ?_) hblanks (hinvokes.append hw)
    have hname := (opens_iff_of_invokes hblanks (hinvokes.append hw) keyword).mp ⟨rest, hopens⟩
    obtain ⟨rest', hopens'⟩ := (opens_iff_of_invokes hblanks hinvokes keyword).mpr hname
    exact hnone keyword rest' hopens'

/-- A comment is a comment with blanks behind it, so that no line loses its kind by them. -/
theorem Denotes.exists_append {l : List Char} {node : Node} (h : Denotes l node) (hw : Blanks w) :
    ∃ other, Denotes (l ++ w) other ∧ other.kind = node.kind := by
  by_cases hcomment : node.kind = .comment
  · cases h with
    | @comment blanks text hblanks =>
      refine ⟨.comment (String.ofList (text ++ w)), ?_, rfl⟩
      rw [List.append_assoc, List.cons_append]
      exact .comment hblanks
    | blank => exact StatementKind.noConfusion hcomment
    | statement _ hclause => cases hclause <;> exact StatementKind.noConfusion hcomment
    | exCommand => exact StatementKind.noConfusion hcomment
  · exact ⟨node, h.append hw hcomment, rfl⟩

/-- A line that means something with blanks behind it means something without them, unless the
blanks complete the URL of a quickmark. -/
theorem Denotes.of_append {l : List Char} {node : Node} (h : Denotes (l ++ w) node)
    (hw : Blanks w) :
    (∃ other, Denotes l other) ∨ w ≠ [] ∧ ∃ key stem, StopsInHost l key stem := by
  generalize hlong : l ++ w = long at h
  cases h with
  | blank hblanks =>
    rw [← hlong] at hblanks
    exact .inl ⟨_, .blank ((blanks_append_iff hw).mp hblanks)⟩
  | @comment blanks text hblanks =>
    have hquote : l ++ w = blanks ++ (['"'] ++ text) := hlong
    obtain ⟨later, -, rfl⟩ := exists_of_append_blanks hw (tight_singleton (by decide)) hquote
    exact .inl ⟨_, .comment hblanks⟩
  | statement hopens hclause =>
    rw [← hlong] at hopens
    obtain ⟨rest, rfl, hopens'⟩ := hopens.exists_later hw
    rcases hclause.of_append hw with hclause' | ⟨hne, rfl, mid, key, stem, hkey, hfield, hstem⟩
    · exact .inl ⟨_, .statement hopens' hclause'⟩
    · exact .inr ⟨hne, key, stem, rest, mid, hopens', hkey, hfield, hstem⟩
  | @exCommand blanks body command hnone hblanks hinvokes =>
    obtain ⟨shorter, rfl, hshorter⟩ := hinvokes.exists_shorter hw hlong
    refine .inl ⟨_, .exCommand (fun keyword rest hopens => ?_) hblanks hshorter⟩
    rw [← hlong] at hnone
    exact hnone keyword _ (hopens.append hw)

end

namespace StopsInHost

variable {l : List Char} {key : Char} {stem : String}

/-- A blank completes the URL. -/
theorem denotes (h : StopsInHost l key stem) {blank : Char} {later : List Char}
    (hw : Blanks (blank :: later)) :
    Denotes (l ++ blank :: later)
      (.quickmark key (String.ofList (stem.toList ++ [blank]))) := by
  obtain ⟨cs, mid, hopens, hkey, ⟨gap, hgap, rfl, -⟩, scheme, hscheme, first, hfirst, hstem⟩ := h
  have hlater : Blanks later := fun c hc => hw c (List.mem_cons_of_mem _ hc)
  have hlang : Pattern.url.Lang (String.ofList (stem.toList ++ [blank])).toList := by
    refine ⟨scheme, hscheme, first, blank, [], hfirst, by simp, ?_⟩
    rw [String.toList_ofList, hstem, List.append_assoc]
    rfl
  have hfield : Field (gap ++ (stem.toList ++ []) ++ blank :: later)
      (String.ofList (stem.toList ++ [blank])) later := by
    refine ⟨gap, hgap, ?_, hlater.fieldEnd⟩
    simp only [String.toList_ofList, List.append_assoc, List.nil_append, List.singleton_append]
  exact .statement (hopens.append hw)
    (.quickmark (hkey.append hw) (urlField_iff.mpr ⟨hfield, hlang⟩) hlater)

/-- Without a blank the line means nothing: it would be completed by a space and by a tab to
different quickmarks. -/
theorem not_denotes (h : StopsInHost l key stem) (node : Node) : ¬ Denotes l node := by
  intro hnode
  have hcompleted : ∀ blank, isBlank blank = true →
      node = .quickmark key (String.ofList (stem.toList ++ [blank])) := by
    intro blank hblank
    have hw : Blanks [blank] := fun c hc => (List.mem_singleton.mp hc) ▸ hblank
    obtain ⟨other, hother, hkind⟩ := hnode.exists_append hw
    obtain rfl := denotes_unique hother (h.denotes hw)
    have hcomment : node.kind ≠ .comment := fun he => StatementKind.noConfusion (hkind.trans he)
    exact denotes_unique (hnode.append hw hcomment) (h.denotes hw)
  have hsame := (hcompleted ' ' (by decide)).symm.trans (hcompleted '\t' (by decide))
  have htext := String.ofList_injective (Node.quickmark.inj hsame).2
  exact absurd (List.append_cancel_left htext) (by decide)

end StopsInHost

/-- Blanks behind the first line of a text do not touch its mark. -/
theorem lineText_append {w : List Char} (hw : Blanks w) (isFirst : Prop) [Decidable isFirst]
    (content : List Char) : lineText isFirst (content ++ w) = lineText isFirst content ++ w := by
  have hhead : w.head? ≠ some byteOrderMark := by
    intro hmark
    have hblank := hw byteOrderMark (List.mem_of_mem_head? hmark)
    exact absurd hblank (by decide)
  simp only [lineText, unmarked]
  split
  · cases content with
    | nil => rw [List.nil_append, if_neg hhead, List.head?_nil, if_neg (by simp), List.nil_append]
    | cons c later =>
      rw [List.cons_append, List.head?_cons, List.tail_cons, List.head?_cons, List.tail_cons]
      split <;> rfl
  · rfl

/-- A line is a line at its place with blanks behind its content as well. -/
theorem Text.IsLine.append {before after w : List Char} {line : Line}
    (h : IsLine before line after) (hw : Blanks w) :
    IsLine before ⟨line.content ++ w, line.terminator⟩ after := by
  constructor
  case starts => exact h.starts
  case nonempty =>
    intro hnil
    rw [Line.toList, List.append_assoc, List.append_eq_nil_iff, List.append_eq_nil_iff] at hnil
    exact h.nonempty (by rw [Line.toList, hnil.1, hnil.2.2, List.nil_append])
  case content_feed =>
    intro hmem
    rcases List.mem_append.mp hmem with hmem | hmem
    · exact h.content_feed hmem
    · exact absurd (hw '\n' hmem) (by decide)
  case terminator => exact h.terminator
  case content_return =>
    intro hhead hlast
    rw [List.getLast?_append] at hlast
    cases hw' : w.getLast? with
    | none =>
      rw [hw', Option.none_or] at hlast
      exact h.content_return hhead hlast
    | some c =>
      rw [hw', Option.some_or, Option.some.injEq] at hlast
      exact absurd (hw c (List.mem_of_getLast? hw')) (by rw [hlast]; decide)

/-- A line and one that has blanks more are read alike, but for a comment and a quickmark that
stops in the host of its URL. -/
theorem Reader.readLine_append {line spaced : SourceLine} {w : List Char} (hw : Blanks w)
    (htext : spaced.text = line.text ++ w) :
    ((readLine line).2.kind ≠ .comment → (readLine line).2.kind ≠ .malformed →
        (readLine spaced).2 = (readLine line).2) ∧
      ((readLine spaced).2.kind = .malformed ↔ (readLine line).2.kind = .malformed ∧
        (w = [] ∨ ∀ key stem, ¬ StopsInHost line.text key stem)) ∧
      ∀ key stem, StopsInHost line.text key stem → (readLine line).2.kind = .malformed ∧
        ∀ blank ∈ w.head?,
          (readLine spaced).2 = .quickmark key (String.ofList (stem.toList ++ [blank])) := by
  refine ⟨fun hcomment hkind => ?_, ?_, fun key stem hstops => ⟨?_, fun blank hblank => ?_⟩⟩
  · have hdenotes := ((readLine_meaning line).1 (readLine line).2).mpr ⟨rfl, hkind⟩
    have hspaced := hdenotes.append hw hcomment
    rw [← htext] at hspaced
    exact readLine_of_denotes hspaced
  · rw [malformed_iff, malformed_iff, htext]
    constructor
    · intro hnone
      refine ⟨fun node hnode => ?_, ?_⟩
      · obtain ⟨other, hother, -⟩ := hnode.exists_append hw
        exact hnone other hother
      · cases w with
        | nil => exact .inl rfl
        | cons blank later => exact .inr fun key stem hstops => hnone _ (hstops.denotes hw)
    · rintro ⟨hnone, hstops⟩ node hnode
      rcases hnode.of_append hw with ⟨other, hother⟩ | ⟨hne, key, stem, hstopped⟩
      · exact hnone other hother
      · rcases hstops with hnil | hstops
        · exact hne hnil
        · exact hstops key stem hstopped
  · exact (malformed_iff line).mpr hstops.not_denotes
  · obtain ⟨later, rfl⟩ := List.head?_eq_some_iff.mp hblank
    have hspaced := hstops.denotes hw
    rw [← htext] at hspaced
    exact readLine_of_denotes hspaced

namespace Program

/-- A line of any text is read alike with blanks behind its content: as the same node, unless it
is a comment, and as malformed when it was malformed. Only a quickmark that stops in the host
of its URL is completed by the first of the blanks. -/
theorem parse_append_blanks {before after w : List Char} {line : Line}
    (h : IsLine before line after) (hw : Blanks w) {text spaced : String}
    (ht : text.toList = before ++ (line.toList ++ after))
    (hs : spaced.toList = before ++ (line.content ++ w ++ line.terminator ++ after)) :
    ∃ statement other, (parse text).statements[before.count '\n']? = some statement ∧
      (parse spaced).statements[before.count '\n']? = some other ∧
      (statement.kind ≠ .comment → statement.kind ≠ .malformed → other.node = statement.node) ∧
      (other.kind = .malformed ↔ statement.kind = .malformed ∧ (w = [] ∨
        ∀ key stem, ¬ StopsInHost (lineText (before = []) line.content) key stem)) ∧
      ∀ key stem, StopsInHost (lineText (before = []) line.content) key stem →
        statement.kind = .malformed ∧ ∀ blank ∈ w.head?,
          other.node = .quickmark key (String.ofList (stem.toList ++ [blank])) := by
  have hstatement := statement_of_isLine h ht
  have hother := statement_of_isLine (h.append hw) hs
  have hplace : ∀ content, SourceLine.text ⟨utf8Length before, 1 + before.count '\n', content⟩ =
      lineText (before = []) content := lineText_congr utf8Length_eq_zero
  have htext : SourceLine.text ⟨utf8Length before, 1 + before.count '\n', line.content ++ w⟩ =
      SourceLine.text ⟨utf8Length before, 1 + before.count '\n', line.content⟩ ++ w := by
    rw [hplace, hplace, lineText_append hw]
  have hread := Reader.readLine_append hw htext
  rw [hplace] at hread
  exact ⟨_, _, hstatement, hother, hread⟩

/-- A line that stops in the host of its URL, with a mark in front of it. -/
def shortLine : Line := ⟨"\uFEFFquickmark g http://a".toList, ['\n']⟩

/-- A space and a tab behind `shortLine` complete it. -/
theorem parse_append_blanks_shortLine :
    IsLine [] shortLine "set x".toList ∧ Blanks [' ', '\t'] ∧
      ∃ statement other,
        (parse "\uFEFFquickmark g http://a\nset x").statements[0]? = some statement ∧
        (parse "\uFEFFquickmark g http://a \t\nset x").statements[0]? = some other ∧
        (statement.kind ≠ .comment → statement.kind ≠ .malformed → other.node = statement.node) ∧
        (other.kind = .malformed ↔ statement.kind = .malformed ∧ ([' ', '\t'] = [] ∨
          ∀ key stem, ¬ StopsInHost (lineText (([] : List Char) = []) shortLine.content) key stem)) ∧
        ∀ key stem, StopsInHost (lineText (([] : List Char) = []) shortLine.content) key stem →
          statement.kind = .malformed ∧ ∀ blank ∈ [' ', '\t'].head?,
            other.node = .quickmark key (String.ofList (stem.toList ++ [blank])) :=
  have hline : IsLine [] shortLine "set x".toList :=
    ⟨atLineStart_nil, by decide, by decide, .inl rfl, by decide⟩
  have hblanks : Blanks [' ', '\t'] := by simp [Blanks, isBlank]
  ⟨hline, hblanks, parse_append_blanks hline hblanks (by decide) (by decide)⟩

/-- A malformed line that is read as a quickmark with a space behind it. -/
theorem parse_append_space :
    (parse "quickmark g http://a").statements.map Statement.kind = [.malformed] ∧
      (parse "quickmark g http://a ").statements.map Statement.node =
        [.quickmark 'g' "http://a "] := by
  constructor <;> decide +kernel

end Program

end RcScript
