import RcScript.Proofs.LineEnding

/-!
# The fields of canonical lines

A canonical line is divided into its parts by single spaces. If no part holds a blank,
the fields that a grammar finds in the line are these parts again, whether or not the
grammar accepts them. Only a URL can hold a blank, and one that does takes in the part
behind it as well. A command is found with the arguments that it was given, provided
that these do not begin with a blank or end with white space.
-/

namespace RcScript

open Text

/-- A text that is not empty and holds no blank. -/
def Unbroken (w : List Char) : Prop := w ≠ [] ∧ ∀ c ∈ w, isBlank c = false

namespace Unbroken

variable {w : List Char}

/-- A text without blanks is visible, since it is not empty. -/
theorem visible (h : Unbroken w) : Visible w := by
  obtain ⟨hne, hw⟩ := h
  cases w with
  | nil => exact absurd rfl hne
  | cons c tail => exact ⟨c, tail, rfl, hw c List.mem_cons_self⟩

/-- The words of all patterns but one hold no blank. -/
theorem of_lang {pattern : Pattern} (h : pattern.Lang w) (hurl : pattern ≠ .url) : Unbroken w :=
  ⟨(Pattern.visible_of_lang h).ne_nil, Pattern.isBlank_of_mem_lang h hurl⟩

/-- The notation of a key is a text without blanks. -/
theorem of_key {key : Key} (h : key.Valid) : Unbroken key.toText.toList :=
  of_lang (Key.lang_toText.mpr h) (by cases key <;> simp [Key.pattern])

/-- The value of a setting is a text without blanks. -/
theorem of_value {value : SettingValue} (h : value.Valid) : Unbroken value.text.toList := by
  cases value with
  | word text =>
    have hlang : Pattern.identifier.Lang text.toList := h
    exact of_lang hlang (by decide)
  | number text =>
    have hlang : Pattern.number.Lang text.toList := h
    exact of_lang hlang (by decide)

end Unbroken

/-- A text that can be a part of a line: it is not empty and holds no white space. -/
def Part (text : String) : Prop :=
  text.toList ≠ [] ∧ ∀ c ∈ text.toList, isWhiteSpace c = false

/-- Whether a text is a part can be tested character by character. -/
theorem part_iff {text : String} : Part text ↔
    text.toList ≠ [] ∧ text.toList.any isWhiteSpace = false := by
  rw [Part, List.any_eq_false]
  simp only [Bool.not_eq_true]

instance (text : String) : Decidable (Part text) := decidable_of_iff _ part_iff.symm

namespace Part

variable {text : String}

/-- A part is a text without blanks. -/
theorem unbroken (h : Part text) : Unbroken text.toList :=
  ⟨h.1, fun c hc => isBlank_of_not_isWhiteSpace (by rw [h.2 c hc]; rfl)⟩

/-- The flag of a mode with its name is one part. -/
theorem of_mode (mode : Mode) : Part ("--mode=" ++ mode.name) := by
  cases mode <;> decide

/-- The name of an event is a part. -/
theorem of_event (event : Event) : Part event.name := by
  cases event <;> decide

/-- The flag of a rule for a container is a part. -/
theorem of_flag (flag : ContainFlag) : Part flag.text := by
  cases flag <;> decide

end Part

/-- No field can end before a text without blanks. -/
theorem eq_nil_of_fieldEnd {tail rest : List Char} (h : ∀ c ∈ tail, isBlank c = false)
    (hend : FieldEnd (tail ++ rest)) : tail = [] := by
  cases tail with
  | nil => rfl
  | cons c tail =>
    rw [List.cons_append, fieldEnd_cons, h c List.mem_cons_self] at hend
    exact absurd hend (by decide)

/-- Nothing stands in front of a text that shows. -/
theorem eq_nil_of_blanks {l blanks body : List Char} (h : Visible l) (hblanks : Blanks blanks)
    (he : l = blanks ++ body) : blanks = [] := by
  obtain ⟨c, tail, rfl, hc⟩ := h
  cases blanks with
  | nil => rfl
  | cons d blanks =>
    obtain ⟨rfl, -⟩ := List.cons.inj he
    rw [hblanks c List.mem_cons_self] at hc
    exact absurd hc (by decide)

/-- A text that shows is more than blanks. -/
theorem not_blanks_of_visible {l : List Char} (h : Visible l) : ¬ Blanks l := by
  obtain ⟨c, tail, rfl, hc⟩ := h
  intro hblanks
  rw [hblanks c List.mem_cons_self] at hc
  exact absurd hc (by decide)

/-- The empty text has no field. -/
theorem not_field_nil {text : String} {rest : List Char} : ¬ Field [] text rest := by
  rintro ⟨gap, hgap, he, -⟩
  exact hgap.1 (List.append_eq_nil_iff.mp he.symm).1

section

variable {part text : String} {parts : List String} {rest : List Char}

/-- A field of a canonical line is its first part, or takes in the space behind that. -/
theorem field_trail_cases (hpart : Unbroken part.toList) (htext : Visible text.toList)
    (h : Field (trail (part :: parts)) text rest) :
    (text = part ∧ rest = trail parts) ∨
      ∃ more, text.toList = part.toList ++ ' ' :: more ∧ trail parts = ' ' :: (more ++ rest) := by
  have he := h.dropWhile_eq htext
  rw [trail_cons, List.dropWhile_cons_of_pos (by decide), dropWhile_visible hpart.visible] at he
  obtain ⟨-, -, -, hend⟩ := h
  rcases List.append_eq_append_iff.mp he with ⟨later, hlater, hparts⟩ | ⟨later, hlater, hrest⟩
  · cases later with
    | nil => exact .inl ⟨String.toList_inj.mp (by simpa using hlater), by simpa using hparts.symm⟩
    | cons c more =>
      cases parts with
      | nil => exact absurd hparts (by simp [trail_nil])
      | cons next parts =>
        rw [trail_cons] at hparts ⊢
        obtain ⟨rfl, hmore⟩ := List.cons.inj hparts
        exact .inr ⟨more, hlater, congrArg _ hmore⟩
  · have hnil : later = [] := by
      refine eq_nil_of_fieldEnd (fun c hc => hpart.2 c ?_) (hrest ▸ hend)
      rw [hlater]
      exact List.mem_append_right _ hc
    subst hnil
    exact .inl ⟨String.toList_inj.mp (by simpa using hlater.symm), by simpa using hrest⟩

/-- A field without blanks is the first part of a canonical line. -/
theorem field_trail_iff (hpart : Unbroken part.toList) (htext : Unbroken text.toList) :
    Field (trail (part :: parts)) text rest ↔ text = part ∧ rest = trail parts := by
  constructor
  · intro h
    rcases field_trail_cases hpart htext.visible h with hfirst | ⟨more, hmore, -⟩
    · exact hfirst
    · have hblank := htext.2 ' ' (by rw [hmore]; simp)
      exact absurd hblank (by decide)
  · rintro ⟨rfl, rfl⟩
    exact field_trail text parts

/-- A field of a pattern is a first part of that pattern. -/
theorem patternField_trail_iff {pattern : Pattern} (hurl : pattern ≠ .url)
    (hpart : Unbroken part.toList) :
    PatternField pattern (trail (part :: parts)) text rest ↔
      pattern.Lang part.toList ∧ text = part ∧ rest = trail parts := by
  constructor
  · rintro ⟨hfield, hlang⟩
    obtain ⟨rfl, rfl⟩ := (field_trail_iff hpart (.of_lang hlang hurl)).mp hfield
    exact ⟨hlang, rfl, rfl⟩
  · rintro ⟨hlang, rfl, rfl⟩
    exact ⟨field_trail text parts, hlang⟩

/-- A field with a URL is a first part that is one, or takes in the space behind that. -/
theorem urlField_trail (hpart : Unbroken part.toList)
    (h : UrlField (trail (part :: parts)) text rest) :
    (Pattern.url.Lang part.toList ∧ text = part ∧ rest = trail parts) ∨
      ∃ more, trail parts = ' ' :: (more ++ rest) ∧ FieldEnd rest := by
  obtain ⟨hfield, hlang⟩ := urlField_iff.mp h
  rcases field_trail_cases hpart (Pattern.visible_of_lang hlang) hfield with
    ⟨rfl, rfl⟩ | ⟨more, -, hmore⟩
  · exact .inl ⟨hlang, rfl, rfl⟩
  · obtain ⟨-, -, -, hend⟩ := hfield
    exact .inr ⟨more, hmore, hend⟩

/-- The last part of a canonical line is a URL where a URL is found there. -/
theorem urlField_trail_last (hpart : Unbroken part.toList) (h : UrlField (trail [part]) text rest) :
    Pattern.url.Lang part.toList ∧ text = part := by
  rcases urlField_trail hpart h with ⟨hlang, htext, -⟩ | ⟨more, hmore, -⟩
  · exact ⟨hlang, htext⟩
  · exact absurd hmore (by simp [trail_nil])

/-- A URL that leaves a field behind it is the first of two parts: had it taken in the second, it
would have taken all of it. -/
theorem urlField_trail_field {next other : String} {last : List Char}
    (hpart : Unbroken part.toList) (hnext : Unbroken next.toList)
    (h : UrlField (trail [part, next]) text rest) (hother : Field rest other last) :
    Pattern.url.Lang part.toList ∧ text = part ∧ rest = trail [next] := by
  rcases urlField_trail hpart h with hfirst | ⟨more, hmore, hend⟩
  · exact hfirst
  · rw [trail_cons, trail_nil, List.append_nil] at hmore
    obtain ⟨-, hnext'⟩ := List.cons.inj hmore
    have hnil : rest = [] := by
      rw [← List.append_nil rest] at hend
      refine eq_nil_of_fieldEnd (fun c hc => hnext.2 c ?_) hend
      rw [hnext']
      exact List.mem_append_right _ hc
    rw [hnil] at hother
    exact absurd hother not_field_nil

end

/-- Fields up to the end of a canonical line are its parts. -/
theorem fields_trail_eq {parts texts : List String} {rest : List Char}
    (hparts : ∀ part ∈ parts, Unbroken part.toList)
    (htexts : ∀ text ∈ texts, Unbroken text.toList) (h : Fields (trail parts) texts rest)
    (hblanks : Blanks rest) : texts = parts := by
  generalize hcs : trail parts = cs at h
  induction h generalizing parts with
  | nil =>
    cases parts with
    | nil => rfl
    | cons part parts =>
      have hpart : Blanks part.toList := by
        intro c hc
        refine hblanks c ?_
        rw [← hcs, trail_cons]
        exact List.mem_cons_of_mem _ (List.mem_append_left _ hc)
      exact absurd hpart (not_blanks_of_visible (hparts part List.mem_cons_self).visible)
  | @cons cs mid rest text texts hfield _ ih =>
    cases parts with
    | nil =>
      rw [← hcs, trail_nil] at hfield
      exact absurd hfield not_field_nil
    | cons part parts =>
      rw [← hcs, field_trail_iff (hparts part List.mem_cons_self)
        (htexts text List.mem_cons_self)] at hfield
      obtain ⟨rfl, rfl⟩ := hfield
      rw [ih (fun other hmem => hparts other (List.mem_cons_of_mem _ hmem))
        (fun other hmem => htexts other (List.mem_cons_of_mem _ hmem)) hblanks rfl]

/-- Keys with the same notation are the same. -/
theorem Key.toText_inj {key other : Key} : key.toText = other.toText ↔ key = other := by
  rw [← String.toList_inj]
  cases key <;> cases other <;> simp only [toText, String.toList_ofList] <;> simp

/-- A key is shorter than the part for a mode. -/
theorem toText_ne_mode (key : Key) (mode : Mode) : key.toText ≠ "--mode=" ++ mode.name := by
  intro he
  have hlength := congrArg (fun text => text.toList.length) he
  cases key <;> simp [Key.toText] at hlength

/-- Modes with the same name are the same. -/
theorem mode_name_inj {mode other : Mode} (h : "--mode=" ++ mode.name = "--mode=" ++ other.name) :
    mode = other := by
  cases mode <;> cases other <;> first | rfl | exact absurd h (by decide)

section

variable {key other : Key} {parts : List String} {rest : List Char}

/-- A field with a key is a first part that is a key of the language. -/
theorem keyField_trail_iff (hkey : Unbroken key.toText.toList) :
    KeyField (trail (key.toText :: parts)) other rest ↔
      key.Valid ∧ other = key ∧ rest = trail parts := by
  constructor
  · rintro ⟨hfield, hvalid⟩
    obtain ⟨htext, rfl⟩ := (field_trail_iff hkey (.of_key hvalid)).mp hfield
    obtain rfl := Key.toText_inj.mp htext
    exact ⟨hvalid, rfl, rfl⟩
  · rintro ⟨hvalid, rfl, rfl⟩
    exact ⟨field_trail _ parts, hvalid⟩

/-- The mode and the key of a canonical line are found as they stand there. -/
theorem modeField_trail_eq {mode? found : Option Mode} {mid : List Char}
    (hkey : Unbroken key.toText.toList)
    (hmode : ModeField (trail (modeParts mode? ++ key.toText :: parts)) found mid)
    (hfield : KeyField mid other rest) :
    key.Valid ∧ found = mode? ∧ other = key ∧ rest = trail parts := by
  cases hmode with
  | absent =>
    cases mode? with
    | none =>
      obtain ⟨hvalid, hother, hrest⟩ := (keyField_trail_iff hkey).mp hfield
      exact ⟨hvalid, rfl, hother, hrest⟩
    | some mode =>
      obtain ⟨htext, -⟩ :=
        (field_trail_iff (Part.of_mode mode).unbroken (.of_key hfield.2)).mp hfield.1
      exact absurd htext (toText_ne_mode other mode)
  | @present _ read hread =>
    have hmark := (Part.of_mode read).unbroken
    cases mode? with
    | none =>
      obtain ⟨htext, -⟩ := (field_trail_iff hkey hmark).mp hread
      exact absurd htext.symm (toText_ne_mode key read)
    | some mode =>
      obtain ⟨htext, rfl⟩ := (field_trail_iff (Part.of_mode mode).unbroken hmark).mp hread
      obtain ⟨hvalid, hother, hrest⟩ := (keyField_trail_iff hkey).mp hfield
      exact ⟨hvalid, congrArg some (mode_name_inj htext), hother, hrest⟩

end

/-- A text that can be the arguments of a command: it is not empty, stays on one line,
begins with no blank and ends with no white space. -/
def Arguments (args : String) : Prop :=
  Visible args.toList ∧ '\n' ∉ args.toList ∧ ∀ c ∈ args.toList.getLast?, isWhiteSpace c = false

/-- Whether a text can be the arguments of a command is decided by its two ends and by its line
feeds. -/
theorem arguments_iff {args : String} : Arguments args ↔
    args.toList.head?.any (fun c => !isBlank c) = true ∧ '\n' ∉ args.toList ∧
      args.toList.getLast?.any isWhiteSpace = false := by
  have hvisible : args.toList.head?.any (fun c => !isBlank c) = true ↔ Visible args.toList := by
    cases h : args.toList <;> simp [Visible]
  rw [Arguments, hvisible, Option.any_eq_false]
  rfl

instance (args : String) : Decidable (Arguments args) := decidable_of_iff _ arguments_iff.symm

/-- A command whose name and arguments show in its canonical text. -/
def ExCommand.Tidy (command : ExCommand) : Prop :=
  Part command.name ∧ ∀ args ∈ command.args, Arguments args

instance (command : ExCommand) : Decidable command.Tidy := inferInstanceAs (Decidable (_ ∧ _))

/-- The text of a command is its name and something else behind a blank, if anything. -/
theorem ExCommand.exists_rest (command : ExCommand) :
    ∃ rest, command.toText.toList = command.name.toList ++ rest ∧ FieldEnd rest := by
  obtain ⟨name, args⟩ := command
  cases args with
  | none => exact ⟨[], by simp [toText], fieldEnd_nil⟩
  | some args => exact ⟨_, toList_toText_withArgs name args, fieldEnd_cons.mpr (by decide)⟩

namespace ExCommand.Tidy

variable {command other : ExCommand}

/-- A tidy command is visible, since its name is. -/
theorem visible (h : command.Tidy) : Visible command.toText.toList := by
  obtain ⟨rest, htext, -⟩ := command.exists_rest
  obtain ⟨c, tail, he, hc⟩ := h.1.unbroken.visible
  exact ⟨c, tail ++ rest, by rw [htext, he, List.cons_append], hc⟩

/-- A command of a listed name or an identifier is called by its text. -/
theorem invokes (h : command.Tidy) (hname : CommandName command.name) :
    Invokes command.toText.toList command := by
  obtain ⟨-, hargs⟩ := h
  obtain ⟨name, args⟩ := command
  cases args with
  | none =>
    have htext : (toText ⟨name, none⟩).toList = name.toList ++ [] := (List.append_nil _).symm
    rw [htext]
    exact .bare hname blanks_nil
  | some args =>
    obtain ⟨⟨c, tail, he, hc⟩, -, hlast⟩ := hargs args rfl
    have hinvokes : Invokes (name.toList ++ ([' '] ++ c :: tail))
        ⟨name, some (String.ofList (trimEnd isWhiteSpace (c :: tail)))⟩ :=
      .withArgs hname gap_space hc
    rw [← he, trimEnd_of_getLast hlast, String.ofList_toList] at hinvokes
    rw [toList_toText_withArgs]
    exact hinvokes

/-- What the text of a command calls has the name of the command. -/
theorem name_of_invokes (h : command.Tidy) (hinvokes : Invokes command.toText.toList other) :
    other.name = command.name := by
  obtain ⟨rest, htext, hend⟩ := command.exists_rest
  obtain ⟨rest', htext', hend', hname⟩ := exists_name_of_invokes hinvokes
  have hword := Recogniser.isWord_of_commandName hname
  obtain ⟨hother, -⟩ :=
    word_unique (htext'.symm.trans htext) hword.isBlank_of_mem h.1.unbroken.2 hend' hend
  exact String.toList_inj.mp hother

/-- The text of a command calls no other command. Arguments that show are not taken for blanks
behind the name. -/
theorem eq_of_invokes (h : command.Tidy) (hinvokes : Invokes command.toText.toList other) :
    other = command := by
  have hsame := h.name_of_invokes hinvokes
  obtain ⟨-, hargs⟩ := h
  obtain ⟨name, args⟩ := command
  generalize htext : (toText ⟨name, args⟩).toList = body at hinvokes
  cases hinvokes with
  | @bare other blanks _ hblanks =>
    obtain rfl : other = name := hsame
    cases args with
    | none => rfl
    | some args =>
      rw [toList_toText_withArgs, List.append_cancel_left_eq] at htext
      have hblank : Blanks args.toList := fun c hc => hblanks c (by rw [← htext]; simp [hc])
      exact absurd hblank (not_blanks_of_visible (hargs args rfl).1)
  | @withArgs other gap first later _ hgap hfirst =>
    obtain rfl : other = name := hsame
    cases args with
    | none =>
      have hlength := congrArg List.length htext
      simp only [toText, List.length_append, List.length_cons] at hlength
      omega
    | some args =>
      rw [toList_toText_withArgs, List.append_cancel_left_eq] at htext
      obtain ⟨⟨c, tail, he, hc⟩, -, hlast⟩ := hargs args rfl
      have hread := congrArg (List.dropWhile isBlank) htext
      rw [he, List.dropWhile_cons_of_pos (by decide), dropWhile_blanks hgap.2,
        List.dropWhile_cons_of_neg (by simp [hc]), List.dropWhile_cons_of_neg (by simp [hfirst]),
        ← he] at hread
      rw [← hread, trimEnd_of_getLast hlast, String.ofList_toList]

/-- The text of a command calls that command alone, if its name is a command's. -/
theorem invokes_iff (h : command.Tidy) :
    Invokes command.toText.toList other ↔ CommandName command.name ∧ other = command := by
  constructor
  · intro hinvokes
    obtain ⟨-, -, -, hname⟩ := exists_name_of_invokes hinvokes
    rw [h.name_of_invokes hinvokes] at hname
    exact ⟨hname, h.eq_of_invokes hinvokes⟩
  · rintro ⟨hname, rfl⟩
    exact h.invokes hname

/-- A command at the end of a canonical line is found as it stands there. -/
theorem commandField_iff (h : command.Tidy) :
    CommandField (trail [command.toText]) other ↔
      CommandName command.name ∧ other = command := by
  rw [trail_cons, trail_nil, List.append_nil, RcScript.commandField_iff, ← h.invokes_iff]
  constructor
  · rintro ⟨blanks, body, hblanks, he, hinvokes⟩
    obtain rfl := eq_nil_of_blanks h.visible hblanks he
    rwa [he]
  · intro hinvokes
    exact ⟨[], _, blanks_nil, rfl, hinvokes⟩

/-- The text of a command opens with a keyword only if the keyword is its name. -/
theorem not_opens (h : command.Tidy) (hkeyword : command.name ∉ Keyword.all.map Keyword.literal)
    (keyword : Keyword) (rest : List Char) : ¬ Opens keyword command.toText.toList rest := by
  rintro ⟨blanks, hblanks, he, hend⟩
  obtain rfl := eq_nil_of_blanks h.visible hblanks he
  rw [List.nil_append] at he
  obtain ⟨rest', htext, hend'⟩ := command.exists_rest
  have hword := (isWord_literal keyword).isBlank_of_mem
  obtain ⟨hliteral, -⟩ := word_unique (he.symm.trans htext) hword h.1.unbroken.2 hend hend'
  have hmem : keyword ∈ Keyword.all := by cases keyword <;> decide
  exact hkeyword (List.mem_map.mpr ⟨keyword, hmem, String.toList_inj.mp hliteral⟩)

end ExCommand.Tidy

end RcScript
