import RcScript.Proofs.LineGrammar

/-!
# Recognition of words that stand alone

A recogniser that answers with words standing alone is determined by the kinds and
words that it knows: it answers exactly where one of its words is followed by a
blank or the end. This is shown of every recogniser that the grammars ask, except
that a flag which takes its value directly does not stand alone, and that the rest
of a line is no word.
-/

namespace RcScript

open Text

/-- A recogniser answers exactly with the words of `Word` that end where a field
can end. No such word is empty or starts with a blank. -/
structure Recognises (recogniser : Recogniser) (Word : TokenKind → List Char → Prop) : Prop where
  /-- An answer covers a first part of the text. -/
  count_le {cs : List Char} {lexeme : Lexeme} :
    recogniser cs = some lexeme → lexeme.count ≤ cs.length
  /-- The answers are the words that end where a field can end. -/
  answers {kind : TokenKind} {w rest : List Char} :
    recogniser (w ++ rest) = some ⟨kind, w.length⟩ ↔ Word kind w ∧ FieldEnd rest
  /-- A word starts with a character that is no blank. -/
  visible {kind : TokenKind} {w : List Char} :
    Word kind w → Visible w

namespace Recognises

variable {recogniser : Recogniser} {Word : TokenKind → List Char → Prop}

/-- What is recognised is a word and what follows it. -/
theorem exists_word (h : Recognises recogniser Word) {cs : List Char} {lexeme : Lexeme}
    (hl : recogniser cs = some lexeme) :
    ∃ w rest, cs = w ++ rest ∧ lexeme.count = w.length ∧ Word lexeme.kind w ∧ FieldEnd rest := by
  have hle := h.count_le hl
  have hsplit : cs.take lexeme.count ++ cs.drop lexeme.count = cs := List.take_append_drop _ _
  have hlen : (cs.take lexeme.count).length = lexeme.count := by
    rw [List.length_take]
    omega
  have hanswer : recogniser (cs.take lexeme.count ++ cs.drop lexeme.count) =
      some ⟨lexeme.kind, (cs.take lexeme.count).length⟩ := by
    rw [hsplit, hlen]
    exact hl
  obtain ⟨hword, hend⟩ := h.answers.mp hanswer
  exact ⟨_, _, hsplit.symm, hlen.symm, hword, hend⟩

end Recognises

/-- One word of one kind. -/
def OneWord (kind : TokenKind) (word : List Char) (found : TokenKind) (w : List Char) : Prop :=
  found = kind ∧ w = word

/-- Any of some names, of one kind. -/
def NamedWord (kind : TokenKind) (names : List String) (found : TokenKind) (w : List Char) :
    Prop :=
  found = kind ∧ String.ofList w ∈ names

/-- The name of a command, taken for an identifier. -/
def CommandWord (found : TokenKind) (w : List Char) : Prop :=
  found = .identifier ∧ CommandName (String.ofList w)

/-- The words of some patterns, of the kind of their pattern. -/
def PatternWord (allowed : List Pattern) (found : TokenKind) (w : List Char) : Prop :=
  ∃ pattern ∈ allowed, found = pattern.tokenKind ∧ pattern.Lang w

/-- A name that a command can be called by is a word for one. -/
theorem CommandName.commandWord {name : String} (h : CommandName name) :
    CommandWord .identifier name.toList := by
  refine ⟨rfl, ?_⟩
  rw [String.ofList_toList]
  exact h

namespace Recogniser

/-- A fixed word standing alone is recognised by comparison. -/
theorem recognises_literal (kind : TokenKind) {word : List Char}
    (hvisible : Visible word) :
    Recognises (fun cs =>
        if word.isPrefixOf cs && endsWord word.length cs then some ⟨kind, word.length⟩ else none)
      (OneWord kind word) where
  count_le {cs lexeme} h := by
    split at h
    · next hc =>
      rw [Bool.and_eq_true, List.isPrefixOf_iff_prefix] at hc
      rw [← Option.some.inj h]
      exact hc.1.length_le
    · simp at h
  answers {found w rest} := by
    constructor
    · intro h
      split at h
      · next hc =>
        rw [Bool.and_eq_true, List.isPrefixOf_iff_prefix, endsWord_iff] at hc
        obtain ⟨⟨later, he⟩, hend⟩ := hc
        simp only [Option.some.injEq, Lexeme.mk.injEq] at h
        obtain ⟨hw, -⟩ := List.append_inj he h.2
        subst hw
        rw [List.drop_left] at hend
        exact ⟨⟨h.1.symm, rfl⟩, hend⟩
      · simp at h
    · rintro ⟨⟨rfl, rfl⟩, hend⟩
      have hpre : w.isPrefixOf (w ++ rest) = true :=
        List.isPrefixOf_iff_prefix.mpr (List.prefix_append w rest)
      have hstop := endsWord_append (w := w) |>.mpr hend
      rw [if_pos (by rw [hpre, hstop]; rfl)]
  visible := by
    rintro found w ⟨-, rfl⟩
    exact hvisible

/-- A keyword is recognised where its literal stands as a word. -/
theorem recognises_keyword (word : Keyword) :
    Recognises (keyword word.literal) (OneWord .keyword word.literal.toList) := by
  refine recognises_literal .keyword ?_
  cases word <;> exact ⟨_, _, rfl, by decide⟩

/-- A flag is recognised where its text stands as a word. -/
theorem recognises_flag (flag : ContainFlag) :
    Recognises (Recogniser.flag flag.text) (OneWord .flag flag.text.toList) := by
  have hlast : (flag.text.toList.getLast? == some '=') = false := by cases flag <;> rfl
  have heq : Recogniser.flag flag.text = fun cs =>
      if flag.text.toList.isPrefixOf cs && endsWord flag.text.toList.length cs then
        some ⟨.flag, flag.text.toList.length⟩ else none := by
    funext cs
    simp only [Recogniser.flag, hlast, Bool.false_or]
  rw [heq]
  refine recognises_literal .flag ?_
  cases flag <;> exact ⟨_, _, rfl, by decide⟩

/-- Names made of word characters are recognised by their run. -/
theorem recognises_named (kind : TokenKind) {names : List String}
    (hnames : ∀ name ∈ names, IsWord name.toList) :
    Recognises (named kind names) (NamedWord kind names) where
  count_le {cs lexeme} h := by
    simp only [named] at h
    split at h
    · rw [← Option.some.inj h, runLength]
      exact (List.takeWhile_sublist _).length_le
    · simp at h
  answers {found w rest} := by
    simp only [named]
    constructor
    · intro h
      split at h
      · next hc =>
        simp only [Option.some.injEq, Lexeme.mk.injEq] at h
        rw [Bool.and_eq_true, endsWord_iff, h.2, List.take_left, List.drop_left,
          List.contains_iff_mem] at hc
        exact ⟨⟨h.1.symm, hc.1⟩, hc.2⟩
      · simp at h
    · rintro ⟨⟨rfl, hmem⟩, hend⟩
      have hword := (hnames _ hmem).2
      rw [String.toList_ofList] at hword
      have hstop := hend.not_continued fun c (hc : isWordChar c = true) =>
        isBlank_of_isWordChar hc
      have hrun := runLength_append hword hstop
      have hends := endsWord_append (w := w) |>.mpr hend
      rw [hrun, List.take_left, hends, List.contains_iff_mem.mpr hmem]
      rfl
  visible := by
    rintro found w ⟨-, hmem⟩
    have hname := hnames _ hmem
    rw [String.toList_ofList] at hname
    exact hname.visible

/-- An event is recognised where one of the names of events stands as a word. -/
theorem recognises_eventName :
    Recognises eventName (NamedWord .eventName (Event.all.map Event.name)) :=
  recognises_named .eventName (by decide)

/-- A mode is recognised where one of the names of modes stands as a word. -/
theorem recognises_modeName :
    Recognises modeName (NamedWord .modeName (Mode.all.map Mode.name)) :=
  recognises_named .modeName (by decide)

/-- The longest of some lengths is one of them, or what the search began with. -/
theorem foldl_max_length (names : List (List Char)) (count : Nat) :
    count ≤ names.foldl (fun count name => max count name.length) count ∧
      (∀ name ∈ names,
        name.length ≤ names.foldl (fun count name => max count name.length) count) ∧
      (names.foldl (fun count name => max count name.length) count = count ∨
        ∃ name ∈ names,
          names.foldl (fun count name => max count name.length) count = name.length) := by
  induction names generalizing count with
  | nil => simp
  | cons first later ih =>
    obtain ⟨hstart, hlater, hfound⟩ := ih (max count first.length)
    rw [List.foldl_cons]
    refine ⟨by omega, ?_, ?_⟩
    · intro name hmem
      rcases List.mem_cons.mp hmem with rfl | hmem
      · omega
      · exact hlater name hmem
    · rcases hfound with heq | ⟨name, hmem, heq⟩
      · rw [heq]
        rcases Nat.le_total count first.length with hle | hle
        · exact .inr ⟨first, List.mem_cons_self, by omega⟩
        · exact .inl (by omega)
      · exact .inr ⟨name, List.mem_cons_of_mem _ hmem, heq⟩

/-- A listed command at the start of a text is no longer than the longest. -/
theorem length_le_listedCount {name : String} (hmem : name ∈ commandNames) (rest : List Char) :
    name.toList.length ≤ listedCount (name.toList ++ rest) := by
  refine (foldl_max_length _ 0).2.1 name.toList ?_
  simp only [List.mem_filter, List.mem_map]
  exact ⟨⟨name, hmem, rfl⟩, List.isPrefixOf_iff_prefix.mpr (List.prefix_append _ _)⟩

/-- Where a listed command starts a text, the longest one is found. -/
theorem exists_listed_of_listedCount {cs : List Char} (h : 0 < listedCount cs) :
    ∃ name ∈ commandNames, ∃ rest, cs = name.toList ++ rest ∧
      listedCount cs = name.toList.length := by
  rcases (foldl_max_length
      ((commandNames.map String.toList).filter fun name => name.isPrefixOf cs) 0).2.2 with
    hzero | ⟨w, hmem, heq⟩
  · rw [listedCount, hzero] at h
    exact absurd h (Nat.lt_irrefl 0)
  · simp only [List.mem_filter, List.mem_map, List.isPrefixOf_iff_prefix] at hmem
    obtain ⟨⟨name, hname, rfl⟩, rest, hrest⟩ := hmem
    exact ⟨name, hname, rest, hrest.symm, heq⟩

/-- The listed commands are not empty and made of word characters. -/
theorem isWord_of_mem_commandNames : ∀ name ∈ commandNames, IsWord name.toList := by
  decide +kernel

/-- A command name is not empty and made of word characters. -/
theorem isWord_of_commandName {name : String} (h : CommandName name) : IsWord name.toList := by
  rcases h with hmem | hlang
  · exact isWord_of_mem_commandNames name hmem
  · exact ⟨hlang.1, fun c hc => isWordChar_of_isNameChar (hlang.2 c hc)⟩

/-- The length of a name in command position is that of the longest name there. -/
theorem exists_commandName {cs : List Char}
    (h : 0 < max (listedCount cs) ((Pattern.identifier.matchCount cs).getD 0)) :
    ∃ name rest, cs = name.toList ++ rest ∧ CommandName name ∧
      max (listedCount cs) ((Pattern.identifier.matchCount cs).getD 0) = name.toList.length := by
  rcases Nat.le_total (listedCount cs) ((Pattern.identifier.matchCount cs).getD 0) with hle | hle
  · rw [Nat.max_eq_right hle] at h ⊢
    cases hm : Pattern.identifier.matchCount cs with
    | none => simp [hm] at h
    | some count =>
      obtain ⟨w, rest, rfl, rfl, hlang⟩ := Pattern.exists_lang_of_matchCount hm
      refine ⟨String.ofList w, rest, ?_, .inr ?_, ?_⟩ <;> rw [String.toList_ofList]
      · exact hlang
      · rfl
  · rw [Nat.max_eq_left hle] at h ⊢
    obtain ⟨name, hmem, rest, rfl, hlen⟩ := exists_listed_of_listedCount h
    exact ⟨name, rest, rfl, .inl hmem, hlen⟩

/-- A command name is no longer than what is found in its place. -/
theorem length_le_of_commandName {name : String} (h : CommandName name) (rest : List Char) :
    name.toList.length ≤ max (listedCount (name.toList ++ rest))
      ((Pattern.identifier.matchCount (name.toList ++ rest)).getD 0) := by
  rcases h with hmem | hlang
  · have hle := length_le_listedCount hmem rest
    omega
  · obtain ⟨count, hcount, hle⟩ := Pattern.exists_matchCount hlang rest
    rw [hcount, Option.getD_some]
    omega

/-- A command is recognised where a listed name or any other name stands as a word. A longer name
reaches past a listed one, so that no name covers a part of a word, and none reaches past the blank
or the end behind the word. -/
theorem recognises_commandName :
    Recognises commandName CommandWord where
  count_le {cs lexeme} h := by
    simp only [commandName] at h
    split at h
    · next hc =>
      rw [Bool.and_eq_true, decide_eq_true_eq] at hc
      obtain ⟨name, rest, he, -, hlen⟩ := exists_commandName hc.1
      rw [← Option.some.inj h, hlen, he, List.length_append]
      exact Nat.le_add_right _ _
    · simp at h
  answers {kind w rest} := by
    simp only [commandName]
    constructor
    · intro h
      split at h
      · next hc =>
        rw [Bool.and_eq_true, decide_eq_true_eq, endsWord_iff] at hc
        simp only [Option.some.injEq, Lexeme.mk.injEq] at h
        obtain ⟨name, later, he, hname, hlen⟩ := exists_commandName hc.1
        rw [h.2] at hlen hc
        obtain ⟨hw, -⟩ := List.append_inj he hlen
        rw [List.drop_left] at hc
        rw [hw, ← h.1]
        exact ⟨hname.commandWord, hc.2⟩
      · simp at h
    · rintro ⟨⟨rfl, hname⟩, hend⟩
      have hword := isWord_of_commandName hname
      have hle := length_le_of_commandName hname rest
      rw [String.toList_ofList] at hword hle
      have hpos := List.length_pos_iff.mpr hword.1
      have hfound : 0 < max (listedCount (w ++ rest))
          ((Pattern.identifier.matchCount (w ++ rest)).getD 0) := by
        omega
      obtain ⟨longest, later, he, hlongest, hlen⟩ := exists_commandName hfound
      have hblank := (isWord_of_commandName hlongest).isBlank_of_mem
      have hpre := Pattern.isPrefix_of_fieldEnd he.symm hblank hend
      have hcount := hpre.length_le
      rw [← hlen] at hcount
      have heq := Nat.le_antisymm hcount hle
      have hends := endsWord_append (w := w) |>.mpr hend
      rw [heq, hends, Bool.and_true, if_pos (by simpa using hpos)]
  visible := by
    rintro kind w ⟨-, hname⟩
    have hword := isWord_of_commandName hname
    rw [String.toList_ofList] at hword
    exact hword.visible

/-- Patterns of which at most one matches any text. -/
def Apart (allowed : List Pattern) : Prop :=
  ∀ first ∈ allowed, ∀ second ∈ allowed, ∀ (cs : List Char) (count : Nat),
    first.matchCount cs = some count → second ≠ first → second.matchCount cs = none

/-- Patterns are apart when their words differ in the first character. -/
theorem apart_of_first {allowed : List Pattern} (starts : Pattern → Char → Bool)
    (hstarts : ∀ pattern ∈ allowed, ∀ c tail, pattern.Lang (c :: tail) → starts pattern c = true)
    (hone : ∀ first ∈ allowed, ∀ second ∈ allowed, ∀ c, starts first c = true →
      starts second c = true → second = first) : Apart allowed := by
  intro first hfirst second hsecond cs count hcount hne
  cases hother : second.matchCount cs with
  | none => rfl
  | some other =>
    obtain ⟨w, rest, rfl, -, hw⟩ := Pattern.exists_lang_of_matchCount hcount
    obtain ⟨v, later, he, -, hv⟩ := Pattern.exists_lang_of_matchCount hother
    obtain ⟨c, tail, rfl, -⟩ := Pattern.visible_of_lang hw
    obtain ⟨d, tail', rfl, -⟩ := Pattern.visible_of_lang hv
    have hcd : c = d := (List.cons.inj he).1
    subst hcd
    exact absurd (hone first hfirst second hsecond c (hstarts first hfirst c tail hw)
      (hstarts second hsecond c tail' hv)) hne

/-- One pattern has no other to keep apart from. -/
theorem apart_singleton (pattern : Pattern) : Apart [pattern] := by
  intro first hfirst second hsecond cs count hcount hne
  rw [List.mem_singleton] at hfirst hsecond
  exact absurd (hsecond.trans hfirst.symm) hne

/-- The two kinds of keys keep apart, since one of them starts with a bracket. -/
theorem apart_keys : Apart [.compoundKey, .singleKey] := by
  refine apart_of_first
    (fun pattern c => if pattern = .compoundKey then c == '<' else isLetter c) ?_ ?_
  · intro pattern hmem c tail hlang
    simp only [List.mem_cons, List.not_mem_nil, or_false] at hmem
    rcases hmem with rfl | rfl
    · obtain ⟨m, k, -, -, he⟩ := hlang
      simp [(List.cons.inj he).1]
    · obtain ⟨k, hk, he⟩ := hlang
      simpa [(List.cons.inj he).1] using hk
  · intro first hfirst second hsecond c hc hc'
    have hmark : isLetter '<' = false := by decide
    simp only [List.mem_cons, List.not_mem_nil, or_false] at hfirst hsecond
    rcases hfirst with rfl | rfl <;> rcases hsecond with rfl | rfl <;> simp_all

/-- A word and a number keep apart, since no name starts with a digit. -/
theorem apart_values : Apart [.identifier, .number] := by
  refine apart_of_first
    (fun pattern c => if pattern = .identifier then isNameChar c else c.isDigit) ?_ ?_
  · intro pattern hmem c tail hlang
    simp only [List.mem_cons, List.not_mem_nil, or_false] at hmem
    rcases hmem with rfl | rfl
    · exact hlang.2 c List.mem_cons_self
    · exact hlang.2 c List.mem_cons_self
  · intro first hfirst second hsecond c hc hc'
    have hdigit : isNameChar c = true → c.isDigit = false := isDigit_of_isNameChar
    simp only [List.mem_cons, List.not_mem_nil, or_false] at hfirst hsecond
    rcases hfirst with rfl | rfl <;> rcases hsecond with rfl | rfl <;> simp_all

/-- Words of patterns that are apart are recognised by the longest match. -/
theorem recognises_wholeWord {allowed : List Pattern} (hapart : Apart allowed) :
    Recognises (wholeWord allowed) (PatternWord allowed) where
  count_le {cs lexeme} h := by
    obtain ⟨hfound, -⟩ := Option.filter_eq_some_iff.mp h
    obtain ⟨⟨pattern, count⟩, hlongest, rfl⟩ := Option.map_eq_some_iff.mp hfound
    obtain ⟨-, hcount⟩ := Pattern.matchCount_of_longest hlongest
    obtain ⟨w, rest, rfl, rfl, -⟩ := Pattern.exists_lang_of_matchCount hcount
    rw [List.length_append]
    exact Nat.le_add_right _ _
  answers {kind w rest} := by
    constructor
    · intro h
      obtain ⟨hfound, hend⟩ := Option.filter_eq_some_iff.mp h
      obtain ⟨⟨pattern, count⟩, hlongest, he⟩ := Option.map_eq_some_iff.mp hfound
      simp only [Lexeme.mk.injEq] at he
      obtain ⟨rfl, rfl⟩ := he
      obtain ⟨hmem, hcount⟩ := Pattern.matchCount_of_longest hlongest
      rw [endsWord_iff, List.drop_left] at hend
      exact ⟨⟨pattern, hmem, rfl, (Pattern.matchCount_append.mp hcount).1⟩, hend⟩
    · rintro ⟨⟨pattern, hmem, rfl, hlang⟩, hend⟩
      have hcount := Pattern.matchCount_append.mpr (Pattern.longest_of_fieldEnd hlang hend)
      have hlongest := Pattern.longest_of_only hmem hcount fun other hother hne =>
        hapart pattern hmem other hother _ _ hcount hne
      have hends := endsWord_append (w := w) |>.mpr hend
      rw [wholeWord, structural, hlongest, Option.map_some, Option.filter_some, if_pos hends]
  visible := by
    rintro kind w ⟨pattern, -, -, hlang⟩
    exact Pattern.visible_of_lang hlang

end Recogniser

end RcScript
