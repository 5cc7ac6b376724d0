import RcScript.Token.Recogniser

/-!
# The words of the token patterns

Each pattern is given its words without reference to the matcher, and the matcher
is shown to find the longest of them that a text starts with. A word that ends at
a blank or with the text is always the longest: what follows it cannot extend a
word of any of the six patterns. This holds of a URL too, although one character
of it may itself be a blank.
-/

namespace RcScript

open Text

/-- A text that is empty or starts with a blank: a field can end before it. -/
def FieldEnd (rest : List Char) : Prop := ∀ c ∈ rest.head?, isBlank c = true

/-- A field ends at the end of a line. -/
theorem fieldEnd_nil : FieldEnd [] := by
  simp [FieldEnd]

/-- A field ends in front of a character exactly if it is a blank. -/
@[simp]
theorem fieldEnd_cons {c : Char} {rest : List Char} : FieldEnd (c :: rest) ↔ isBlank c = true := by
  simp [FieldEnd]

/-- A word ends after `count` characters when a field can end there. -/
theorem endsWord_iff {count : Nat} {cs : List Char} :
    endsWord count cs = true ↔ FieldEnd (cs.drop count) := by
  simp [endsWord, FieldEnd, Option.all_eq_true]

/-- A word ends where a field can end behind it. -/
theorem endsWord_append {w rest : List Char} :
    endsWord w.length (w ++ rest) = true ↔ FieldEnd rest := by
  rw [endsWord_iff, List.drop_left]

/-- A blank is white space. -/
theorem isWhiteSpace_of_isBlank {c : Char} (h : isBlank c = true) : isWhiteSpace c = true := by
  simp only [isBlank, Bool.or_eq_true, beq_iff_eq] at h
  rcases h with rfl | rfl <;> decide

/-- What is no white space is no blank. -/
theorem isBlank_of_not_isWhiteSpace {c : Char} (h : (!isWhiteSpace c) = true) :
    isBlank c = false := by
  cases hb : isBlank c with
  | false => rfl
  | true =>
    rw [isWhiteSpace_of_isBlank hb] at h
    exact Bool.noConfusion h

/-- The numbers of the letters. -/
theorem isLetter_iff_toNat {c : Char} :
    isLetter c = true ↔ (65 ≤ c.toNat ∧ c.toNat ≤ 90) ∨ (97 ≤ c.toNat ∧ c.toNat ≤ 122) := by
  have halpha : isLetter c = (decide (c.val ≥ 'A'.val ∧ c.val ≤ 'Z'.val) ||
      (decide (c.val ≥ 'a'.val) && decide (c.val ≤ 'z'.val))) := rfl
  rw [halpha, Bool.or_eq_true, Bool.and_eq_true, decide_eq_true_iff, decide_eq_true_iff,
    decide_eq_true_iff]
  exact Iff.rfl

/-- The numbers of the digits. -/
theorem isDigit_iff_toNat {c : Char} : c.isDigit = true ↔ 48 ≤ c.toNat ∧ c.toNat ≤ 57 := by
  rw [Char.isDigit, Bool.and_eq_true, decide_eq_true_iff, decide_eq_true_iff]
  exact Iff.rfl

/-- A digit opens no name. -/
theorem isDigit_of_isNameChar {c : Char} (h : isNameChar c = true) : c.isDigit = false := by
  refine Bool.eq_false_iff.mpr fun hd => ?_
  simp only [isNameChar, Bool.or_eq_true, beq_iff_eq, isLetter_iff_toNat] at h
  rw [isDigit_iff_toNat] at hd
  rcases h with (h | rfl) | rfl
  · omega
  · exact absurd hd (by decide)
  · exact absurd hd (by decide)

/-- No character of a word is white space. -/
theorem isWhiteSpace_of_isWordChar {c : Char} (h : isWordChar c = true) :
    isWhiteSpace c = false := by
  refine Bool.eq_false_iff.mpr fun hwhite => ?_
  simp only [isWordChar, Bool.or_eq_true, beq_iff_eq] at h
  rcases h with (h | rfl) | rfl
  · have hnumber : isLetter c = true ∨ c.isDigit = true := Bool.or_eq_true_iff.mp h
    simp only [isWhiteSpace, whiteSpaceRanges, List.any_cons, List.any_nil, Bool.or_eq_true,
      Bool.and_eq_true, decide_eq_true_eq, Bool.or_false] at hwhite
    rw [isLetter_iff_toNat, isDigit_iff_toNat] at hnumber
    omega
  · exact absurd hwhite (by decide)
  · exact absurd hwhite (by decide)

/-- No character of a word is a blank. -/
theorem isBlank_of_isWordChar {c : Char} (h : isWordChar c = true) : isBlank c = false :=
  isBlank_of_not_isWhiteSpace (by rw [isWhiteSpace_of_isWordChar h]; rfl)

/-- A text that starts with a character that is no blank. -/
def Visible (w : List Char) : Prop := ∃ c tail, w = c :: tail ∧ isBlank c = false

/-- A visible text is not empty. -/
theorem Visible.ne_nil {w : List Char} (h : Visible w) : w ≠ [] := by
  obtain ⟨c, tail, rfl, -⟩ := h
  exact List.cons_ne_nil c tail

/-- A text of word characters, one at least. -/
def IsWord (w : List Char) : Prop := w ≠ [] ∧ ∀ c ∈ w, isWordChar c = true

/-- Whether a text is a word can be tested character by character. -/
theorem isWord_iff {w : List Char} : IsWord w ↔ w ≠ [] ∧ w.all isWordChar = true := by
  rw [IsWord, List.all_eq_true]

instance (w : List Char) : Decidable (IsWord w) := decidable_of_iff _ isWord_iff.symm

namespace IsWord

variable {w : List Char}

/-- A word starts with a character of words. -/
theorem exists_cons (h : IsWord w) : ∃ first tail, w = first :: tail ∧ isWordChar first = true := by
  obtain ⟨hne, hword⟩ := h
  cases w with
  | nil => exact absurd rfl hne
  | cons first tail => exact ⟨first, tail, rfl, hword first List.mem_cons_self⟩

/-- A word is visible. -/
theorem visible (h : IsWord w) : Visible w := by
  obtain ⟨first, tail, he, hfirst⟩ := h.exists_cons
  exact ⟨first, tail, he, isBlank_of_isWordChar hfirst⟩

/-- A word holds no blank. -/
theorem isBlank_of_mem (h : IsWord w) : ∀ c ∈ w, isBlank c = false := by
  intro c hc
  exact isBlank_of_isWordChar (h.2 c hc)

end IsWord

/-- The characters of labels stand in words. -/
theorem isWordChar_of_isLabelChar {c : Char} (h : isLabelChar c = true) : isWordChar c = true := by
  simp [isWordChar, h]

/-- Letters stand in labels. -/
theorem isLabelChar_of_isLetter {c : Char} (h : isLetter c = true) : isLabelChar c = true := by
  simp only [isLetter, isLabelChar, Char.isAlphanum, Bool.or_eq_true] at h ⊢
  exact .inl h

/-- Digits stand in labels. -/
theorem isLabelChar_of_isDigit {c : Char} (h : c.isDigit = true) : isLabelChar c = true := by
  simp only [isLabelChar, Char.isAlphanum, Bool.or_eq_true]
  exact .inr h

/-- The characters of names stand in words. -/
theorem isWordChar_of_isNameChar {c : Char} (h : isNameChar c = true) : isWordChar c = true := by
  simp only [isNameChar, isWordChar, Bool.or_eq_true] at h ⊢
  rcases h with (h | h) | h
  · exact .inl (.inl (isLabelChar_of_isLetter h))
  · exact .inl (.inr h)
  · exact .inr h

section Runs

variable {p : Char → Bool}

/-- What follows a field continues no run of characters that are no blanks. -/
theorem FieldEnd.not_continued {rest : List Char} (h : FieldEnd rest)
    (hp : ∀ c, p c = true → isBlank c = false) : ∀ c ∈ rest.head?, p c = false := by
  intro c hc
  refine Bool.eq_false_iff.mpr fun hpc => ?_
  have hb := hp c hpc
  rw [h c hc] at hb
  exact Bool.noConfusion hb

/-- A run is read whole when what follows it does not continue it. -/
theorem runLength_append {w rest : List Char} (hw : ∀ c ∈ w, p c = true)
    (hrest : ∀ c ∈ rest.head?, p c = false) : runLength p (w ++ rest) = w.length := by
  have hstop : rest.takeWhile p = [] := by
    cases rest with
    | nil => rfl
    | cons c rest => simp [hrest c rfl]
  rw [runLength, List.takeWhile_append_of_pos hw, hstop, List.append_nil]

/-- Behind a run stands what is left when the run is dropped. -/
theorem drop_runLength (p : Char → Bool) (cs : List Char) :
    cs.drop (runLength p cs) = cs.dropWhile p := by
  induction cs with
  | nil => rfl
  | cons c cs ih =>
    by_cases hc : p c = true
    · simpa [runLength, hc] using ih
    · simp [runLength, hc]

/-- A run is the longest start of a text whose characters are all of one sort. -/
theorem take_runLength (p : Char → Bool) (cs : List Char) :
    cs.take (runLength p cs) = cs.takeWhile p := by
  induction cs with
  | nil => rfl
  | cons c cs ih =>
    by_cases hc : p c = true
    · simpa [runLength, hc] using ih
    · simp [runLength, hc]

/-- A text starts with its longest run. -/
theorem exists_run (p : Char → Bool) (cs : List Char) :
    ∃ w rest, cs = w ++ rest ∧ (∀ c ∈ w, p c = true) ∧ runLength p cs = w.length :=
  ⟨cs.takeWhile p, cs.dropWhile p, List.takeWhile_append_dropWhile.symm,
    List.all_eq_true.mp List.all_takeWhile, rfl⟩

/-- No run at the start of a text is longer than the longest. -/
theorem length_le_runLength {w : List Char} (hw : ∀ c ∈ w, p c = true) (rest : List Char) :
    w.length ≤ runLength p (w ++ rest) := by
  rw [runLength, List.takeWhile_append_of_pos hw, List.length_append]
  omega

/-- A count is a match exactly if it is not zero. -/
theorem positive?_eq_some {n count : Nat} : positive? n = some count ↔ n = count ∧ 0 < count := by
  cases n with
  | zero =>
    simp only [positive?, reduceCtorEq, false_iff]
    omega
  | succ n =>
    simp only [positive?, Option.some.injEq]
    omega

end Runs

namespace Pattern

/-- The words of a pattern. -/
def Lang : Pattern → List Char → Prop
  | compoundKey, w => ∃ m k, isModifier m = true ∧ isLetter k = true ∧ w = ['<', m, '-', k, '>']
  | domain, w => ∃ label tail, label ≠ [] ∧ (∀ c ∈ label, isLabelChar c = true) ∧
      tail ≠ [] ∧ (∀ c ∈ tail, isWhiteSpace c = false) ∧ w = label ++ '.' :: tail
  | url, w => ∃ scheme ∈ schemes, ∃ first any tail, isHostStart first = true ∧
      (∀ c ∈ tail, isWhiteSpace c = false) ∧ w = scheme ++ first :: any :: tail
  | number, w => w ≠ [] ∧ ∀ c ∈ w, c.isDigit = true
  | identifier, w => w ≠ [] ∧ ∀ c ∈ w, isNameChar c = true
  | singleKey, w => ∃ k, isLetter k = true ∧ w = [k]

/-- The longest word of a pattern that a text starts with. -/
def Longest (pattern : Pattern) (cs w : List Char) : Prop :=
  pattern.Lang w ∧ w <+: cs ∧ ∀ v, pattern.Lang v → v <+: cs → v.length ≤ w.length

/-- At most one scheme starts a text. -/
theorem find?_schemes {scheme : List Char} (h : scheme ∈ schemes) (rest : List Char) :
    (schemes.find? fun known => known.isPrefixOf (scheme ++ rest)) = some scheme := by
  simp only [schemes, List.mem_cons, List.not_mem_nil, or_false] at h
  rcases h with rfl | rfl | rfl <;> rfl

/-- What is found of a domain is a word. -/
theorem exists_lang_of_matchDomain {cs : List Char} {count : Nat}
    (h : domain.matchCount cs = some count) :
    ∃ w rest, cs = w ++ rest ∧ count = w.length ∧ domain.Lang w := by
  obtain ⟨label, later, rfl, hlabel, hrun⟩ := exists_run isLabelChar cs
  simp only [matchCount, matchDomain, hrun] at h
  split at h
  · simp at h
  · next n hn =>
    obtain ⟨rfl, hpos⟩ := positive?_eq_some.mp hn
    rw [List.drop_left] at h
    split at h
    · next rest =>
      obtain ⟨tail, last, rfl, htail, hrun'⟩ := exists_run (fun c => !isWhiteSpace c) rest
      simp only [Option.map_eq_some_iff, positive?_eq_some, hrun'] at h
      obtain ⟨m, ⟨rfl, hm⟩, rfl⟩ := h
      have hlabelNe : label ≠ [] := List.ne_nil_of_length_pos hpos
      have htailNe : tail ≠ [] := List.ne_nil_of_length_pos hm
      have htail' : ∀ c ∈ tail, isWhiteSpace c = false := by simpa using htail
      refine ⟨label ++ '.' :: tail, last, by simp, ?_,
        label, tail, hlabelNe, hlabel, htailNe, htail', rfl⟩
      simp only [List.length_append, List.length_cons]
      omega
    · simp at h

/-- What is found of a URL is a word. -/
theorem exists_lang_of_matchUrl {cs : List Char} {count : Nat}
    (h : url.matchCount cs = some count) :
    ∃ w rest, cs = w ++ rest ∧ count = w.length ∧ url.Lang w := by
  simp only [matchCount, matchUrl] at h
  split at h
  · simp at h
  · next scheme hs =>
    have hmem := List.mem_of_find?_eq_some hs
    have hpre := List.find?_some hs
    obtain ⟨later, rfl⟩ := List.isPrefixOf_iff_prefix.mp hpre
    rw [List.drop_left, Option.map_eq_some_iff] at h
    obtain ⟨host, hhost, rfl⟩ := h
    unfold matchHost at hhost
    split at hhost
    · next first any rest =>
      obtain ⟨tail, last, rfl, htail, hrun⟩ := exists_run (fun c => !isWhiteSpace c) rest
      split at hhost
      · next hfirst =>
        rw [hrun] at hhost
        have hcount := Option.some.inj hhost
        have htail' : ∀ c ∈ tail, isWhiteSpace c = false := by simpa using htail
        refine ⟨scheme ++ first :: any :: tail, last, by simp, ?_,
          scheme, hmem, first, any, tail, hfirst, htail', rfl⟩
        simp only [List.length_append, List.length_cons]
        omega
      · simp at hhost
    · simp at hhost

/-- What the matcher finds is a word. -/
theorem exists_lang_of_matchCount {pattern : Pattern} {cs : List Char} {count : Nat}
    (h : pattern.matchCount cs = some count) :
    ∃ w rest, cs = w ++ rest ∧ count = w.length ∧ pattern.Lang w := by
  cases pattern with
  | compoundKey =>
    simp only [matchCount] at h
    unfold matchCompoundKey at h
    split at h
    · next m k rest =>
      split at h
      · next hc =>
        rw [Bool.and_eq_true] at hc
        exact ⟨['<', m, '-', k, '>'], rest, rfl, (Option.some.inj h).symm, m, k, hc.1, hc.2, rfl⟩
      · simp at h
    · simp at h
  | domain => exact exists_lang_of_matchDomain h
  | url => exact exists_lang_of_matchUrl h
  | number =>
    obtain ⟨w, rest, rfl, hw, hrun⟩ := exists_run Char.isDigit cs
    simp only [matchCount, hrun, positive?_eq_some] at h
    exact ⟨w, rest, rfl, h.1.symm, List.ne_nil_of_length_pos (h.1 ▸ h.2), hw⟩
  | identifier =>
    obtain ⟨w, rest, rfl, hw, hrun⟩ := exists_run isNameChar cs
    simp only [matchCount, hrun, positive?_eq_some] at h
    exact ⟨w, rest, rfl, h.1.symm, List.ne_nil_of_length_pos (h.1 ▸ h.2), hw⟩
  | singleKey =>
    cases cs with
    | nil => simp [matchCount] at h
    | cons k rest =>
      simp only [matchCount, List.head?_cons, Option.filter_some, Option.map_eq_some_iff] at h
      obtain ⟨a, ha, rfl⟩ := h
      split at ha
      · next hk => exact ⟨[k], rest, rfl, rfl, k, hk, rfl⟩
      · simp at ha

/-- A domain is read to the end of the run behind its dot. -/
theorem matchCount_domain {label tail : List Char} (hne : label ≠ [])
    (hlabel : ∀ c ∈ label, isLabelChar c = true) (htne : tail ≠ [])
    (htail : ∀ c ∈ tail, (!isWhiteSpace c) = true) (rest : List Char) :
    domain.matchCount (label ++ '.' :: (tail ++ rest)) =
      some (label.length + 1 + runLength (fun c => !isWhiteSpace c) (tail ++ rest)) := by
  have hdot : ∀ c ∈ ('.' :: (tail ++ rest)).head?, isLabelChar c = false := by
    intro c hc
    cases hc
    decide
  have hrun := runLength_append hlabel hdot
  have hlen := length_le_runLength htail rest
  have hlabelPos := List.length_pos_iff.mpr hne
  have htailPos := List.length_pos_iff.mpr htne
  have hpos := positive?_eq_some.mpr ⟨hrun, hlabelPos⟩
  have hpos' := positive?_eq_some.mpr ⟨rfl, Nat.lt_of_lt_of_le htailPos hlen⟩
  simp only [matchCount, matchDomain, hpos, List.drop_left, hpos', Option.map_some]

/-- A URL is read to the end of the run behind the second character of its host. -/
theorem matchCount_url {scheme : List Char} (hmem : scheme ∈ schemes) {first : Char}
    (hfirst : isHostStart first = true) (any : Char) (rest : List Char) :
    url.matchCount (scheme ++ first :: any :: rest) =
      some (scheme.length + (2 + runLength (fun c => !isWhiteSpace c) rest)) := by
  simp only [matchCount, matchUrl, find?_schemes hmem, List.drop_left, matchHost, if_pos hfirst,
    Option.map_some]

/-- Where a text starts with a word, the matcher finds one at least as long. -/
theorem exists_matchCount {pattern : Pattern} {w : List Char} (h : pattern.Lang w)
    (rest : List Char) :
    ∃ count, pattern.matchCount (w ++ rest) = some count ∧ w.length ≤ count := by
  cases pattern with
  | compoundKey =>
    obtain ⟨m, k, hm, hk, rfl⟩ := h
    exact ⟨5, by simp [matchCount, matchCompoundKey, hm, hk], Nat.le_refl 5⟩
  | domain =>
    obtain ⟨label, tail, hne, hlabel, htne, htail, rfl⟩ := h
    have htail' : ∀ c ∈ tail, (!isWhiteSpace c) = true := by simpa using htail
    have hlen := length_le_runLength htail' rest
    rw [List.append_assoc, List.cons_append]
    refine ⟨_, matchCount_domain hne hlabel htne htail' rest, ?_⟩
    simp only [List.length_append, List.length_cons]
    omega
  | url =>
    obtain ⟨scheme, hmem, first, any, tail, hfirst, htail, rfl⟩ := h
    have hlen := length_le_runLength (p := fun c => !isWhiteSpace c) (by simpa using htail) rest
    rw [List.append_assoc, List.cons_append, List.cons_append]
    refine ⟨_, matchCount_url hmem hfirst any (tail ++ rest), ?_⟩
    simp only [List.length_append, List.length_cons]
    omega
  | number =>
    have hlen := length_le_runLength h.2 rest
    have hpos := List.length_pos_iff.mpr h.1
    exact ⟨_, positive?_eq_some.mpr ⟨rfl, by omega⟩, hlen⟩
  | identifier =>
    have hlen := length_le_runLength h.2 rest
    have hpos := List.length_pos_iff.mpr h.1
    exact ⟨_, positive?_eq_some.mpr ⟨rfl, by omega⟩, hlen⟩
  | singleKey =>
    obtain ⟨k, hk, rfl⟩ := h
    exact ⟨1, by simp [matchCount, Option.filter, hk], Nat.le_refl 1⟩

/-- The matcher finds the longest word that a text starts with. -/
theorem matchCount_append {pattern : Pattern} {w rest : List Char} :
    pattern.matchCount (w ++ rest) = some w.length ↔ pattern.Longest (w ++ rest) w := by
  constructor
  · intro h
    obtain ⟨u, later, he, hu, hlang⟩ := exists_lang_of_matchCount h
    obtain ⟨rfl, -⟩ := List.append_inj he hu
    refine ⟨hlang, List.prefix_append _ _, ?_⟩
    rintro v hv ⟨tail, ht⟩
    obtain ⟨count, hcount, hle⟩ := exists_matchCount hv tail
    rw [ht, h] at hcount
    have := Option.some.inj hcount
    omega
  · rintro ⟨hlang, -, hmax⟩
    obtain ⟨count, hcount, hle⟩ := exists_matchCount hlang rest
    obtain ⟨u, later, he, rfl, hu⟩ := exists_lang_of_matchCount hcount
    have hlt := hmax u hu ⟨later, he.symm⟩
    rw [hcount]
    exact congrArg some (by omega)

/-- A word that ends at a blank or with the text is the longest there. -/
theorem longest_of_fieldEnd {pattern : Pattern} {w rest : List Char} (h : pattern.Lang w)
    (hend : FieldEnd rest) : pattern.Longest (w ++ rest) w := by
  have hvisible := hend.not_continued fun c hc => isBlank_of_not_isWhiteSpace hc
  rw [← matchCount_append]
  cases pattern with
  | compoundKey =>
    obtain ⟨m, k, hm, hk, rfl⟩ := h
    simp [matchCount, matchCompoundKey, hm, hk]
  | domain =>
    obtain ⟨label, tail, hne, hlabel, htne, htail, rfl⟩ := h
    have htail' : ∀ c ∈ tail, (!isWhiteSpace c) = true := by simpa using htail
    rw [List.append_assoc, List.cons_append, matchCount_domain hne hlabel htne htail' rest,
      runLength_append htail' hvisible, List.length_append, List.length_cons]
    exact congrArg some (by omega)
  | url =>
    obtain ⟨scheme, hmem, first, any, tail, hfirst, htail, rfl⟩ := h
    have htail' : ∀ c ∈ tail, (!isWhiteSpace c) = true := by simpa using htail
    rw [List.append_assoc, List.cons_append, List.cons_append, matchCount_url hmem hfirst,
      runLength_append htail' hvisible, List.length_append, List.length_cons, List.length_cons]
    exact congrArg some (by omega)
  | number =>
    have hdigit := hend.not_continued fun c (hc : c.isDigit = true) =>
      isBlank_of_isWordChar (isWordChar_of_isLabelChar (isLabelChar_of_isDigit hc))
    exact positive?_eq_some.mpr ⟨runLength_append h.2 hdigit, List.length_pos_iff.mpr h.1⟩
  | identifier =>
    have hname := hend.not_continued fun c (hc : isNameChar c = true) =>
      isBlank_of_isWordChar (isWordChar_of_isNameChar hc)
    exact positive?_eq_some.mpr ⟨runLength_append h.2 hname, List.length_pos_iff.mpr h.1⟩
  | singleKey =>
    obtain ⟨k, hk, rfl⟩ := h
    simp [matchCount, Option.filter, hk]

/-- No character of a word is a blank, but for one in the host of a URL. -/
theorem isBlank_of_mem_lang {pattern : Pattern} {w : List Char} (h : pattern.Lang w)
    (hurl : pattern ≠ url) : ∀ c ∈ w, isBlank c = false := by
  have hletter : ∀ c, isLetter c = true → isBlank c = false := fun c hc =>
    isBlank_of_isWordChar (isWordChar_of_isLabelChar (isLabelChar_of_isLetter hc))
  cases pattern with
  | compoundKey =>
    obtain ⟨m, k, hm, hk, rfl⟩ := h
    have hm' : isBlank m = false := by
      simp only [isModifier, List.contains_iff_mem, List.mem_cons, List.not_mem_nil,
        or_false] at hm
      rcases hm with rfl | rfl | rfl | rfl | rfl | rfl <;> rfl
    intro c hc
    simp only [List.mem_cons, List.not_mem_nil, or_false] at hc
    rcases hc with rfl | rfl | rfl | rfl | rfl
    · decide
    · exact hm'
    · decide
    · exact hletter c hk
    · decide
  | domain =>
    obtain ⟨label, tail, -, hlabel, -, htail, rfl⟩ := h
    intro c hc
    rcases List.mem_append.mp hc with hc | hc
    · exact isBlank_of_isWordChar (isWordChar_of_isLabelChar (hlabel c hc))
    · rcases List.mem_cons.mp hc with rfl | hc
      · decide
      · exact isBlank_of_not_isWhiteSpace (by rw [htail c hc]; rfl)
  | url => exact absurd rfl hurl
  | number =>
    exact fun c hc => isBlank_of_isWordChar (isWordChar_of_isLabelChar
      (isLabelChar_of_isDigit (h.2 c hc)))
  | identifier => exact fun c hc => isBlank_of_isWordChar (isWordChar_of_isNameChar (h.2 c hc))
  | singleKey =>
    obtain ⟨k, hk, rfl⟩ := h
    simpa using hletter k hk

/-- A word is not empty and starts with no blank. -/
theorem visible_of_lang {pattern : Pattern} {w : List Char} (h : pattern.Lang w) :
    Visible w := by
  by_cases hurl : pattern = url
  · subst hurl
    obtain ⟨scheme, hmem, first, any, tail, -, -, rfl⟩ := h
    simp only [schemes, List.mem_cons, List.not_mem_nil, or_false] at hmem
    rcases hmem with rfl | rfl | rfl <;> exact ⟨_, _, rfl, by decide⟩
  · have hblank := isBlank_of_mem_lang h hurl
    cases w with
    | nil => cases pattern <;> simp [Lang] at h
    | cons c tail => exact ⟨c, tail, rfl, hblank c List.mem_cons_self⟩

/-- A text without blanks ends by the end of a field. -/
theorem isPrefix_of_fieldEnd {v tail w rest : List Char} (he : v ++ tail = w ++ rest)
    (hv : ∀ c ∈ v, isBlank c = false) (hend : FieldEnd rest) : v <+: w := by
  rcases List.append_eq_append_iff.mp he with ⟨later, rfl, -⟩ | ⟨later, rfl, rfl⟩
  · exact List.prefix_append _ _
  · cases later with
    | nil => simp
    | cons c later =>
      have hc := hv c (by simp)
      rw [List.cons_append, fieldEnd_cons, hc] at hend
      exact Bool.noConfusion hend

/-- No word of a pattern reaches past a field of word characters. -/
theorem length_le_of_lang {pattern : Pattern} {v tail w rest : List Char} (h : pattern.Lang v)
    (he : v ++ tail = w ++ rest) (hw : ∀ c ∈ w, isWordChar c = true) (hend : FieldEnd rest) :
    v <+: w := by
  by_cases hurl : pattern = url
  · subst hurl
    obtain ⟨scheme, hmem, first, any, later, -, -, rfl⟩ := h
    rw [List.append_assoc] at he
    have hscheme : scheme.all (fun c => !isBlank c) = true ∧ ':' ∈ scheme := by
      simp only [schemes, List.mem_cons, List.not_mem_nil, or_false] at hmem
      rcases hmem with rfl | rfl | rfl <;> decide
    have hblank : ∀ c ∈ scheme, isBlank c = false := by
      intro c hc
      simpa using List.all_eq_true.mp hscheme.1 c hc
    have hpre := isPrefix_of_fieldEnd he hblank hend
    exact absurd (hw ':' (hpre.subset hscheme.2)) (by decide)
  · exact isPrefix_of_fieldEnd he (isBlank_of_mem_lang h hurl) hend

/-- The best of some candidates is one of them. -/
theorem mem_of_foldl_better {found : Pattern × Nat} {candidates : List (Pattern × Nat)}
    {best : Option (Pattern × Nat)} (h : candidates.foldl better best = some found) :
    found ∈ candidates ∨ best = some found := by
  induction candidates generalizing best with
  | nil => exact .inr h
  | cons next later ih =>
    rcases ih h with hmem | hbest
    · exact .inl (List.mem_cons_of_mem _ hmem)
    · unfold better at hbest
      split at hbest
      · split at hbest
        · exact .inr hbest
        · exact .inl (Option.some.inj hbest ▸ List.mem_cons_self)
      · exact .inl (Option.some.inj hbest ▸ List.mem_cons_self)

/-- Only of no candidates there is no best. -/
theorem foldl_better_eq_none {candidates : List (Pattern × Nat)} {best : Option (Pattern × Nat)} :
    candidates.foldl better best = none ↔ candidates = [] ∧ best = none := by
  induction candidates generalizing best with
  | nil => simp
  | cons next later ih =>
    rw [List.foldl_cons, ih]
    unfold better
    split
    · split <;> simp
    · simp

/-- A match of one of the allowed patterns is found. -/
theorem matchCount_of_longest {allowed : List Pattern} {cs : List Char} {pattern : Pattern}
    {count : Nat} (h : longest allowed cs = some (pattern, count)) :
    pattern ∈ allowed ∧ pattern.matchCount cs = some count := by
  rcases mem_of_foldl_better h with hmem | hbest
  · simp only [List.mem_filterMap, List.mem_filter, Option.map_eq_some_iff, Prod.mk.injEq] at hmem
    obtain ⟨p, ⟨-, hp⟩, n, hn, rfl, rfl⟩ := hmem
    exact ⟨by simpa using hp, hn⟩
  · simp at hbest

/-- A match is found when no other allowed pattern matches. -/
theorem longest_of_only {allowed : List Pattern} {cs : List Char} {pattern : Pattern}
    {count : Nat} (hmem : pattern ∈ allowed) (hcount : pattern.matchCount cs = some count)
    (honly : ∀ other ∈ allowed, other ≠ pattern → other.matchCount cs = none) :
    longest allowed cs = some (pattern, count) := by
  cases hfound : longest allowed cs with
  | none =>
    have hnil := (foldl_better_eq_none.mp hfound).1
    have hpriority : pattern ∈ priority := by cases pattern <;> decide
    have hin : (pattern, count) ∈ ((priority.filter allowed.contains).filterMap fun pattern =>
        (pattern.matchCount cs).map fun count => (pattern, count)) := by
      simp only [List.mem_filterMap, List.mem_filter]
      exact ⟨pattern, ⟨hpriority, by simpa using hmem⟩, by simp [hcount]⟩
    rw [hnil] at hin
    simp at hin
  | some found =>
    obtain ⟨other, n⟩ := found
    obtain ⟨hallowed, hn⟩ := matchCount_of_longest hfound
    by_cases heq : other = pattern
    · subst heq
      rw [hcount] at hn
      rw [Option.some.inj hn]
    · rw [honly other hallowed heq] at hn
      exact absurd hn (by simp)

end Pattern

end RcScript
