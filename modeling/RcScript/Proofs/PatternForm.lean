import Mathlib.Computability.Language
import Mathlib.Order.Bounds.Basic
import RcScript.Proofs.CheckedRecogniser

/-!
# The regular forms of the token patterns

Every pattern is a regular form over classes of characters. The form is written here with
the operations on languages alone, so that it has words which overlap and can be taken apart
in several ways. The matcher takes each of its runs as far as it goes and the first scheme
that fits, and never goes back. It finds the longest word of the form that a text starts
with all the same, measured in bytes, and nothing only where the text starts with none.
-/

namespace RcScript

open Text
open scoped Computability

/-- The words of one character of a class. -/
def oneChar (p : Char → Prop) : Language Char := {w | ∃ c, p c ∧ w = [c]}

/-- The one word that is the given text. -/
def exactly (text : String) : Language Char := {text.toList}

/-- One word of a language or several, one behind the other. -/
def oneOrMore (l : Language Char) : Language Char := l * l∗

/-- `[A-Za-z]` -/
def letterForm : Language Char :=
  oneChar (fun c => 'A' ≤ c ∧ c ≤ 'Z') + oneChar (fun c => 'a' ≤ c ∧ c ≤ 'z')

/-- `[0-9]` -/
def digitForm : Language Char := oneChar fun c => '0' ≤ c ∧ c ≤ '9'

/-- `\S` -/
def visibleForm : Language Char := oneChar fun c => isWhiteSpace c = false

/-- `[^\s/$.?#]` -/
def hostForm : Language Char := oneChar fun c => isWhiteSpace c = false ∧ c ∉ "/$.?#".toList

/-- `https?|ftp` -/
def schemeForm : Language Char := exactly "http" * (1 + exactly "s") + exactly "ftp"

/-- The form of a fixed text has that text and no other. -/
theorem mem_exactly {text : String} {w : List Char} : w ∈ exactly text ↔ w = text.toList := Iff.rfl

/-- The form of one character has the texts of one such character. -/
theorem mem_oneChar {p : Char → Prop} {w : List Char} : w ∈ oneChar p ↔ ∃ c, p c ∧ w = [c] :=
  Iff.rfl

/-- Two classes together are one class. -/
theorem oneChar_add (p q : Char → Prop) :
    oneChar p + oneChar q = oneChar fun c => p c ∨ q c := by
  ext w
  rw [Language.mem_add]
  constructor
  · rintro (⟨c, hc, rfl⟩ | ⟨c, hc, rfl⟩)
    · exact ⟨c, .inl hc, rfl⟩
    · exact ⟨c, .inr hc, rfl⟩
  · rintro ⟨c, hc | hc, rfl⟩
    · exact .inl ⟨c, hc, rfl⟩
    · exact .inr ⟨c, hc, rfl⟩

/-- A class repeated is a run. -/
theorem mem_kstar_oneChar {p : Char → Prop} {w : List Char} :
    w ∈ (oneChar p)∗ ↔ ∀ c ∈ w, p c := by
  rw [Language.mem_kstar]
  constructor
  · rintro ⟨pieces, rfl, hpieces⟩ c hc
    obtain ⟨piece, hpiece, hc⟩ := List.mem_flatten.mp hc
    obtain ⟨d, hd, rfl⟩ := hpieces piece hpiece
    exact List.mem_singleton.mp hc ▸ hd
  · intro hw
    refine ⟨w.map fun c => [c], ?_, ?_⟩
    · rw [← List.flatMap_def, List.flatMap_singleton']
    · intro piece hpiece
      obtain ⟨c, hc, rfl⟩ := List.mem_map.mp hpiece
      exact ⟨c, hw c hc, rfl⟩

/-- A class taken once or more often is a run that is not empty. -/
theorem mem_oneOrMore_oneChar {p : Char → Prop} {w : List Char} :
    w ∈ oneOrMore (oneChar p) ↔ w ≠ [] ∧ ∀ c ∈ w, p c := by
  rw [oneOrMore, Language.mem_mul]
  constructor
  · rintro ⟨first, ⟨c, hc, rfl⟩, later, hlater, rfl⟩
    refine ⟨List.cons_ne_nil _ _, ?_⟩
    intro d hd
    rcases List.mem_cons.mp hd with rfl | hd
    · exact hc
    · exact mem_kstar_oneChar.mp hlater d hd
  · rintro ⟨hne, hw⟩
    obtain ⟨c, later, rfl⟩ := List.exists_cons_of_ne_nil hne
    refine ⟨[c], ⟨c, hw c List.mem_cons_self, rfl⟩, later, ?_, rfl⟩
    exact mem_kstar_oneChar.mpr fun d hd => hw d (List.mem_cons_of_mem _ hd)

/-- Letters are those of the two ranges. -/
theorem isLetter_iff {c : Char} :
    isLetter c = true ↔ ('A' ≤ c ∧ c ≤ 'Z') ∨ ('a' ≤ c ∧ c ≤ 'z') :=
  isLetter_iff_toNat

/-- Digits are those of one range. -/
theorem isDigit_iff {c : Char} : c.isDigit = true ↔ '0' ≤ c ∧ c ≤ '9' :=
  isDigit_iff_toNat

/-- The form of a letter takes the characters that `isLetter` takes. -/
theorem letterForm_eq : letterForm = oneChar fun c => isLetter c = true := by
  simp only [letterForm, oneChar_add, isLetter_iff]

/-- The form of a digit takes the characters that `Char.isDigit` takes. -/
theorem digitForm_eq : digitForm = oneChar fun c => c.isDigit = true := by
  simp only [digitForm, isDigit_iff]

/-- A word behind a fixed text. -/
theorem mem_exactly_mul {text : String} {l : Language Char} {w : List Char} :
    w ∈ exactly text * l ↔ ∃ later ∈ l, w = text.toList ++ later := by
  rw [Language.mem_mul]
  constructor
  · rintro ⟨first, rfl, later, hlater, rfl⟩
    exact ⟨later, hlater, rfl⟩
  · rintro ⟨later, hlater, rfl⟩
    exact ⟨text.toList, rfl, later, hlater, rfl⟩

/-- A word behind one character of a class. -/
theorem mem_oneChar_mul {p : Char → Prop} {l : Language Char} {w : List Char} :
    w ∈ oneChar p * l ↔ ∃ c, p c ∧ ∃ later ∈ l, w = c :: later := by
  rw [Language.mem_mul]
  constructor
  · rintro ⟨first, ⟨c, hc, rfl⟩, later, hlater, rfl⟩
    exact ⟨c, hc, later, hlater, rfl⟩
  · rintro ⟨c, hc, later, hlater, rfl⟩
    exact ⟨[c], ⟨c, hc, rfl⟩, later, hlater, rfl⟩

/-- The schemes of the form, with the mark that ends them. -/
theorem mem_schemeForm_mul {w : List Char} : w ∈ schemeForm * exactly "://" ↔ w ∈ schemes := by
  have hforms : schemeForm * exactly "://" =
      exactly "http" * exactly "://" + exactly "http" * (exactly "s" * exactly "://") +
        exactly "ftp" * exactly "://" := by
    rw [schemeForm, add_mul, mul_add, mul_one, add_mul, mul_assoc]
  simp only [hforms, Language.mem_add, mem_exactly_mul, mem_exactly, exists_eq_left]
  constructor
  · rintro ((rfl | rfl) | rfl) <;> decide
  · intro hw
    simp only [schemes, List.mem_cons, List.not_mem_nil, or_false] at hw
    rcases hw with rfl | rfl | rfl
    · exact .inl (.inr rfl)
    · exact .inl (.inl rfl)
    · exact .inr rfl

namespace Pattern

/-- The regular form of a pattern. -/
def form : Pattern → Language Char
  | compoundKey =>
    exactly "<" * (oneChar (· ∈ "AaCcMm".toList) * (exactly "-" * (letterForm * exactly ">")))
  | domain => oneOrMore (letterForm + digitForm) * (exactly "." * oneOrMore visibleForm)
  | url => schemeForm * exactly "://" * (hostForm * (oneChar (fun _ => True) * visibleForm∗))
  | number => oneOrMore digitForm
  | identifier => oneOrMore (letterForm + oneChar (· ∈ "_-".toList))
  | singleKey => letterForm

/-- The words of a pattern are those of its form. -/
theorem mem_form_iff {pattern : Pattern} {w : List Char} : w ∈ pattern.form ↔ pattern.Lang w := by
  cases pattern with
  | compoundKey =>
    simp only [form, letterForm_eq, mem_exactly_mul, mem_oneChar_mul, mem_exactly]
    constructor
    · rintro ⟨_, ⟨m, hm, _, ⟨_, ⟨k, hk, _, rfl, rfl⟩, rfl⟩, rfl⟩, rfl⟩
      exact ⟨m, k, List.contains_iff_mem.mpr hm, hk, rfl⟩
    · rintro ⟨m, k, hm, hk, rfl⟩
      exact ⟨_, ⟨m, List.contains_iff_mem.mp hm, _, ⟨_, ⟨k, hk, _, rfl, rfl⟩, rfl⟩, rfl⟩, rfl⟩
  | domain =>
    have hlabel : letterForm + digitForm = oneChar fun c => isLabelChar c = true := by
      rw [letterForm_eq, digitForm_eq, oneChar_add]
      simp only [isLabelChar, Char.isAlphanum, Bool.or_eq_true, isLetter]
    rw [form, hlabel, visibleForm, Language.mem_mul]
    simp only [mem_exactly_mul, mem_oneOrMore_oneChar]
    constructor
    · rintro ⟨label, ⟨hne, hlabel⟩, _, ⟨tail, ⟨htne, htail⟩, rfl⟩, rfl⟩
      exact ⟨label, tail, hne, hlabel, htne, htail, rfl⟩
    · rintro ⟨label, tail, hne, hlabel, htne, htail, rfl⟩
      exact ⟨label, ⟨hne, hlabel⟩, _, ⟨tail, ⟨htne, htail⟩, rfl⟩, rfl⟩
  | url =>
    have hhost : ∀ c, (isWhiteSpace c = false ∧ c ∉ "/$.?#".toList) ↔ isHostStart c = true := by
      intro c
      rw [isHostStart, Bool.and_eq_true, Bool.not_eq_true', Bool.not_eq_true',
        ← Bool.not_eq_true (List.contains _ _), List.contains_iff_mem]
      rfl
    rw [form, hostForm, visibleForm, Language.mem_mul]
    simp only [mem_schemeForm_mul, mem_oneChar_mul, mem_kstar_oneChar, hhost]
    constructor
    · rintro ⟨scheme, hscheme, _, ⟨first, hfirst, _, ⟨any, -, tail, htail, rfl⟩, rfl⟩, rfl⟩
      exact ⟨scheme, hscheme, first, any, tail, hfirst, htail, rfl⟩
    · rintro ⟨scheme, hscheme, first, any, tail, hfirst, htail, rfl⟩
      exact ⟨scheme, hscheme, _, ⟨first, hfirst, _, ⟨any, trivial, tail, htail, rfl⟩, rfl⟩, rfl⟩
  | number => rw [form, digitForm_eq, mem_oneOrMore_oneChar, Lang]
  | identifier =>
    have hname : letterForm + oneChar (· ∈ "_-".toList) = oneChar fun c => isNameChar c = true := by
      rw [letterForm_eq, oneChar_add]
      simp [isNameChar, or_assoc]
    rw [form, hname, mem_oneOrMore_oneChar, Lang]
  | singleKey => rw [form, letterForm_eq, mem_oneChar, Lang]

/-- A pattern matches all of a text exactly when the text is one of its words. -/
theorem matchCount_eq_length {pattern : Pattern} {cs : List Char} :
    pattern.matchCount cs = some cs.length ↔ pattern.Lang cs := by
  have hlongest : pattern.matchCount (cs ++ []) = some cs.length ↔ pattern.Longest (cs ++ []) cs :=
    matchCount_append
  rw [List.append_nil] at hlongest
  rw [hlongest]
  constructor
  · intro h
    exact h.1
  · intro h
    exact ⟨h, List.prefix_refl cs, fun v _ hv => hv.length_le⟩

/-- The same of a match that is measured in bytes, since characters behind the match would have
bytes that it leaves out. -/
theorem matchLength_eq_size {pattern : Pattern} {text : String} :
    pattern.matchLength text = some text.utf8ByteSize ↔ pattern.Lang text.toList := by
  rw [← matchCount_eq_length, ← utf8Length_toList, matchLength, Option.map_eq_some_iff]
  constructor
  · rintro ⟨count, hcount, hsize⟩
    have hall : utf8Length (text.toList.take text.toList.length) ≤
        utf8Length (text.toList.take count) := by
      rw [List.take_length, hsize]
    have hle := (utf8Length_take_le_iff (Nat.le_refl _)).mp hall
    rw [hcount, Nat.le_antisymm (matchCount_le_length hcount) hle]
  · intro hcount
    exact ⟨_, hcount, by rw [List.take_length]⟩

/-- Of two first parts of a text the longer one measures more. -/
theorem utf8Length_le_iff_of_starts {cs v w : List Char} (hv : v <+: cs) (hw : w <+: cs) :
    utf8Length v ≤ utf8Length w ↔ v.length ≤ w.length := by
  have hle := utf8Length_take_le_iff (n := w.length) hv.length_le
  rwa [← List.prefix_iff_eq_take.mp hv, ← List.prefix_iff_eq_take.mp hw] at hle

/-- The lengths in bytes of the words of a pattern that a text starts with. -/
def lengths (pattern : Pattern) (text : String) : Set Nat :=
  {n | ∃ w ∈ pattern.form, w <+: text.toList ∧ utf8Length w = n}

/-- What the matcher finds is the greatest length. -/
theorem isGreatest_of_matchLength {pattern : Pattern} {text : String} {n : Nat}
    (h : pattern.matchLength text = some n) : IsGreatest (pattern.lengths text) n := by
  obtain ⟨count, hcount, rfl⟩ := Option.map_eq_some_iff.mp h
  obtain ⟨w, rest, htext, rfl, -⟩ := exists_lang_of_matchCount hcount
  rw [htext] at hcount
  obtain ⟨hlang, hpre, hmax⟩ := matchCount_append.mp hcount
  rw [← htext] at hpre hmax
  rw [← List.prefix_iff_eq_take.mp hpre]
  constructor
  · exact ⟨w, mem_form_iff.mpr hlang, hpre, rfl⟩
  · rintro _ ⟨v, hv, hprefix, rfl⟩
    exact (utf8Length_le_iff_of_starts hprefix hpre).mpr (hmax v (mem_form_iff.mp hv) hprefix)

/-- The matcher finds nothing where a text starts with no word. -/
theorem matchLength_eq_none {pattern : Pattern} {text : String} :
    pattern.matchLength text = none ↔ ∀ w ∈ pattern.form, ¬ w <+: text.toList := by
  rw [matchLength, Option.map_eq_none_iff]
  constructor
  · rintro hnone w hw ⟨rest, hrest⟩
    obtain ⟨count, hcount, -⟩ := exists_matchCount (mem_form_iff.mp hw) rest
    rw [hrest, hnone] at hcount
    exact absurd hcount (by simp)
  · intro hno
    cases hcount : pattern.matchCount text.toList with
    | none => rfl
    | some count =>
      obtain ⟨w, rest, htext, -, hlang⟩ := exists_lang_of_matchCount hcount
      exact absurd ⟨rest, htext.symm⟩ (hno w (mem_form_iff.mpr hlang))

/-- The matcher finds the longest word of the form of a pattern that a text starts with, measured
in bytes, and finds nothing only where there is none. -/
theorem matchLength_isGreatest (pattern : Pattern) (text : String) :
    (∀ n, pattern.matchLength text = some n ↔ IsGreatest (pattern.lengths text) n) ∧
      (pattern.matchLength text = none ↔ ∀ w ∈ pattern.form, ¬ w <+: text.toList) := by
  refine ⟨fun n => ⟨isGreatest_of_matchLength, fun hgreatest => ?_⟩, matchLength_eq_none⟩
  obtain ⟨w, hw, hpre, -⟩ := hgreatest.1
  cases hfound : pattern.matchLength text with
  | none => exact absurd hpre (matchLength_eq_none.mp hfound w hw)
  | some m => rw [(isGreatest_of_matchLength hfound).unique hgreatest]

/-- The second character of a host may be a blank, which no other part of a URL may be. -/
example : url.matchLength "http://a b c" = some 10 := by decide

end Pattern

end RcScript
