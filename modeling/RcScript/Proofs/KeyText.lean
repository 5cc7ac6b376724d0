import RcScript.Proofs.PartField
import RcScript.Proofs.PatternForm

/-!
# The texts of keys

A key is read twice. The patterns find where its text ends, and the text that they found is then
read as a key, byte by byte. Here both are shown to know the same texts: one is read as a key
exactly when a pattern of keys matches it from end to end, and what is read is printed as the same
text again. Keys can be built from any characters. Those of an ASCII letter and a known modifier
are read back from what they are printed as; from the text of any other key nothing is read.
-/

namespace RcScript

open Text

namespace Key

/-- Whether a character is one of `A` to `Z` and `a` to `z`. -/
def IsAsciiLetter (c : Char) : Prop := ('A' ≤ c ∧ c ≤ 'Z') ∨ ('a' ≤ c ∧ c ≤ 'z')

/-- A key of an ASCII letter, of which the modifier, if it has one, is one of `AaCcMm`. -/
def Writable : Key → Prop
  | single key => IsAsciiLetter key
  | compound modifier key => modifier ∈ "AaCcMm".toList ∧ IsAsciiLetter key

/-- The key that a list of bytes is the notation of. Every byte is taken for the character of its
number, so that a character of several bytes is taken for several others. -/
def ofBytes? : List UInt8 → Option Key
  | [key] => if isLetter (Char.ofUInt8 key) then some (single (Char.ofUInt8 key)) else none
  | [opening, modifier, hyphen, key, closing] =>
    if Char.ofUInt8 opening = '<' ∧ isModifier (Char.ofUInt8 modifier) ∧
        Char.ofUInt8 hyphen = '-' ∧ isLetter (Char.ofUInt8 key) ∧ Char.ofUInt8 closing = '>' then
      some (compound (Char.ofUInt8 modifier) (Char.ofUInt8 key))
    else none
  | _ => none

variable {key : Key}

/-- The keys of ASCII letters and known modifiers are those that a clause can have. -/
theorem writable_iff : key.Writable ↔ key.Valid := by
  cases key with
  | single key => exact isLetter_iff.symm
  | compound modifier key => exact and_congr List.contains_iff_mem.symm isLetter_iff.symm

/-- The texts of the valid keys are the words of the patterns of keys. -/
theorem exists_toText_iff {cs : List Char} :
    (∃ key : Key, cs = key.toText.toList ∧ key.Valid) ↔
      Pattern.compoundKey.Lang cs ∨ Pattern.singleKey.Lang cs := by
  constructor
  · rintro ⟨key, rfl, hvalid⟩
    cases key with
    | single => exact .inr (lang_toText.mpr hvalid)
    | compound => exact .inl (lang_toText.mpr hvalid)
  · rintro (hlang | hlang)
    · exact exists_of_lang (by decide) hlang
    · exact exists_of_lang (by decide) hlang

/-- A valid key has an ASCII text. -/
theorem isAscii_toText (h : key.Valid) : ∀ c ∈ key.toText.toList, IsAscii c := by
  cases key with
  | single key =>
    simp only [toText, String.toList_ofList, List.mem_singleton]
    rintro c rfl
    exact Pattern.isAscii_of_isLetter h
  | compound modifier key =>
    simp only [toText, String.toList_ofList, List.mem_cons, List.not_mem_nil, or_false]
    rintro c (rfl | rfl | rfl | rfl | rfl)
    · decide
    · exact Pattern.isAscii_of_isModifier h.1
    · decide
    · exact Pattern.isAscii_of_isLetter h.2
    · decide

/-- A key is read from the bytes that are the numbers of the characters it is written with. -/
theorem ofBytes?_eq_some_iff {bytes : List UInt8} :
    ofBytes? bytes = some key ↔ bytes.map Char.ofUInt8 = key.toText.toList ∧ key.Valid := by
  constructor
  · intro h
    unfold ofBytes? at h
    split at h
    · split at h
      · next hletter =>
        obtain rfl := Option.some.inj h
        exact ⟨String.toList_ofList.symm, hletter⟩
      · simp at h
    · split at h
      · next hform =>
        obtain ⟨hopening, hmodifier, hhyphen, hletter, hclosing⟩ := hform
        obtain rfl := Option.some.inj h
        exact ⟨by simp [toText, hopening, hhyphen, hclosing], hmodifier, hletter⟩
      · simp at h
    · simp at h
  · rintro ⟨hbytes, hvalid⟩
    cases key with
    | single key =>
      simp only [toText, String.toList_ofList, List.map_eq_cons_iff, List.map_eq_nil_iff] at hbytes
      obtain ⟨_, _, rfl, rfl, rfl⟩ := hbytes
      exact if_pos hvalid
    | compound modifier key =>
      simp only [toText, String.toList_ofList, List.map_eq_cons_iff, List.map_eq_nil_iff] at hbytes
      obtain ⟨_, _, rfl, hopening, _, _, rfl, rfl, _, _, rfl, hhyphen, _, _, rfl, rfl,
        _, _, rfl, hclosing, rfl⟩ := hbytes
      exact if_pos ⟨hopening, hvalid.1, hhyphen, hvalid.2, hclosing⟩

/-- The bytes of a text are read as the key that its characters are read as. -/
theorem ofBytes?_utf8Bytes (cs : List Char) : ofBytes? (utf8Bytes cs) = ofChars? cs := by
  ext key
  rw [ofBytes?_eq_some_iff, Grammar.ofChars?_key]
  exact and_congr_left fun hvalid => map_utf8Bytes_eq_iff (isAscii_toText hvalid)

/-- From the text of a key no other key is read. -/
theorem ofText?_toText_eq_some_iff {other : Key} :
    ofText? key.toText = some other ↔ other = key ∧ key.Writable := by
  rw [Grammar.ofText?_key, toText_inj, writable_iff]
  constructor
  · rintro ⟨rfl, hvalid⟩
    exact ⟨rfl, hvalid⟩
  · rintro ⟨rfl, hvalid⟩
    exact ⟨rfl, hvalid⟩

/-- A text is read as a key, by its bytes as by its characters, exactly when a pattern of keys
matches all of it. The key that is read is the one that is printed as the text. A key is read back
from what it is printed as when it is writable, and nothing is read there when it is not. -/
theorem reads_written (text : String) (key : Key) :
    ofBytes? (utf8Bytes text.toList) = ofText? text ∧
      ((ofText? text).isSome = true ↔
        Pattern.compoundKey.matchLength text = some text.utf8ByteSize ∨
          Pattern.singleKey.matchLength text = some text.utf8ByteSize) ∧
      (ofText? text = some key ↔ key.toText = text ∧ key.Writable) ∧
      (ofText? key.toText = some key ↔ key.Writable) ∧
      (ofText? key.toText = none ↔ ¬ key.Writable) := by
  refine ⟨ofBytes?_utf8Bytes text.toList, ?_, ?_, ?_, ?_⟩
  · rw [Option.isSome_iff_exists, Pattern.matchLength_eq_size, Pattern.matchLength_eq_size,
      ← exists_toText_iff]
    simp only [ofText?, Grammar.ofChars?_key]
  · rw [Grammar.ofText?_key, writable_iff, eq_comm]
  · rw [ofText?_toText_eq_some_iff]
    exact and_iff_right rfl
  · simp only [Option.eq_none_iff_forall_ne_some, ne_eq, ofText?_toText_eq_some_iff, not_and,
      forall_eq]

/-- A letter of another alphabet has two bytes, neither of which is read as a letter. -/
example : ofBytes? (utf8Bytes (single 'é').toText.toList) = none := by decide

end Key

end RcScript
