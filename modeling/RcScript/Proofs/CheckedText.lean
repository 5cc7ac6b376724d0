import RcScript.Token.Pattern
import RcScript.Proofs.PatternLanguage
import RcScript.Proofs.ByteCutting

/-!
# Checked access to the bytes of a text

A text is given by its UTF-8 bytes here, and every access to it can be refused: a
slice unless both of its ends lie between characters and in order, a byte out of
range, a difference below zero. A computation that makes such accesses gives a result
only if none of them is refused. Cuts at the measures of first parts are never refused,
which is all that later modules need to know.
-/

namespace RcScript

/-- The result of a computation of which no access was refused. -/
abbrev Checked (α : Type) : Type := Option α

namespace Text

/-- The bytes of the UTF-8 form of a character list. -/
def utf8Bytes (cs : List Char) : List UInt8 := cs.flatMap String.utf8EncodeChar

/-- Byte `n` of a text, which must have it. -/
def byteAt? (n : Nat) (cs : List Char) : Checked UInt8 := (utf8Bytes cs)[n]?

/-- Bytes `start` to `stop` of a text, which must be boundaries in order. -/
def slice? (start stop : Nat) (cs : List Char) : Checked (List Char) :=
  if start ≤ stop ∧ isBoundary start cs = true ∧ isBoundary stop cs = true then
    some (sliceBytes start stop cs)
  else none

/-- What a text has from byte `start` on, which must be a boundary. -/
def from? (start : Nat) (cs : List Char) : Checked (List Char) := slice? start (utf8Length cs) cs

/-- A difference, which must not be below zero. -/
def minus? (count less : Nat) : Checked Nat := if less ≤ count then some (count - less) else none

/-- Number of bytes of the longest leading run of characters that satisfy `p`. -/
def runBytes (p : Char → Bool) (cs : List Char) : Nat := utf8Length (cs.takeWhile p)

/-- Byte offset of the first `c` in a text. -/
def offsetOf? (c : Char) (cs : List Char) : Option Nat :=
  if c ∈ cs then some (runBytes (· != c) cs) else none

/-- A boundary is no further than the end of the text. -/
theorem le_of_isBoundary {n : Nat} {cs : List Char} (h : isBoundary n cs = true) :
    n ≤ utf8Length cs := by
  obtain ⟨before, after, rfl, hlength⟩ := isBoundary_iff.mp h
  rw [utf8Length_append]
  omega

/-- A slice is given only within the text and between characters. -/
theorem slice?_eq_some_iff {start stop : Nat} {cs piece : List Char} :
    slice? start stop cs = some piece ↔ start ≤ stop ∧ stop ≤ utf8Length cs ∧
      isBoundary start cs = true ∧ isBoundary stop cs = true ∧
      sliceBytes start stop cs = piece := by
  simp only [slice?, Option.ite_none_right_eq_some, Option.some.injEq]
  constructor
  · rintro ⟨⟨hle, hstart, hstop⟩, hpiece⟩
    exact ⟨hle, le_of_isBoundary hstop, hstart, hstop, hpiece⟩
  · rintro ⟨hle, -, hstart, hstop, hpiece⟩
    exact ⟨⟨hle, hstart, hstop⟩, hpiece⟩

/-- What lies between two first parts of a text can be sliced. -/
theorem slice?_append (before piece after : List Char) :
    slice? (utf8Length before) (utf8Length (before ++ piece)) (before ++ (piece ++ after)) =
      some piece := by
  have hstart : isBoundary (utf8Length before) (before ++ (piece ++ after)) = true :=
    isBoundary_iff.mpr ⟨before, piece ++ after, rfl, rfl⟩
  have hstop : isBoundary (utf8Length (before ++ piece)) (before ++ (piece ++ after)) = true :=
    isBoundary_iff.mpr ⟨before ++ piece, after, (List.append_assoc _ _ _).symm, rfl⟩
  have hle : utf8Length before ≤ utf8Length (before ++ piece) := by
    rw [utf8Length_append]
    omega
  rw [slice?, if_pos ⟨hle, hstart, hstop⟩, sliceBytes_append]

/-- A slice parts a text at its ends. -/
theorem exists_of_slice?_eq_some {start stop : Nat} {cs piece : List Char}
    (h : slice? start stop cs = some piece) :
    ∃ before after, cs = before ++ (piece ++ after) ∧ utf8Length before = start ∧
      utf8Length (before ++ piece) = stop := by
  obtain ⟨hle, -, hstart, hstop, hpiece⟩ := slice?_eq_some_iff.mp h
  obtain ⟨before, rest, hrest, rfl⟩ := isBoundary_iff.mp hstart
  obtain ⟨front, after, hafter, rfl⟩ := isBoundary_iff.mp hstop
  obtain ⟨middle, rfl, rfl⟩ := exists_middle_of_utf8Length_le (hrest.symm.trans hafter) hle
  rw [hrest, sliceBytes_append] at hpiece
  obtain rfl := hpiece
  exact ⟨before, after, hrest, rfl, rfl⟩

/-- The first characters of a text can be cut off. -/
theorem from?_take (count : Nat) (cs : List Char) :
    from? (utf8Length (cs.take count)) cs = some (cs.drop count) := by
  have hslice := slice?_append (cs.take count) (cs.drop count) []
  rwa [List.append_nil, List.take_append_drop] at hslice

/-- The first characters of a text can be sliced. -/
theorem slice?_take (count : Nat) (cs : List Char) :
    slice? 0 (utf8Length (cs.take count)) cs = some (cs.take count) := by
  have hslice := slice?_append [] (cs.take count) (cs.drop count)
  rwa [List.nil_append, List.nil_append, List.take_append_drop] at hslice

/-- Taking away what was added is not refused. -/
theorem minus?_add (count less : Nat) : minus? (less + count) less = some count := by
  rw [minus?, if_pos (Nat.le_add_right less count), Nat.add_sub_cancel_left]

/-- A run in bytes covers the characters of the run. -/
theorem runBytes_eq (p : Char → Bool) (cs : List Char) :
    runBytes p cs = utf8Length (cs.take (runLength p cs)) := by
  rw [runBytes, take_runLength]

/-- The bytes of two texts in sequence stand in sequence. -/
@[simp]
theorem utf8Bytes_append (cs ds : List Char) :
    utf8Bytes (cs ++ ds) = utf8Bytes cs ++ utf8Bytes ds := List.flatMap_append

/-- The measure of a text is the number of its bytes. -/
theorem length_utf8Bytes (cs : List Char) : (utf8Bytes cs).length = utf8Length cs := by
  induction cs with
  | nil => rfl
  | cons c cs ih =>
    have hchar := String.length_utf8EncodeChar c
    rw [utf8Length_cons, ← ih, ← hchar]
    exact List.length_append

/-- The measure of a text is its size. -/
theorem utf8Length_toList (text : String) : utf8Length text.toList = text.utf8ByteSize := by
  rw [← length_utf8Bytes, String.utf8ByteSize, ← String.utf8Encode_toList, List.utf8Encode,
    List.size_toByteArray, utf8Bytes]

/-- A byte of a slice is the byte of the text at the same distance from the start. -/
theorem exists_byteAt?_of_slice? {start stop n : Nat} {cs piece : List Char}
    (h : slice? start stop cs = some piece) (hstart : start ≤ n) (hstop : n < stop) :
    ∃ b, byteAt? n cs = some b ∧ byteAt? (n - start) piece = some b := by
  obtain ⟨before, after, rfl, rfl, rfl⟩ := exists_of_slice?_eq_some h
  rw [utf8Length_append] at hstop
  have hlt : n - utf8Length before < (utf8Bytes piece).length := by
    rw [length_utf8Bytes]
    omega
  have hbyte : byteAt? n (before ++ (piece ++ after)) = byteAt? (n - utf8Length before) piece := by
    rw [byteAt?, byteAt?, utf8Bytes_append, utf8Bytes_append,
      List.getElem?_append_right (by rwa [length_utf8Bytes]), length_utf8Bytes,
      List.getElem?_append_left hlt]
  rw [hbyte]
  exact ⟨_, List.getElem?_eq_getElem hlt, List.getElem?_eq_getElem hlt⟩

/-- The bytes of a text start with those of its first character. -/
theorem utf8Bytes_cons (c : Char) (cs : List Char) :
    utf8Bytes (c :: cs) = String.utf8EncodeChar c ++ utf8Bytes cs := rfl

/-- Bytes of this form are no ASCII characters. -/
theorem large_byte {n base : Nat} (hbase : 128 ≤ base) (h : n + base < 256) :
    128 ≤ (UInt8.ofNat (n + base)).toNat := by
  rw [UInt8.toNat_ofNat', Nat.mod_eq_of_lt (by omega)]
  omega

/-- A character of which the UTF-8 form is one byte. -/
def IsAscii (c : Char) : Prop := c.toNat < 128

instance (c : Char) : Decidable (IsAscii c) := inferInstanceAs (Decidable (c.toNat < 128))

/-- A byte that is taken for a character keeps its number. -/
theorem toNat_ofUInt8 (b : UInt8) : (Char.ofUInt8 b).toNat = b.toNat := UInt8.toNat_toUInt32 b

/-- A character of the ASCII range is one byte long. -/
theorem IsAscii.utf8Size {c : Char} (h : IsAscii c) : c.utf8Size = 1 :=
  Char.utf8Size_eq_one_iff.mpr (UInt32.le_iff_toNat_le.mpr (Nat.le_of_lt_succ h))

/-- The form of an ASCII character is the byte of its number. -/
theorem IsAscii.exists_byte {c : Char} (h : IsAscii c) :
    ∃ b, String.utf8EncodeChar c = [b] ∧ Char.ofUInt8 b = c := by
  refine ⟨_, String.utf8EncodeChar_eq_singleton h.utf8Size, Char.ext (UInt32.toNat_inj.mp ?_)⟩
  have hbyte : c.val.toUInt8.toUInt32.toNat = c.val.toNat % 256 := by
    rw [UInt8.toNat_toUInt32, UInt32.toNat_toUInt8]
  have hsmall : c.val.toNat < 128 := h
  exact hbyte.trans (Nat.mod_eq_of_lt (by omega))

/-- A character of the ASCII range is read back from its byte. -/
theorem IsAscii.utf8Bytes_cons {c : Char} (h : IsAscii c) (cs : List Char) :
    ∃ b, utf8Bytes (c :: cs) = b :: utf8Bytes cs ∧ Char.ofUInt8 b = c := by
  obtain ⟨b, hchar, hbyte⟩ := h.exists_byte
  rw [Text.utf8Bytes_cons, hchar]
  exact ⟨b, rfl, hbyte⟩

/-- All bytes of any other character are no ASCII characters, whether it has two of them, three
or four. -/
theorem large_of_not_isAscii {c : Char} (h : ¬ IsAscii c) :
    ∀ b ∈ String.utf8EncodeChar c, 128 ≤ b.toNat := by
  have hlarge : ¬ c.val.toNat ≤ 127 := fun hle => h (Nat.lt_succ_of_le hle)
  intro b hb
  simp only [String.utf8EncodeChar, if_neg hlarge] at hb
  split at hb
  · simp only [List.mem_cons, List.not_mem_nil, or_false] at hb
    rcases hb with rfl | rfl <;> exact large_byte (by omega) (by omega)
  · split at hb
    · simp only [List.mem_cons, List.not_mem_nil, or_false] at hb
      rcases hb with rfl | rfl | rfl <;> exact large_byte (by omega) (by omega)
    · simp only [List.mem_cons, List.not_mem_nil, or_false] at hb
      rcases hb with rfl | rfl | rfl | rfl <;> exact large_byte (by omega) (by omega)

/-- Where a text has the byte of an ASCII character, it has the character. -/
theorem eq_of_ofUInt8_eq {c d : Char} {b : UInt8} (hb : b ∈ String.utf8EncodeChar c)
    (hd : IsAscii d) (hbyte : Char.ofUInt8 b = d) : String.utf8EncodeChar c = [b] ∧ c = d := by
  by_cases hc : IsAscii c
  · obtain ⟨own, hchar, hown⟩ := hc.exists_byte
    rw [hchar, List.mem_singleton] at hb
    rw [hchar, hb, ← hbyte, hb, hown]
    exact ⟨rfl, rfl⟩
  · have hlarge := large_of_not_isAscii hc b hb
    have hnat := toNat_ofUInt8 b
    rw [hbyte] at hnat
    rw [IsAscii, hnat] at hd
    omega

/-- A first byte that is an ASCII character is the first character. -/
theorem exists_cons_of_utf8Bytes {cs : List Char} {b : UInt8} {bytes : List UInt8}
    (h : utf8Bytes cs = b :: bytes) {c : Char} (hc : IsAscii c) (hbyte : Char.ofUInt8 b = c) :
    ∃ later, cs = c :: later ∧ utf8Bytes later = bytes := by
  cases cs with
  | nil => simp [utf8Bytes] at h
  | cons d later =>
    rw [utf8Bytes_cons] at h
    have hlength := String.length_utf8EncodeChar d
    have hpos := d.utf8Size_pos
    cases hd : String.utf8EncodeChar d with
    | nil =>
      rw [hd, List.length_nil] at hlength
      omega
    | cons b' more =>
      rw [hd, List.cons_append, List.cons.injEq] at h
      have hmem : b ∈ String.utf8EncodeChar d := by
        rw [hd, h.1]
        exact List.mem_cons_self
      have hone := eq_of_ofUInt8_eq hmem hc hbyte
      rw [hd, List.cons.injEq] at hone
      refine ⟨later, by rw [hone.2], ?_⟩
      rw [← h.2, hone.1.2, List.nil_append]

/-- Every byte of an ASCII text is the number of its character. -/
theorem map_utf8Bytes {cs : List Char} (h : ∀ c ∈ cs, IsAscii c) :
    (utf8Bytes cs).map Char.ofUInt8 = cs := by
  induction cs with
  | nil => rfl
  | cons c cs ih =>
    obtain ⟨b, hbytes, hbyte⟩ := (h c List.mem_cons_self).utf8Bytes_cons cs
    rw [hbytes, List.map_cons, hbyte, ih fun d hd => h d (List.mem_cons_of_mem _ hd)]

/-- A text of which every byte is the number of an ASCII character is an ASCII text. -/
theorem isAscii_of_utf8Bytes {cs : List Char}
    (h : ∀ c ∈ (utf8Bytes cs).map Char.ofUInt8, IsAscii c) : ∀ c ∈ cs, IsAscii c := by
  intro c hc
  refine Decidable.byContradiction fun hlarge => ?_
  have hpos : 0 < (String.utf8EncodeChar c).length := by
    rw [String.length_utf8EncodeChar]
    exact c.utf8Size_pos
  obtain ⟨b, hb⟩ := List.exists_mem_of_length_pos hpos
  have hascii : IsAscii (Char.ofUInt8 b) :=
    h _ (List.mem_map_of_mem (List.mem_flatMap.mpr ⟨c, hc, hb⟩))
  have hle := large_of_not_isAscii hlarge b hb
  rw [IsAscii, toNat_ofUInt8] at hascii
  omega

/-- An ASCII text is the only text that its bytes, taken for characters, spell. -/
theorem map_utf8Bytes_eq_iff {cs ds : List Char} (h : ∀ c ∈ ds, IsAscii c) :
    (utf8Bytes cs).map Char.ofUInt8 = ds ↔ cs = ds := by
  constructor
  · intro hbytes
    have hascii : ∀ c ∈ cs, IsAscii c := isAscii_of_utf8Bytes (hbytes ▸ h)
    rw [← hbytes, map_utf8Bytes hascii]
  · rintro rfl
    exact map_utf8Bytes h

/-- The byte before a place between characters is there, and is an ASCII character only
if the character before the place is. -/
theorem exists_byteAt? (before : List Char) (c : Char) (after : List Char) :
    ∃ b, byteAt? (utf8Length (before ++ [c]) - 1) (before ++ c :: after) = some b ∧
      ∀ d, IsAscii d → (Char.ofUInt8 b = d ↔ c = d) := by
  have hlength := String.length_utf8EncodeChar c
  have hpos := c.utf8Size_pos
  have hindex : utf8Length (before ++ [c]) - 1 =
      (utf8Bytes before).length + ((String.utf8EncodeChar c).length - 1) := by
    rw [length_utf8Bytes, utf8Length_append, utf8Length_cons, utf8Length_nil]
    omega
  have hlast : (String.utf8EncodeChar c).length - 1 < (String.utf8EncodeChar c).length := by
    omega
  have hbyte : byteAt? (utf8Length (before ++ [c]) - 1) (before ++ c :: after) =
      some ((String.utf8EncodeChar c)[(String.utf8EncodeChar c).length - 1]) := by
    rw [byteAt?, utf8Bytes_append, utf8Bytes_cons, hindex,
      List.getElem?_append_right (Nat.le_add_right _ _), Nat.add_sub_cancel_left,
      List.getElem?_append_left hlast, List.getElem?_eq_getElem hlast]
  refine ⟨_, hbyte, fun d hd => ⟨fun h => ?_, ?_⟩⟩
  · exact (eq_of_ofUInt8_eq (List.getElem_mem hlast) hd h).2
  · rintro rfl
    obtain ⟨own, hchar, hown⟩ := hd.exists_byte
    simp only [hchar]
    exact hown

end Text

end RcScript
