import RcScript.Proofs.IncrementalReading
import RcScript.Proofs.SpanBounds

/-!
# Changes that count bytes

A change gives its ends in bytes, and they need not lie between characters: where two
characters share their first byte, a change of the second turns one into the other. Lines
start and stop between characters, so such a change leaves the same lines alone as the
change of all characters that it touches. Reading again therefore gives the program of the
new text whenever the bytes outside the change are the same in both texts. Nothing is said
of changes that do not describe how the texts differ.
-/

namespace RcScript

open Text

namespace Text

/-- Where the bytes of a text begin with those of some characters, the text begins with the
characters. -/
theorem exists_of_utf8Bytes_append {front cs : List Char} {bytes : List UInt8}
    (h : utf8Bytes cs = utf8Bytes front ++ bytes) :
    ∃ rest, cs = front ++ rest ∧ utf8Bytes rest = bytes := by
  have hencoded : front.utf8Encode ++ bytes.toByteArray = cs.utf8Encode := by
    rw [List.utf8Encode, List.utf8Encode, ← utf8Bytes, ← utf8Bytes, h, List.toByteArray_append]
  obtain ⟨rest, rfl⟩ := List.isPrefix_of_utf8Encode_append_eq_utf8Encode _ hencoded
  rw [utf8Bytes_append] at h
  exact ⟨rest, rfl, List.append_cancel_left h⟩

/-- A byte that opens a character stands at the start of one. -/
theorem isBoundary_of_firstByte {n : Nat} {cs : List Char} {b : UInt8}
    (h : byteAt? n cs = some b) (hfirst : b.IsUTF8FirstByte) : isBoundary n cs = true := by
  induction cs generalizing n with
  | nil => simp [byteAt?, utf8Bytes] at h
  | cons c cs ih =>
    rw [byteAt?, utf8Bytes_cons] at h
    rcases Nat.lt_or_ge n (String.utf8EncodeChar c).length with hlt | hge
    · rw [List.getElem?_append_left hlt, List.getElem?_eq_getElem hlt, Option.some.injEq] at h
      rw [← h, UInt8.isUTF8FirstByte_getElem_utf8EncodeChar] at hfirst
      rw [hfirst]
      exact isBoundary_iff.mpr ⟨[], c :: cs, rfl, rfl⟩
    · rw [List.getElem?_append_right hge] at h
      obtain ⟨before, after, rfl, hbefore⟩ := isBoundary_iff.mp (ih h)
      refine isBoundary_iff.mpr ⟨c :: before, after, rfl, ?_⟩
      rw [String.length_utf8EncodeChar] at hge hbefore
      rw [utf8Length_cons]
      omega

/-- Where the bytes of a text end in those of some characters, the text ends in the
characters: the first byte of the end opens a character, so that the text can be cut there. -/
theorem exists_of_append_utf8Bytes {back cs : List Char} {bytes : List UInt8}
    (h : utf8Bytes cs = bytes ++ utf8Bytes back) :
    ∃ front, cs = front ++ back ∧ utf8Bytes front = bytes := by
  cases back with
  | nil => exact ⟨cs, (List.append_nil cs).symm, by rw [h]; exact List.append_nil _⟩
  | cons c later =>
    have hpos : 0 < (String.utf8EncodeChar c).length := by
      rw [String.length_utf8EncodeChar]
      exact c.utf8Size_pos
    have hbyte : byteAt? bytes.length cs = some (String.utf8EncodeChar c)[0] := by
      rw [byteAt?, h, List.getElem?_append_right (Nat.le_refl _), Nat.sub_self, utf8Bytes_cons,
        List.getElem?_append_left hpos, List.getElem?_eq_getElem hpos]
    have hcut := isBoundary_of_firstByte hbyte (UInt8.isUTF8FirstByte_getElem_utf8EncodeChar.mpr rfl)
    obtain ⟨front, rest, rfl, hfront⟩ := isBoundary_iff.mp hcut
    rw [← length_utf8Bytes] at hfront
    rw [utf8Bytes_append] at h
    obtain ⟨hbytes, hrest⟩ := List.append_inj h hfront
    obtain ⟨tail, rfl, htail⟩ := exists_of_utf8Bytes_append
      (hrest.trans (List.append_nil _).symm)
    have hempty : tail = [] := by
      rw [← utf8Length_eq_zero, ← length_utf8Bytes, htail, List.length_nil]
    exact ⟨front, by rw [hempty, List.append_nil], hbytes⟩

/-- Taking bytes past a first part takes that part and goes on in the second. -/
theorem take_utf8Bytes {before : List Char} {n : Nat} (h : utf8Length before ≤ n)
    (after : List Char) : (utf8Bytes (before ++ after)).take n =
      utf8Bytes before ++ (utf8Bytes after).take (n - utf8Length before) := by
  rw [← length_utf8Bytes] at h ⊢
  rw [utf8Bytes_append, List.take_append, List.take_of_length_le h]

/-- Dropping bytes within a first part leaves the second alone. -/
theorem drop_utf8Bytes {before : List Char} {n : Nat} (h : n ≤ utf8Length before)
    (after : List Char) : (utf8Bytes (before ++ after)).drop n =
      (utf8Bytes before).drop n ++ utf8Bytes after := by
  rw [← length_utf8Bytes] at h
  rw [utf8Bytes_append, List.drop_append_of_le_length h]

/-- The last boundary up to an offset. -/
theorem exists_floor (cs : List Char) (n : Nat) :
    ∃ before after, cs = before ++ after ∧ utf8Length before ≤ n ∧
      ∀ place, isBoundary place cs = true → place ≤ n → place ≤ utf8Length before := by
  induction n with
  | zero => exact ⟨[], cs, rfl, Nat.le_refl _, fun _ _ hle => hle⟩
  | succ n ih =>
    by_cases hcut : isBoundary (n + 1) cs = true
    · obtain ⟨before, after, hcs, hbefore⟩ := isBoundary_iff.mp hcut
      exact ⟨before, after, hcs, Nat.le_of_eq hbefore, fun _ _ hle => hbefore ▸ hle⟩
    · obtain ⟨before, after, hcs, hbefore, hlast⟩ := ih
      refine ⟨before, after, hcs, Nat.le_succ_of_le hbefore, fun place hplace hle => ?_⟩
      have hne : place ≠ n + 1 := fun heq => hcut (heq ▸ hplace)
      exact hlast place hplace (by omega)

/-- The first boundary from an offset on. -/
theorem exists_ceiling {n : Nat} {cs : List Char} (h : n ≤ utf8Length cs) :
    ∃ front back, cs = front ++ back ∧ n ≤ utf8Length front ∧
      ∀ place, isBoundary place cs = true → n ≤ place → utf8Length front ≤ place := by
  obtain ⟨room, hroom⟩ := Nat.exists_eq_add_of_le h
  induction room generalizing n with
  | zero =>
    rw [hroom, Nat.add_zero] at h
    exact ⟨cs, [], (List.append_nil cs).symm, by omega, fun _ _ hle => by omega⟩
  | succ room ih =>
    by_cases hcut : isBoundary n cs = true
    · obtain ⟨front, back, hcs, hfront⟩ := isBoundary_iff.mp hcut
      exact ⟨front, back, hcs, Nat.le_of_eq hfront.symm, fun _ _ hle => hfront.symm ▸ hle⟩
    · have hnext : n + 1 ≤ utf8Length cs := by omega
      obtain ⟨front, back, hcs, hfront, hfirst⟩ := ih hnext (by omega)
      refine ⟨front, back, hcs, by omega, fun place hplace hle => ?_⟩
      have hne : place ≠ n := fun heq => hcut (heq ▸ hplace)
      exact hfirst place hplace (by omega)

end Text

namespace Change

/-- The change of a splice does not end before it starts. -/
theorem splice_ordered (before removed insert : List Char) :
    (splice before removed insert).start ≤ (splice before removed insert).stop := by
  simp only [splice, utf8Length_append]
  omega

/-- A change describes how two texts differ: the bytes outside it are the same. -/
structure Describes (change : Change) (old new : List Char) : Prop where
  /-- The change does not end before it starts. -/
  ordered : change.start ≤ change.stop
  /-- The change does not reach out of the old text. -/
  inside : change.stop ≤ utf8Length old
  /-- As many bytes as the change tells stand in the place of those that it covers. -/
  bytes : ∃ inserted, inserted.length = change.inserted ∧
    utf8Bytes new = (utf8Bytes old).take change.start ++
      (inserted ++ (utf8Bytes old).drop change.stop)

/-- A change that describes how two texts differ touches some characters of the old text, in
the place of which others stand in the new one. No boundary lies between its ends and theirs.
The new text starts and ends in the characters that the old one keeps, since its bytes do. -/
theorem Describes.exists_splice {change : Change} {old new : List Char}
    (h : change.Describes old new) :
    ∃ before removed insert after, old = before ++ (removed ++ after) ∧
      new = before ++ (insert ++ after) ∧
      change.delta = (splice before removed insert).delta ∧
      ∀ place, isBoundary place old = true →
        (place ≤ change.start ↔ place ≤ utf8Length before) ∧
          (change.stop ≤ place ↔ utf8Length (before ++ removed) ≤ place) := by
  have hordered := h.ordered
  obtain ⟨before, rest, hold, hbefore, hfloor⟩ := exists_floor old change.start
  obtain ⟨front, after, hold', hfront, hceiling⟩ := exists_ceiling h.inside
  obtain ⟨removed, rfl, rfl⟩ := exists_middle_of_utf8Length_le (hold.symm.trans hold') (by omega)
  obtain ⟨inserted, hinserted, hbytes⟩ := h.bytes
  have hlength := congrArg List.length hbytes
  simp only [List.length_append, List.length_take, List.length_drop, length_utf8Bytes] at hlength
  have hfirst := hbytes
  rw [hold, take_utf8Bytes hbefore, List.append_assoc] at hfirst
  obtain ⟨tail, htail, -⟩ := exists_of_utf8Bytes_append hfirst
  have hlast := hbytes
  rw [hold', drop_utf8Bytes hfront, ← List.append_assoc, ← List.append_assoc] at hlast
  obtain ⟨head, hhead, -⟩ := exists_of_append_utf8Bytes hlast
  have hinside := h.inside
  have holdLength := congrArg utf8Length hold'
  have hnewLength := congrArg utf8Length hhead
  rw [utf8Length_append] at holdLength hnewLength
  obtain ⟨insert, rfl, rfl⟩ :=
    exists_middle_of_utf8Length_le (htail.symm.trans hhead) (by omega)
  refine ⟨before, removed, insert, after, hold, htail, ?_, fun place hplace => ⟨?_, ?_⟩⟩
  · rw [splice_delta, delta]
    rw [utf8Length_append] at holdLength hnewLength
    omega
  · exact ⟨hfloor place hplace, fun hle => Nat.le_trans hle hbefore⟩
  · exact ⟨hceiling place hplace, fun hle => Nat.le_trans hfront hle⟩

end Change

/-- An edit that fits a text is described by its change. -/
theorem Edit.describes {edit : Edit} {text : String} (h : edit.fits text = true) :
    edit.change.Describes text.toList (edit.apply text).toList := by
  obtain ⟨before, removed, after, htext, hchange, happly⟩ := edit.exists_splice h
  rw [hchange, happly, htext, String.toList_ofList]
  constructor
  case ordered => exact Change.splice_ordered before removed _
  case inside =>
    simp only [Change.splice, utf8Length_append]
    omega
  case bytes =>
    refine ⟨utf8Bytes edit.insert.toList, length_utf8Bytes _, ?_⟩
    simp only [Change.splice]
    rw [take_utf8Bytes (Nat.le_refl _), Nat.sub_self, List.take_zero, List.append_nil,
      ← List.append_assoc before removed, drop_utf8Bytes (Nat.le_refl _), ← length_utf8Bytes,
      List.drop_length, List.nil_append, utf8Bytes_append, utf8Bytes_append]

namespace Program

/-- Whether a statement moves whole depends on a change only by its end and how far it moves
the text. -/
theorem movesWhole_eq {change : Change} (h : change.start ≤ change.stop) (text : List Char)
    (statement : Statement) : movesWhole change text statement =
      (decide (change.stop ≤ statement.span.start) && decide (0 < statement.span.start) &&
        decide (0 < (statement.span.start : Int) + change.delta) &&
        followsLineFeed text ((statement.span.start : Int) + change.delta).toNat) := by
  have hstop : (change.newStop : Int) ≤ (statement.span.start : Int) + change.delta ↔
      change.stop ≤ statement.span.start := by
    rw [Change.newStop, Change.delta]
    omega
  simp only [movesWhole, hstop]
  cases hbehind : decide (change.stop ≤ statement.span.start) <;> simp

/-- Tests that agree on the items drop the same of them. -/
theorem dropWhile_congr {α : Type} {p q : α → Bool} {items : List α}
    (h : ∀ item ∈ items, p item = q item) : items.dropWhile p = items.dropWhile q := by
  induction items with
  | nil => rfl
  | cons first later ih =>
    rw [List.forall_mem_cons] at h
    rw [List.dropWhile_cons, List.dropWhile_cons, h.1, ih h.2]

/-- Changes that divide the statements alike and move them alike read alike. -/
theorem reparse_congr {old : Program} {change other : Change} {text : String}
    (hended : old.endedBy change.start = old.endedBy other.start)
    (hdelta : change.delta = other.delta) (hmoves : ∀ statement ∈ old.statements,
      movesWhole change text.toList statement = movesWhole other text.toList statement) :
    old.reparse change text = old.reparse other text := by
  have hkept : old.keptBefore change text.toList = old.keptBefore other text.toList := by
    rw [keptBefore, keptBefore, hended]
  have hbehind : ∀ count, ((old.statements.drop count).dropWhile fun statement =>
        !movesWhole change text.toList statement) =
      (old.statements.drop count).dropWhile fun statement =>
        !movesWhole other text.toList statement := by
    intro count
    refine dropWhile_congr fun statement hmem => ?_
    rw [hmoves statement (List.mem_of_mem_drop hmem)]
  simp only [reparse, hkept, hbehind, hdelta]

/-- Offsets that no end of a statement comes between have the same statements ended. -/
theorem endedBy_congr {program : Program} {offset other : Nat}
    (h : ∀ statement ∈ program.statements,
      (statement.span.stop ≤ offset ↔ statement.span.stop ≤ other)) :
    program.endedBy offset = program.endedBy other := by
  simp only [endedBy, List.getElem?_toArray]
  congr 1
  funext place
  cases hplace : program.statements[place]? with
  | none => rfl
  | some statement =>
    have hended := h statement (List.mem_of_getElem? hplace)
    simp only [Option.any_some, hended]

/-- Reading again after a change that describes how the texts differ is reading the new text. -/
theorem reparse_of_describes {change : Change} {old new : String}
    (h : change.Describes old.toList new.toList) :
    ((parse old).reparse change new).program = parse new := by
  obtain ⟨before, removed, insert, after, hold, hnew, hdelta, hplaces⟩ := h.exists_splice
  have hsplice := reparse_splice before removed insert after
  rw [← hold, ← hnew, String.ofList_toList, String.ofList_toList] at hsplice
  rw [← hsplice]
  refine congrArg Reparse.program (reparse_congr ?_ hdelta ?_)
  · exact endedBy_congr fun statement hmem =>
      (hplaces _ (spansWithin_statements old statement hmem).span.stopBoundary).1
  · intro statement hmem
    have hstart := (spansWithin_statements old statement hmem).span.startBoundary
    have hordered := Change.splice_ordered before removed insert
    have hbehind : change.stop ≤ statement.span.start ↔
        (Change.splice before removed insert).stop ≤ statement.span.start :=
      (hplaces _ hstart).2
    simp only [movesWhole_eq h.ordered, movesWhole_eq hordered, hbehind, hdelta]

end Program

end RcScript
