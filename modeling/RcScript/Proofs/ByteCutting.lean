import RcScript.Text.Utf8

/-!
# Cutting a text at a byte offset

A byte offset that lies between two characters is the measure of the characters
before it. The byte-counted cuts therefore agree with concatenation: cutting at
the measure of a first part gives back both parts, and of two cuts of one text
the earlier one cuts a first part of the later. Nothing is claimed of offsets
inside a character beyond that they are no boundaries.
-/

namespace RcScript.Text

/-- The empty text has no bytes. -/
@[simp]
theorem utf8Length_nil : utf8Length [] = 0 := rfl

/-- A text is longer by the bytes of its first character than what follows it. -/
@[simp]
theorem utf8Length_cons (c : Char) (cs : List Char) :
    utf8Length (c :: cs) = c.utf8Size + utf8Length cs := rfl

attribute [simp] utf8Length_append

/-- Every character takes a byte at least, so only the empty list measures zero. -/
@[simp]
theorem utf8Length_eq_zero {cs : List Char} : utf8Length cs = 0 ↔ cs = [] := by
  cases cs with
  | nil => simp
  | cons c cs =>
    have hc := c.utf8Size_pos
    simp only [utf8Length_cons, reduceCtorEq, iff_false]
    omega

/-- A text with a character has a byte. -/
theorem utf8Length_pos {cs : List Char} (h : cs ≠ []) : 0 < utf8Length cs :=
  Nat.pos_of_ne_zero fun hz => h (utf8Length_eq_zero.mp hz)

/-- A count that reaches past a first character is a successor. -/
theorem exists_succ_eq_utf8Size_add (c : Char) (n : Nat) :
    ∃ k, c.utf8Size + n = k + 1 ∧ k + 1 - c.utf8Size = n := by
  have hc := c.utf8Size_pos
  exact ⟨c.utf8Size + n - 1, by omega, by omega⟩

/-- Dropping past a first character takes its bytes off the count. -/
theorem dropBytes_cons_add (c : Char) (n : Nat) (cs : List Char) :
    dropBytes (c.utf8Size + n) (c :: cs) = dropBytes n cs := by
  obtain ⟨k, hk, hn⟩ := exists_succ_eq_utf8Size_add c n
  rw [hk, dropBytes, hn]

/-- Taking past a first character takes its bytes off the count. -/
theorem takeBytes_cons_add (c : Char) (n : Nat) (cs : List Char) :
    takeBytes (c.utf8Size + n) (c :: cs) = c :: takeBytes n cs := by
  obtain ⟨k, hk, hn⟩ := exists_succ_eq_utf8Size_add c n
  rw [hk, takeBytes, hn]

/-- Dropping no bytes leaves the text. -/
theorem dropBytes_zero (cs : List Char) : dropBytes 0 cs = cs := by
  cases cs <;> rfl

/-- Taking no bytes takes nothing. -/
theorem takeBytes_zero (cs : List Char) : takeBytes 0 cs = [] := by
  cases cs <;> rfl

/-- Dropping the measure of a first part leaves the second. -/
@[simp]
theorem dropBytes_append (before after : List Char) :
    dropBytes (utf8Length before) (before ++ after) = after := by
  induction before with
  | nil => exact dropBytes_zero after
  | cons c cs ih => rw [utf8Length_cons, List.cons_append, dropBytes_cons_add, ih]

/-- Taking the measure of a first part gives the first part. -/
@[simp]
theorem takeBytes_append (before after : List Char) :
    takeBytes (utf8Length before) (before ++ after) = before := by
  induction before with
  | nil => exact takeBytes_zero after
  | cons c cs ih => rw [utf8Length_cons, List.cons_append, takeBytes_cons_add, ih]

/-- The slice between the measures of two first parts is what lies between them. -/
theorem sliceBytes_append (before middle after : List Char) :
    sliceBytes (utf8Length before) (utf8Length (before ++ middle))
      (before ++ (middle ++ after)) = middle := by
  have hm : utf8Length (before ++ middle) - utf8Length before = utf8Length middle := by
    rw [utf8Length_append]
    omega
  rw [sliceBytes, hm, dropBytes_append, takeBytes_append]

/-- An offset is a boundary exactly when it measures a first part of the text. -/
theorem isBoundary_iff {n : Nat} {cs : List Char} :
    isBoundary n cs = true ↔ ∃ before after, cs = before ++ after ∧ utf8Length before = n := by
  induction cs generalizing n with
  | nil =>
    cases n with
    | zero => simp [isBoundary]
    | succ n =>
      simp only [isBoundary, Bool.false_eq_true, false_iff]
      rintro ⟨before, after, he, hn⟩
      have hb : before = [] := (List.append_eq_nil_iff.mp he.symm).1
      simp [hb] at hn
  | cons c cs ih =>
    cases n with
    | zero => exact ⟨fun _ => ⟨[], c :: cs, rfl, rfl⟩, fun _ => by simp [isBoundary]⟩
    | succ n =>
      simp only [isBoundary, Bool.and_eq_true, decide_eq_true_eq, ih]
      constructor
      · rintro ⟨hc, before, after, rfl, hn⟩
        exact ⟨c :: before, after, rfl, by rw [utf8Length_cons]; omega⟩
      · rintro ⟨before, after, he, hn⟩
        cases before with
        | nil => simp at hn
        | cons d before =>
          obtain ⟨rfl, rfl⟩ := List.cons_eq_cons.mp he
          rw [utf8Length_cons] at hn
          exact ⟨by omega, before, after, rfl, by omega⟩

/-- A character is found only behind the first part that its offset measures. -/
theorem exists_of_charAt?_eq_some {n : Nat} {cs : List Char} {c : Char}
    (h : charAt? n cs = some c) :
    ∃ before after, cs = before ++ c :: after ∧ utf8Length before = n := by
  induction cs generalizing n with
  | nil => cases n <;> simp [charAt?] at h
  | cons d cs ih =>
    cases n with
    | zero =>
      simp only [charAt?, Option.some.injEq] at h
      exact ⟨[], cs, by rw [h]; rfl, rfl⟩
    | succ n =>
      simp only [charAt?] at h
      split at h
      · next hd =>
        obtain ⟨before, after, rfl, hn⟩ := ih h
        exact ⟨d :: before, after, rfl, by rw [utf8Length_cons]; omega⟩
      · simp at h

/-- The character behind a first part is found at the part's measure. -/
theorem charAt?_append (before : List Char) (c : Char) (after : List Char) :
    charAt? (utf8Length before) (before ++ c :: after) = some c := by
  induction before with
  | nil => rfl
  | cons d before ih =>
    obtain ⟨k, hk, hrest⟩ := exists_succ_eq_utf8Size_add d (utf8Length before)
    have hle : d.utf8Size ≤ k + 1 := by omega
    rw [utf8Length_cons, hk, List.cons_append, charAt?, if_pos hle, hrest, ih]

/-- Of two cuts of one text the earlier one cuts a first part of the later. -/
theorem exists_middle_of_utf8Length_le {before after before' after' : List Char}
    (h : before ++ after = before' ++ after') (hle : utf8Length before ≤ utf8Length before') :
    ∃ middle, before' = before ++ middle ∧ after = middle ++ after' := by
  rcases List.append_eq_append_iff.mp h with ⟨middle, hb, ha⟩ | ⟨middle, hb, ha⟩
  · exact ⟨middle, hb, ha⟩
  · have hz : utf8Length middle = 0 := by
      have hl := congrArg utf8Length hb
      rw [utf8Length_append] at hl
      omega
    obtain rfl := utf8Length_eq_zero.mp hz
    exact ⟨[], by simpa using hb.symm, by simpa using ha.symm⟩

end RcScript.Text
