import RcScript.Reader
import RcScript.Proofs.CursorMotion
import RcScript.Proofs.WordRecognition

/-!
# The grammars read what the clauses say

A part of a grammar realizes a relation between a text, a value and what follows
when it succeeds exactly with the values that the relation allows. Realization is
kept by sequencing, so each grammar is followed part by part. What a reading sees
is fixed only up to leading blanks; where a field must begin with a gap, the end
of the field before it supplies one.
-/

namespace RcScript

open Text

/-- A word does not begin with the blanks that are skipped before it. -/
theorem dropWhile_visible {w : List Char} (h : Visible w) (rest : List Char) :
    (w ++ rest).dropWhile isBlank = w ++ rest := by
  obtain ⟨c, tail, rfl, hc⟩ := h
  exact List.dropWhile_cons_of_neg (by simp [hc])

/-- What a field leaves to read when the gap before it is skipped. -/
theorem Field.dropWhile_eq {cs : List Char} {text : String} {rest : List Char}
    (h : Field cs text rest) (hw : Visible text.toList) :
    cs.dropWhile isBlank = text.toList ++ rest := by
  obtain ⟨gap, hgap, rfl, -⟩ := h
  rw [dropWhile_blanks hgap.2, dropWhile_visible hw]

/-- Behind the end of a field a word stands behind a gap. -/
theorem exists_gap {cs w rest : List Char} (hend : FieldEnd cs) (hw : Visible w)
    (h : cs.dropWhile isBlank = w ++ rest) :
    ∃ gap, Gap gap ∧ cs = gap ++ (w ++ rest) := by
  obtain ⟨blanks, hb, he⟩ := exists_blanks cs
  rw [h] at he
  refine ⟨blanks, ⟨?_, hb⟩, he⟩
  rintro rfl
  obtain ⟨c, tail, rfl, hc⟩ := hw
  rw [he, List.nil_append, List.cons_append, fieldEnd_cons, hc] at hend
  exact Bool.noConfusion hend

namespace Cursor

/-- Behind the blanks stands what is unread. -/
theorem skipBlanks_rest (cursor : Cursor) : cursor.skipBlanks.rest = cursor.unread := rfl

/-- Where no mark is next, only blanks are skipped. -/
theorem unread_of_atMark {cursor : Cursor} (h : cursor.atMark = false) :
    cursor.unread = cursor.rest.dropWhile isBlank := by
  rw [unread, skipBlanks, advance_rest, blankCount_eq, h, if_neg Bool.false_ne_true,
    drop_runLength]

end Cursor

namespace Progress

/-- What is left to read, up to leading blanks. -/
def Sees (progress : Progress) (cs : List Char) : Prop :=
  progress.cursor.unread = cs.dropWhile isBlank

/-- Reading stands behind a token and directly before a text. -/
def Stands (progress : Progress) (cs : List Char) : Prop :=
  progress.cursor.rest = cs ∧ progress.cursor.atMark = false

/-- A reading that stands in front of a text sees it behind its blanks. -/
theorem Stands.sees {progress : Progress} {cs : List Char} (h : progress.Stands cs) :
    progress.Sees cs := by
  obtain ⟨rfl, hmark⟩ := h
  exact Cursor.unread_of_atMark hmark

end Progress

/-- A request that skips blanks and is answered with the words of `Word`. -/
def Request.Knows (request : Request) (Word : TokenKind → List Char → Prop) : Prop :=
  request.skipsBlanks = true ∧ ∀ cursor, Recognises (request.recogniser cursor) Word

namespace Request

/-- The words of a keyword are its literal. -/
theorem knows_keyword (keyword : Keyword) :
    (Request.keyword keyword.literal).Knows (OneWord .keyword keyword.literal.toList) :=
  ⟨rfl, fun _ => Recogniser.recognises_keyword keyword⟩

/-- The words of a flag are its text. -/
theorem knows_flag (flag : ContainFlag) :
    (Request.flag flag.text).Knows (OneWord .flag flag.text.toList) :=
  ⟨rfl, fun _ => Recogniser.recognises_flag flag⟩

/-- The words of an event are the names of the events. -/
theorem knows_eventName :
    Request.eventName.Knows (NamedWord .eventName (Event.all.map Event.name)) :=
  ⟨rfl, fun _ => Recogniser.recognises_eventName⟩

/-- The words of a command are the names that a command can be called by. -/
theorem knows_commandName : Request.commandName.Knows CommandWord :=
  ⟨rfl, fun _ => Recogniser.recognises_commandName⟩

/-- The words of patterns that keep apart are those that one of them matches as a whole. -/
theorem knows_wholeWord {allowed : List Pattern} (hapart : Recogniser.Apart allowed) :
    (Request.wholeWord allowed).Knows (PatternWord allowed) :=
  ⟨rfl, fun _ => Recogniser.recognises_wholeWord hapart⟩

end Request

namespace Progress

variable {request : Request} {Word : TokenKind → List Char → Prop} {progress : Progress}
  {cs : List Char}

/-- A recognised first part of what is next is accepted and passed. -/
theorem accept_of_ready {kind : TokenKind} {w rest : List Char} (hne : w ≠ [])
    (hready : (progress.cursor.ready request).rest = w ++ rest)
    (h : request.recogniser (progress.cursor.ready request) (w ++ rest) =
      some ⟨kind, w.length⟩) :
    ∃ token later, progress.accept request = some (token, later) ∧ token.kind = kind ∧
      token.text = String.ofList w ∧ later.Stands rest := by
  have hlexeme : (progress.cursor.ready request).lexeme? request = some ⟨kind, w.length⟩ := by
    rw [Cursor.lexeme?, hready, h]
  refine ⟨_, _, by rw [accept_eq, hlexeme, Option.map_some], rfl, ?_, ?_, ?_⟩
  · simp only [Cursor.token, hready, List.take_left]
  · simp only [Cursor.advance_rest, hready, List.drop_left]
  · exact Cursor.atMark_advance (by simpa [hready] using hne)

/-- A request is refused where its recogniser finds nothing in what is next. -/
theorem accept_eq_none : progress.accept request = none ↔
    request.recogniser (progress.cursor.ready request) (progress.cursor.ready request).rest =
      none := by
  rw [accept_eq, Option.map_eq_none_iff, Cursor.lexeme?]

/-- A recognised first part of what is unread is accepted and passed. -/
theorem accept_of_recogniser (hskip : request.skipsBlanks = true) {kind : TokenKind}
    {w rest : List Char} (hne : w ≠ []) (hsees : progress.cursor.unread = w ++ rest)
    (h : request.recogniser progress.cursor.skipBlanks (w ++ rest) = some ⟨kind, w.length⟩) :
    ∃ token later, progress.accept request = some (token, later) ∧ token.kind = kind ∧
      token.text = String.ofList w ∧ later.Stands rest := by
  have hready : progress.cursor.ready request = progress.cursor.skipBlanks := by
    rw [Cursor.ready, if_pos hskip]
  rw [← hready] at h
  exact accept_of_ready hne (by rw [hready]; exact hsees) h

/-- A request is refused where its recogniser finds nothing in what is unread. -/
theorem accept_eq_none_of_unread (hskip : request.skipsBlanks = true) :
    progress.accept request = none ↔
      request.recogniser progress.cursor.skipBlanks progress.cursor.unread = none := by
  have hready : progress.cursor.ready request = progress.cursor.skipBlanks := by
    rw [Cursor.ready, if_pos hskip]
  rw [accept_eq_none, hready, Cursor.unread]

/-- Where a field has a known word, the request takes it. -/
theorem accept_of_field (hknows : request.Knows Word) (hsees : progress.Sees cs)
    {text : String} {rest : List Char} {kind : TokenKind} (hfield : Field cs text rest)
    (hword : Word kind text.toList) :
    ∃ token later, progress.accept request = some (token, later) ∧ token.kind = kind ∧
      token.text = text ∧ later.Stands rest := by
  obtain ⟨hskip, hrec⟩ := hknows
  have hvisible := (hrec progress.cursor.skipBlanks).visible hword
  have hunread : progress.cursor.unread = text.toList ++ rest := by
    rw [hsees, hfield.dropWhile_eq hvisible]
  obtain ⟨gap, hgap, -, hend⟩ := hfield
  have hanswer := (hrec progress.cursor.skipBlanks).answers.mpr ⟨hword, hend⟩
  obtain ⟨token, later, haccept, hkind, htext, hstands⟩ :=
    accept_of_recogniser hskip hvisible.ne_nil hunread hanswer
  rw [String.ofList_toList] at htext
  exact ⟨token, later, haccept, hkind, htext, hstands⟩

/-- What a request takes behind the end of a field is a field with a known word. -/
theorem field_of_accept (hknows : request.Knows Word) (hsees : progress.Sees cs)
    (hend : FieldEnd cs) {token : Token} {later : Progress}
    (h : progress.accept request = some (token, later)) :
    ∃ rest, Field cs token.text rest ∧ Word token.kind token.text.toList ∧
      later.Stands rest := by
  obtain ⟨hskip, hrec⟩ := hknows
  cases hlexeme : request.recogniser progress.cursor.skipBlanks progress.cursor.unread with
  | none =>
    rw [(accept_eq_none_of_unread hskip).mpr hlexeme] at h
    exact absurd h (by simp)
  | some lexeme =>
    obtain ⟨w, rest, hunread, hcount, hword, hstop⟩ :=
      (hrec progress.cursor.skipBlanks).exists_word hlexeme
    have hvisible := (hrec progress.cursor.skipBlanks).visible hword
    have hanswer := (hrec progress.cursor.skipBlanks).answers.mpr ⟨hword, hstop⟩
    obtain ⟨found, next, haccept, hkind, htext, hstands⟩ :=
      accept_of_recogniser hskip hvisible.ne_nil hunread hanswer
    rw [h, Option.some.injEq, Prod.mk.injEq] at haccept
    obtain ⟨rfl, rfl⟩ := haccept
    obtain ⟨gap, hgap, hcs⟩ := exists_gap hend hvisible (hsees.symm.trans hunread)
    refine ⟨rest, ⟨gap, hgap, ?_, hstop⟩, ?_, hstands⟩
    · rw [htext, String.toList_ofList]
      exact hcs
    · rw [hkind, htext, String.toList_ofList]
      exact hword

/-- A token that is taken shortens what is left. -/
theorem length_of_accept (hknows : request.Knows Word) (hsees : progress.Sees cs)
    (hend : FieldEnd cs) {token : Token} {later : Progress}
    (h : progress.accept request = some (token, later)) :
    later.cursor.rest.length < progress.cursor.rest.length := by
  obtain ⟨rest, hfield, hword, hstands⟩ := field_of_accept hknows hsees hend h
  have hvisible := (hknows.2 progress.cursor.skipBlanks).visible hword
  have hunread := hsees.trans (hfield.dropWhile_eq hvisible)
  have hdrop : progress.cursor.unread = progress.cursor.rest.drop progress.cursor.blankCount := rfl
  have hlength := congrArg List.length (hdrop.symm.trans hunread)
  obtain ⟨c, tail, he, -⟩ := hvisible
  rw [he, List.length_drop, List.length_append, List.length_cons] at hlength
  rw [hstands.1]
  omega

end Progress

/-- No field with a known word comes next. -/
def NoField (Word : TokenKind → List Char → Prop) (cs : List Char) : Prop :=
  ∀ text rest kind, Field cs text rest → ¬ Word kind text.toList

/-- A field with a known word, where one comes next. -/
def OptionalField (Word : TokenKind → List Char → Prop) (cs : List Char)
    (found : Option (TokenKind × String)) (rest : List Char) : Prop :=
  match found with
  | some (kind, text) => Field cs text rest ∧ Word kind text.toList
  | none => rest = cs ∧ NoField Word cs

/-- Behind the end of a field, a reading succeeds exactly with the values of a
relation between a text, a value and what follows. Of the value only the part that
`view` shows is meant. -/
structure Realizes (view : α → β) (reading : Reading α)
    (Phrase : List Char → β → List Char → Prop) : Prop where
  /-- What is read is in the relation. -/
  sound {progress later : Progress} {cs : List Char} {value : α} : progress.Sees cs →
    FieldEnd cs → reading progress = (.ok value, later) →
    ∃ rest, Phrase cs (view value) rest ∧ FieldEnd rest ∧ later.Sees rest
  /-- What is in the relation is read. -/
  complete {progress : Progress} {cs rest : List Char} {shown : β} : progress.Sees cs →
    FieldEnd cs → Phrase cs shown rest →
    ∃ value later, reading progress = (.ok value, later) ∧ view value = shown ∧
      FieldEnd rest ∧ later.Sees rest

namespace Realizes

variable {view : α → β}

/-- Equivalent relations are realized together. -/
theorem congr {reading : Reading α} {First Second : List Char → β → List Char → Prop}
    (h : Realizes view reading First)
    (hiff : ∀ cs shown rest, First cs shown rest ↔ Second cs shown rest) :
    Realizes view reading Second where
  sound hsees hend hr := by
    obtain ⟨rest, hphrase, hlater⟩ := h.sound hsees hend hr
    exact ⟨rest, (hiff _ _ _).mp hphrase, hlater⟩
  complete hsees hend hphrase := h.complete hsees hend ((hiff _ _ _).mpr hphrase)

/-- A value that costs no text. -/
theorem pure (view : α → β) (value : α) :
    Realizes view (Pure.pure value : Reading α)
      (fun cs shown rest => shown = view value ∧ rest = cs) where
  sound hsees hend hr := by
    obtain ⟨hvalue, rfl⟩ := Prod.mk.inj hr
    obtain rfl := Except.ok.inj hvalue
    exact ⟨_, ⟨rfl, rfl⟩, hend, hsees⟩
  complete hsees hend hphrase := by
    obtain ⟨rfl, rfl⟩ := hphrase
    exact ⟨value, _, rfl, rfl, hend, hsees⟩

/-- One part behind the other, which depends on what is shown of the first. -/
theorem bindView {reading : Reading α} {next : α → Reading γ} {view' : γ → δ}
    {First : List Char → β → List Char → Prop} (Second : β → List Char → δ → List Char → Prop)
    (hfirst : Realizes view reading First)
    (hsecond : ∀ value, Realizes view' (next value) (Second (view value))) :
    Realizes view' (reading >>= next)
      (fun cs shown rest => ∃ found mid, First cs found mid ∧ Second found mid shown rest) where
  sound {progress later cs value} hsees hend hr := by
    cases hread : reading progress with
    | mk outcome between =>
      simp only [Bind.bind, hread] at hr
      cases outcome with
      | error fault => simp at hr
      | ok found =>
        obtain ⟨mid, hphrase, hmid, hbetween⟩ := hfirst.sound hsees hend hread
        obtain ⟨rest, hphrase', hrest, hlater⟩ := (hsecond found).sound hbetween hmid hr
        exact ⟨rest, ⟨view found, mid, hphrase, hphrase'⟩, hrest, hlater⟩
  complete {progress cs rest shown} hsees hend hphrase := by
    obtain ⟨found, mid, hphrase, hphrase'⟩ := hphrase
    obtain ⟨value, between, hread, rfl, hmid, hbetween⟩ := hfirst.complete hsees hend hphrase
    obtain ⟨value', later, hread', hshown, hlater⟩ :=
      (hsecond value).complete hbetween hmid hphrase'
    refine ⟨value', later, ?_, hshown, hlater⟩
    simp only [Bind.bind, hread, hread']

/-- One part behind the other. -/
theorem bind {reading : Reading α} {next : α → Reading γ} {view' : γ → δ}
    {First : List Char → α → List Char → Prop} {Second : α → List Char → δ → List Char → Prop}
    (hfirst : Realizes id reading First)
    (hsecond : ∀ value, Realizes view' (next value) (Second value)) :
    Realizes view' (reading >>= next)
      (fun cs shown rest => ∃ found mid, First cs found mid ∧ Second found mid shown rest) :=
  hfirst.bindView Second hsecond

end Realizes

namespace Reading

variable {Word : TokenKind → List Char → Prop} {request : Request}

/-- A fault reads no phrase. -/
theorem realizes_missing (view : α → β) (expected : Expected) :
    Realizes view (missing expected) (fun _ _ _ => False) where
  sound _ _ hr := by simp [missing] at hr
  complete _ _ hphrase := hphrase.elim

/-- A value that is asked for is read where it is there, and takes nothing of the line. -/
theorem realizes_require (expected : Expected) (value? : Option α) :
    Realizes id (require expected value?)
      (fun cs shown rest => value? = some shown ∧ rest = cs) := by
  cases value? with
  | none => exact (realizes_missing id expected).congr (by simp)
  | some value => exact (Realizes.pure id value).congr (by simp [eq_comm])

/-- A request is refused exactly where no field with a known word comes next. -/
theorem noField_iff (hknows : request.Knows Word) {progress : Progress} {cs : List Char}
    (hsees : progress.Sees cs) (hend : FieldEnd cs) :
    NoField Word cs ↔ progress.accept request = none := by
  constructor
  · intro hno
    cases haccept : progress.accept request with
    | none => rfl
    | some taken =>
      obtain ⟨token, next⟩ := taken
      obtain ⟨rest, hfield, hword, -⟩ := Progress.field_of_accept hknows hsees hend haccept
      exact absurd hword (hno token.text rest token.kind hfield)
  · intro haccept text rest kind hfield hword
    obtain ⟨token, next, htaken, -⟩ := Progress.accept_of_field hknows hsees hfield hword
    rw [haccept] at htaken
    exact absurd htaken (by simp)

/-- A token that may be missing is taken wherever a field has a known word. -/
theorem realizes_optional (hknows : request.Knows Word) :
    Realizes (Option.map fun token : Token => (token.kind, token.text)) (optional request)
      (OptionalField Word) where
  sound {progress later cs value} hsees hend hr := by
    cases haccept : progress.accept request with
    | none =>
      simp only [optional, haccept, Prod.mk.injEq, Except.ok.injEq] at hr
      obtain ⟨rfl, rfl⟩ := hr
      exact ⟨cs, ⟨rfl, (noField_iff hknows hsees hend).mpr haccept⟩, hend, hsees⟩
    | some taken =>
      obtain ⟨token, next⟩ := taken
      simp only [optional, haccept, Prod.mk.injEq, Except.ok.injEq] at hr
      obtain ⟨rfl, rfl⟩ := hr
      obtain ⟨rest, hfield, hword, hstands⟩ :=
        Progress.field_of_accept hknows hsees hend haccept
      obtain ⟨gap, hgap, hcs, hstop⟩ := hfield
      exact ⟨rest, ⟨⟨gap, hgap, hcs, hstop⟩, hword⟩, hstop, hstands.sees⟩
  complete {progress cs rest shown} hsees hend hphrase := by
    cases shown with
    | none =>
      obtain ⟨rfl, hno⟩ := hphrase
      have haccept := (noField_iff hknows hsees hend).mp hno
      exact ⟨none, progress, by simp [optional, haccept], rfl, hend, hsees⟩
    | some found =>
      obtain ⟨hfield, hword⟩ := hphrase
      obtain ⟨token, next, haccept, hkind, htext, hstands⟩ :=
        Progress.accept_of_field hknows hsees hfield hword
      obtain ⟨-, -, -, hstop⟩ := hfield
      refine ⟨some token, next, by simp [optional, haccept], ?_, hstop, hstands.sees⟩
      rw [Option.map_some, hkind, htext]

/-- A required token is a field with a known word. -/
theorem realizes_need (expected : Expected) (hknows : request.Knows Word) :
    Realizes id (need expected request)
      (fun cs text rest => Field cs text rest ∧ ∃ kind, Word kind text.toList) where
  sound {progress later cs value} hsees hend hr := by
    rw [need_eq] at hr
    cases haccept : progress.accept request with
    | none => simp [haccept] at hr
    | some taken =>
      obtain ⟨token, next⟩ := taken
      simp only [haccept, Prod.mk.injEq, Except.ok.injEq] at hr
      obtain ⟨rfl, rfl⟩ := hr
      obtain ⟨rest, hfield, hword, hstands⟩ :=
        Progress.field_of_accept hknows hsees hend haccept
      obtain ⟨gap, hgap, hcs, hstop⟩ := hfield
      exact ⟨rest, ⟨⟨gap, hgap, hcs, hstop⟩, token.kind, hword⟩, hstop, hstands.sees⟩
  complete {progress cs rest shown} hsees hend hphrase := by
    obtain ⟨hfield, kind, hword⟩ := hphrase
    obtain ⟨token, next, haccept, hkind, htext, hstands⟩ :=
      Progress.accept_of_field hknows hsees hfield hword
    obtain ⟨-, -, -, hstop⟩ := hfield
    exact ⟨token.text, next, by rw [need_eq, haccept], htext, hstop, hstands.sees⟩

/-- A word of a pattern is a field of that pattern. -/
theorem realizes_word (expected : Expected) (pattern : Pattern) :
    Realizes id (word expected pattern) (PatternField pattern) := by
  have hknows := Request.knows_wholeWord (Recogniser.apart_singleton pattern)
  refine (realizes_need expected hknows).congr ?_
  intro cs text rest
  simp [PatternField, PatternWord]

/-- The fields that are taken when there are no more of them than `limit`. -/
theorem fields_of_acceptUpTo (hknows : request.Knows Word) {limit : Nat} {progress : Progress}
    {cs : List Char} (hsees : progress.Sees cs) (hend : FieldEnd cs)
    (hlimit : progress.cursor.rest.length ≤ limit) :
    ∃ rest, Fields cs ((progress.acceptUpTo request limit).1.map Token.text) rest ∧
      (∀ token ∈ (progress.acceptUpTo request limit).1, Word token.kind token.text.toList) ∧
      NoField Word rest ∧ FieldEnd rest ∧ (progress.acceptUpTo request limit).2.Sees rest := by
  induction limit generalizing progress cs with
  | zero =>
    have hno : NoField Word cs := by
      refine (noField_iff hknows hsees hend).mpr ?_
      cases haccept : progress.accept request with
      | none => rfl
      | some taken =>
        have hlt := Progress.length_of_accept hknows hsees hend haccept
        omega
    exact ⟨cs, .nil, by simp [Progress.acceptUpTo], hno, hend, hsees⟩
  | succ limit ih =>
    cases haccept : progress.accept request with
    | none =>
      have hno := (noField_iff hknows hsees hend).mpr haccept
      simp only [Progress.acceptUpTo, haccept]
      exact ⟨cs, .nil, by simp, hno, hend, hsees⟩
    | some taken =>
      obtain ⟨token, next⟩ := taken
      have hlt := Progress.length_of_accept hknows hsees hend haccept
      obtain ⟨mid, hfield, hword, hstands⟩ :=
        Progress.field_of_accept hknows hsees hend haccept
      have hmid : FieldEnd mid := by
        obtain ⟨-, -, -, hstop⟩ := hfield
        exact hstop
      obtain ⟨rest, hfields, hwords, hrest⟩ := ih hstands.sees hmid (by omega)
      simp only [Progress.acceptUpTo, haccept]
      refine ⟨rest, .cons hfield hfields, ?_, hrest⟩
      intro found hmem
      rcases List.mem_cons.mp hmem with rfl | hmem
      · exact hword
      · exact hwords found hmem

/-- Fields behind which no other comes are all taken. -/
theorem acceptUpTo_of_fields (hknows : request.Knows Word) {limit : Nat} {progress : Progress}
    {cs rest : List Char} {found : List (TokenKind × String)} (hsees : progress.Sees cs)
    (hend : FieldEnd cs) (hlimit : progress.cursor.rest.length ≤ limit)
    (hfields : Fields cs (found.map Prod.snd) rest)
    (hwords : ∀ pair ∈ found, Word pair.1 pair.2.toList) (hno : NoField Word rest) :
    (progress.acceptUpTo request limit).1.map (fun token => (token.kind, token.text)) = found ∧
      FieldEnd rest ∧ (progress.acceptUpTo request limit).2.Sees rest := by
  induction found generalizing progress cs limit with
  | nil =>
    cases hfields
    have haccept := (noField_iff hknows hsees hend).mp hno
    cases limit with
    | zero => exact ⟨rfl, hend, hsees⟩
    | succ limit =>
      simp only [Progress.acceptUpTo, haccept]
      exact ⟨rfl, hend, hsees⟩
  | cons pair found ih =>
    cases hfields with
    | cons hfield hfields =>
      have hword := hwords pair List.mem_cons_self
      obtain ⟨token, next, haccept, hkind, htext, hstands⟩ :=
        Progress.accept_of_field hknows hsees hfield hword
      have hlt := Progress.length_of_accept hknows hsees hend haccept
      obtain ⟨-, -, -, hmid⟩ := hfield
      cases limit with
      | zero => omega
      | succ limit =>
        have hle : next.cursor.rest.length ≤ limit := by omega
        obtain ⟨hmap, hlater⟩ := ih hstands.sees hmid hle hfields
          fun other hmem => hwords other (List.mem_cons_of_mem _ hmem)
        simp only [Progress.acceptUpTo, haccept, List.map_cons, hmap, hkind, htext]
        exact ⟨trivial, hlater⟩

/-- Tokens are taken up to the first place where no field has a known word. -/
theorem realizes_many (hknows : request.Knows Word) :
    Realizes (List.map fun token : Token => (token.kind, token.text)) (many request)
      (fun cs found rest => Fields cs (found.map Prod.snd) rest ∧
        (∀ pair ∈ found, Word pair.1 pair.2.toList) ∧ NoField Word rest) where
  sound {progress later cs value} hsees hend hr := by
    simp only [many, Progress.acceptAll, Prod.mk.injEq, Except.ok.injEq] at hr
    obtain ⟨rfl, rfl⟩ := hr
    obtain ⟨rest, hfields, hwords, hno, hrest, hlater⟩ :=
      fields_of_acceptUpTo hknows hsees hend (Nat.le_refl _)
    refine ⟨rest, ⟨?_, ?_, hno⟩, hrest, hlater⟩
    · rw [List.map_map]
      exact hfields
    · intro pair hmem
      obtain ⟨token, htoken, rfl⟩ := List.mem_map.mp hmem
      exact hwords token htoken
  complete {progress cs rest shown} hsees hend hphrase := by
    obtain ⟨hfields, hwords, hno⟩ := hphrase
    obtain ⟨hmap, hrest, hlater⟩ :=
      acceptUpTo_of_fields hknows hsees hend (Nat.le_refl _) hfields hwords hno
    exact ⟨_, _, rfl, hmap, hrest, hlater⟩

/-- All that is left of a line behind blanks, where anything is. -/
def Remainder (cs : List Char) (found : Option String) (rest : List Char) : Prop :=
  rest = [] ∧ match found with
    | some text => text.toList ≠ [] ∧ text.toList = cs.dropWhile isBlank
    | none => Blanks cs

/-- The rest of a line is taken whole, unless it is blank. -/
theorem optional_remainder {progress : Progress} {cs : List Char} (hsees : progress.Sees cs) :
    (Blanks cs ∧ optional .remainder progress = (.ok none, progress) ∧ progress.Sees []) ∨
      cs.dropWhile isBlank ≠ [] ∧ ∃ token later,
        optional .remainder progress = (.ok (some token), later) ∧
          token.text = String.ofList (cs.dropWhile isBlank) ∧ later.Sees [] := by
  by_cases hempty : cs.dropWhile isBlank = []
  · have hunread := hsees.trans hempty
    have haccept : progress.accept .remainder = none := by
      rw [Progress.accept_eq_none_of_unread rfl, hunread]
      rfl
    exact .inl ⟨dropWhile_eq_nil_iff_blanks.mp hempty, by simp [optional, haccept], hunread⟩
  · have hunread : progress.cursor.unread = cs.dropWhile isBlank ++ [] := by
      rw [List.append_nil]
      exact hsees
    have hanswer : Request.remainder.recogniser progress.cursor.skipBlanks
        (cs.dropWhile isBlank ++ []) = some ⟨.remainder, (cs.dropWhile isBlank).length⟩ := by
      simp [Request.recogniser, Recogniser.remainder, hempty]
    obtain ⟨token, later, haccept, -, htext, hstands⟩ :=
      Progress.accept_of_recogniser rfl hempty hunread hanswer
    exact .inr ⟨hempty, token, later, by simp [optional, haccept], htext, hstands.sees⟩

/-- What follows the name of a command is all that is left of its line. -/
theorem realizes_remainder :
    Realizes (Option.map Token.text) (optional .remainder) Remainder := by
  constructor
  · intro progress later cs value hsees hend hr
    rcases optional_remainder hsees with ⟨hblanks, hnone, hnil⟩ |
      ⟨hne, token, next, hsome, htext, hnil⟩
    · rw [hnone, Prod.mk.injEq, Except.ok.injEq] at hr
      obtain ⟨rfl, rfl⟩ := hr
      exact ⟨[], ⟨rfl, hblanks⟩, fieldEnd_nil, hnil⟩
    · rw [hsome, Prod.mk.injEq, Except.ok.injEq] at hr
      obtain ⟨rfl, rfl⟩ := hr
      refine ⟨[], ⟨rfl, ?_⟩, fieldEnd_nil, hnil⟩
      have hlist : token.text.toList = cs.dropWhile isBlank := by
        rw [htext, String.toList_ofList]
      exact ⟨hlist.symm ▸ hne, hlist⟩
  · intro progress cs rest shown hsees hend hphrase
    obtain ⟨rfl, hfound⟩ := hphrase
    rcases optional_remainder hsees with ⟨hblanks, hnone, hnil⟩ |
      ⟨hne, token, next, hsome, htext, hnil⟩
    · cases shown with
      | none => exact ⟨none, progress, hnone, rfl, fieldEnd_nil, hnil⟩
      | some text =>
        have hempty := hfound.2.trans (dropWhile_eq_nil_iff_blanks.mpr hblanks)
        exact absurd hempty hfound.1
    · cases shown with
      | none => exact absurd (dropWhile_eq_nil_iff_blanks.mpr hfound) hne
      | some text =>
        refine ⟨some token, next, hsome, ?_, fieldEnd_nil, hnil⟩
        rw [Option.map_some, htext, ← hfound.2, String.ofList_toList]

/-- Nothing but blanks may be left. -/
theorem realizes_finish :
    Realizes id finish (fun cs _ rest => Blanks cs ∧ rest = cs) where
  sound {progress later cs value} hsees hend hr := by
    simp only [finish] at hr
    split at hr
    · next hatEnd =>
      obtain ⟨-, rfl⟩ := Prod.mk.inj hr
      rw [Cursor.atEnd, List.isEmpty_iff] at hatEnd
      have hblanks := dropWhile_eq_nil_iff_blanks.mp (hsees.symm.trans hatEnd)
      exact ⟨cs, ⟨hblanks, rfl⟩, hend, hsees⟩
    · simp at hr
  complete {progress cs rest shown} hsees hend hphrase := by
    obtain ⟨hblanks, rfl⟩ := hphrase
    have hatEnd : progress.cursor.atEnd = true := by
      rw [Cursor.atEnd, List.isEmpty_iff]
      exact hsees.trans (dropWhile_eq_nil_iff_blanks.mpr hblanks)
    exact ⟨shown, progress, by rw [finish, if_pos hatEnd], rfl, hend, hsees⟩

end Reading

end RcScript
