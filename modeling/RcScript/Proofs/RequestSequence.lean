import RcScript.Proofs.CheckedScanner

/-!
# Sequences of requests

Whatever is asked at a cursor, in whatever order and of whatever words and patterns,
nothing of the line is lost: the cursor goes forward and stays on its line, a token is the
piece of the text that it has just passed, and all else that it passes is blank. Tokens and
blanks in their order are therefore the text from the start of the line to the cursor. The
byte-order mark at the very start of a text counts as a blank here. An empty word is
granted as an empty token, so that tokens alone need not move the cursor.
-/

namespace RcScript

open Text

/-- What can be demanded at a cursor. -/
inductive Demand where
  /-- To move past blanks. -/
  | skipBlanks
  /-- To tell whether only blanks are left, which moves past them. -/
  | atEnd
  /-- To answer a request. -/
  | request (request : Request)
  deriving DecidableEq, Repr

/-- Skipping from byte `start` of a text leads to `place`, on a line that ends at `stop`. -/
structure SkipsTo (text : List Char) (start place stop : Nat) : Prop where
  /-- Skipping does not go back. -/
  forward : start ≤ place
  /-- Only blanks are skipped, and a mark at the start of the text. -/
  skipped : BlankBetween text start place
  /-- What follows on the line, if anything does, is not to be skipped. -/
  stays : ∀ c ∈ (sliceBytes place stop text).head?,
    isBlank c = false ∧ (place = 0 → c ≠ byteOrderMark)

/-- Characters that some tokens spell in their order, from byte `start` of a text on, with
blanks before, between and behind them. A token may be empty. -/
inductive SpelledFrom (start : Nat) : List Char → List Token → Prop
  | nil : SpelledFrom start [] []
  | gap {before gap : List Char} {tokens : List Token} : SpelledFrom start before tokens →
      Blanks (lineText (start + utf8Length before = 0) gap) →
      SpelledFrom start (before ++ gap) tokens
  | token {before : List Char} {tokens : List Token} {token : Token} :
      SpelledFrom start before tokens → token.span.start = start + utf8Length before →
      SpelledFrom start (before ++ token.text.toList) (tokens ++ [token])

namespace Cursor

/-- Meet a demand. -/
def meet (cursor : Cursor) : Demand → Option Token × Cursor
  | .skipBlanks => (none, cursor.skipBlanks)
  | .atEnd => (none, cursor.skipBlanks)
  | .request request => cursor.answer request

/-- Meet demands one after the other and collect the tokens. -/
def run (cursor : Cursor) : List Demand → List Token × Cursor
  | [] => ([], cursor)
  | demand :: later =>
    let (found, next) := cursor.meet demand
    let (tokens, last) := next.run later
    (found.toList ++ tokens, last)

/-- Where a demand is met. -/
def stand (cursor : Cursor) : Demand → Cursor
  | .skipBlanks => cursor.skipBlanks
  | .atEnd => cursor.skipBlanks
  | .request request => cursor.ready request

/-- What a demand finds there. -/
def sought? (cursor : Cursor) : Demand → Option Lexeme
  | .skipBlanks => none
  | .atEnd => none
  | .request request => (cursor.ready request).lexeme? request

/-- A cursor stands on the line from byte `start` to `stop` of a text. -/
structure StandsOn (cursor : Cursor) (text : List Char) (start stop line : Nat) : Prop where
  /-- The text has the line at its place. -/
  lies : cursor.LiesIn text
  /-- The line starts where it should. -/
  origin : cursor.origin = start
  /-- The line has its number. -/
  number : cursor.line = line
  /-- The line stops where it should. -/
  ends : cursor.lineEnd = stop

/-- A demand is met at a cursor of a line without loss. -/
structure Meets (cursor : Cursor) (text : List Char) (start stop line : Nat)
    (demand : Demand) : Prop where
  /-- The cursor does not go back. -/
  forward : cursor.position ≤ (cursor.meet demand).2.position
  /-- The cursor does not leave the line. -/
  within : (cursor.meet demand).2.position ≤ stop
  /-- A token stands where skipping leads to, unless a mode name was asked for. -/
  opens : demand ≠ .request .modeName → ∀ token ∈ (cursor.meet demand).1,
    SkipsTo text cursor.position token.span.start stop
  /-- A mode name stands at the cursor itself. -/
  opensAt : demand = .request .modeName → ∀ token ∈ (cursor.meet demand).1,
    token.span.start = cursor.position
  /-- A token is the piece of the text up to the new place of the cursor. -/
  spelled : ∀ token ∈ (cursor.meet demand).1,
    token.span.stop = (cursor.meet demand).2.position ∧
      slice? token.span.start token.span.stop text = some token.text.toList
  /-- A token has the line and the column of its first byte. -/
  placed : ∀ token ∈ (cursor.meet demand).1,
    token.span.line = line ∧ token.span.column = token.span.start - start + 1
  /-- Without a token only blanks are passed, and a mark at the start of the text. -/
  missed : (cursor.meet demand).1 = none →
    BlankBetween text cursor.position (cursor.meet demand).2.position
  /-- Where no mode name is found, nothing is passed. -/
  stays : demand = .request .modeName → (cursor.meet demand).1 = none →
    (cursor.meet demand).2 = cursor
  /-- Only where nothing but blanks is left is there no next token. -/
  exhausted : ∀ allowed, demand = .request (.next allowed) → (cursor.meet demand).1 = none →
    BlankBetween text cursor.position stop

/-- A demand is met with what is found where the cursor then stands. -/
theorem meet_eq (cursor : Cursor) (demand : Demand) :
    cursor.meet demand = (cursor.stand demand).grant (cursor.sought? demand) := by
  cases demand <;> rfl

/-- Blanks are skipped before any demand is met but that for a mode name. -/
theorem stand_eq_skipBlanks (cursor : Cursor) {demand : Demand}
    (h : demand ≠ .request .modeName) : cursor.stand demand = cursor.skipBlanks := by
  cases demand with
  | skipBlanks => rfl
  | atEnd => rfl
  | request request =>
    cases request
    case modeName => exact absurd rfl h
    all_goals rfl

/-- Every demand is met where some request is. -/
theorem exists_stand_eq_ready (cursor : Cursor) (demand : Demand) :
    ∃ request, cursor.stand demand = cursor.ready request := by
  cases demand with
  | skipBlanks => exact ⟨.remainder, rfl⟩
  | atEnd => exact ⟨.remainder, rfl⟩
  | request request => exact ⟨request, rfl⟩

/-- Getting ready for a demand does not go back. -/
theorem position_le_stand (cursor : Cursor) (demand : Demand) :
    cursor.position ≤ (cursor.stand demand).position := by
  by_cases hmode : demand = .request .modeName
  · rw [hmode]
    exact Nat.le_refl _
  · rw [stand_eq_skipBlanks cursor hmode, skipBlanks, advance_position]
    omega

/-- Taking a token does not go back. -/
theorem position_le_grant (cursor : Cursor) (found : Option Lexeme) :
    cursor.position ≤ (cursor.grant found).2.position := by
  cases found with
  | none => exact Nat.le_refl _
  | some lexeme =>
    rw [grant, advance_position]
    omega

/-- No token is taken only where none was found. -/
theorem eq_none_of_grant {cursor : Cursor} {found : Option Lexeme}
    (h : (cursor.grant found).1 = none) : found = none := by
  cases found with
  | none => rfl
  | some lexeme => simp [grant] at h

/-- A token that is granted is passed. -/
theorem exists_lexeme_of_grant {cursor : Cursor} {found : Option Lexeme} {token : Token}
    (h : token ∈ (cursor.grant found).1) : ∃ lexeme, token = cursor.token lexeme ∧
      (cursor.grant found).2 = cursor.advance lexeme.count := by
  cases found with
  | none => simp [grant] at h
  | some lexeme => exact ⟨lexeme, (Option.some.inj h).symm, rfl⟩

/-- There is a next token unless nothing is left. -/
theorem rest_eq_nil_of_next {cursor : Cursor} {allowed : List Pattern}
    (h : cursor.lexeme? (.next allowed) = none) : cursor.rest = [] := by
  have hremainder : Recogniser.remainder cursor.rest = none := (Option.or_eq_none_iff.mp h).2
  rw [Recogniser.remainder] at hremainder
  split at hremainder
  · next hempty => exact List.isEmpty_iff.mp hempty
  · simp at hremainder

/-- Nothing that stands behind the blanks is skipped. -/
theorem head?_skipBlanks (cursor : Cursor) :
    ∀ c ∈ cursor.skipBlanks.rest.head?,
      isBlank c = false ∧ (cursor.skipBlanks.position = 0 → c ≠ byteOrderMark) := by
  intro c hhead
  obtain ⟨later, hrest⟩ := List.head?_eq_some_iff.mp hhead
  have hdrop := cursor.unread_eq
  rw [unread, hrest] at hdrop
  have hmark := cursor.atMark_skipBlanks
  refine ⟨Grammar.isBlank_of_dropWhile hdrop.symm, ?_⟩
  rintro hposition rfl
  simp [atMark, hposition, hrest] at hmark

namespace StandsOn

variable {cursor : Cursor} {text : List Char} {start stop line : Nat}

/-- A cursor that advances stays on its line. -/
theorem advance (h : cursor.StandsOn text start stop line) (count : Nat) :
    (cursor.advance count).StandsOn text start stop line :=
  ⟨h.lies.advance count, h.origin, h.number, (lineEnd_advance cursor count).trans h.ends⟩

/-- A cursor that gets ready for a demand stays on its line. -/
theorem stand (h : cursor.StandsOn text start stop line) (demand : Demand) :
    (cursor.stand demand).StandsOn text start stop line := by
  by_cases hmode : demand = .request .modeName
  · rw [hmode]
    exact h
  · rw [stand_eq_skipBlanks cursor hmode]
    exact h.advance _

/-- A cursor that takes a token stays on its line. -/
theorem grant (h : cursor.StandsOn text start stop line) (found : Option Lexeme) :
    (cursor.grant found).2.StandsOn text start stop line := by
  cases found with
  | none => exact h
  | some lexeme => exact h.advance lexeme.count

/-- A cursor that meets a demand stays on its line. -/
theorem meet (h : cursor.StandsOn text start stop line) (demand : Demand) :
    (cursor.meet demand).2.StandsOn text start stop line := by
  rw [meet_eq]
  exact (h.stand demand).grant _

/-- A cursor that meets demand after demand stays on its line. -/
theorem run (h : cursor.StandsOn text start stop line) (demands : List Demand) :
    (cursor.run demands).2.StandsOn text start stop line := by
  induction demands generalizing cursor with
  | nil => exact h
  | cons demand later ih => exact ih (h.meet demand)

/-- A cursor on a line does not stand before its start. -/
theorem start_le (h : cursor.StandsOn text start stop line) : start ≤ cursor.position := by
  rw [← h.origin]
  exact Nat.le_add_right _ _

/-- A cursor on a line does not stand behind its end. -/
theorem le_stop (h : cursor.StandsOn text start stop line) : cursor.position ≤ stop := by
  rw [← h.ends]
  exact Nat.le_add_right _ _

/-- What is left of the line is the text up to its end. -/
theorem sliceBytes_rest (h : cursor.StandsOn text start stop line) :
    sliceBytes cursor.position stop text = cursor.rest := by
  have hrest := h.lies.rest_scanner
  rw [← h.ends]
  exact (slice?_eq_some_iff.mp hrest).2.2.2.2

/-- What was passed of the line is the text from its start. -/
theorem sliceBytes_before (h : cursor.StandsOn text start stop line) :
    sliceBytes start cursor.position text = cursor.before := by
  have hbefore := h.lies.slice?_before
  rw [h.origin] at hbefore
  exact (slice?_eq_some_iff.mp hbefore).2.2.2.2

/-- Only blanks stand before the place where a demand is met. -/
theorem blankBetween_stand (h : cursor.StandsOn text start stop line) (demand : Demand) :
    BlankBetween text cursor.position (cursor.stand demand).position := by
  obtain ⟨request, hready⟩ := cursor.exists_stand_eq_ready demand
  obtain ⟨gap, hbefore, hgap⟩ := cursor.before_ready request
  obtain ⟨horigin, -, hcontent⟩ := cursor.ready_line request
  have hcut : cursor.content = cursor.before ++ (gap ++ (cursor.ready request).rest) := by
    rw [← hcontent, content, hbefore, List.append_assoc]
  rw [cursor.position_eq] at hgap
  rw [hready, position_eq, position_eq, horigin, hbefore]
  exact SourceLine.LiesIn.blankBetween h.lies hcut hgap

/-- Every demand is met without loss. Where there is no next token, nothing is left behind the
blanks, which therefore reach to the end of the line. -/
theorem meets (h : cursor.StandsOn text start stop line) (demand : Demand) :
    cursor.Meets text start stop line demand := by
  have hstand := h.stand demand
  have hgap := h.blankBetween_stand demand
  have hforward := cursor.position_le_stand demand
  constructor
  case within => exact (h.meet demand).le_stop
  all_goals rw [meet_eq]
  case forward => exact Nat.le_trans hforward (position_le_grant _ _)
  case opens =>
    intro hmode token htoken
    obtain ⟨lexeme, rfl, -⟩ := exists_lexeme_of_grant htoken
    refine ⟨hforward, hgap, ?_⟩
    rw [stand_eq_skipBlanks cursor hmode] at hstand ⊢
    have hrest : sliceBytes (cursor.skipBlanks.token lexeme).span.start stop text =
        cursor.skipBlanks.rest := hstand.sliceBytes_rest
    rw [hrest]
    exact cursor.head?_skipBlanks
  case opensAt =>
    intro hmode token htoken
    obtain ⟨lexeme, rfl, -⟩ := exists_lexeme_of_grant htoken
    rw [hmode]
    rfl
  case spelled =>
    intro token htoken
    obtain ⟨lexeme, rfl, hlater⟩ := exists_lexeme_of_grant htoken
    rw [hlater, advance_position]
    refine ⟨rfl, ?_⟩
    rw [token, String.toList_ofList]
    exact hstand.lies.slice?_take lexeme.count
  case placed =>
    intro token htoken
    obtain ⟨lexeme, rfl, -⟩ := exists_lexeme_of_grant htoken
    refine ⟨hstand.number, ?_⟩
    have horigin := hstand.origin
    simp only [token, position]
    omega
  case missed =>
    intro hnone
    rw [eq_none_of_grant hnone]
    exact hgap
  case stays =>
    intro hmode hnone
    rw [eq_none_of_grant hnone, hmode]
    rfl
  case exhausted =>
    rintro allowed rfl hnone
    have hrest : (cursor.stand (.request (.next allowed))).rest = [] :=
      rest_eq_nil_of_next (eq_none_of_grant hnone)
    have hends := hstand.ends
    rw [lineEnd, hrest, utf8Length_nil, Nat.add_zero] at hends
    rw [← hends]
    exact hgap

/-- What was passed stays spelled when a demand is met. -/
theorem spelledFrom_meet {tokens : List Token} (h : cursor.StandsOn text start stop line)
    (hspelled : SpelledFrom start cursor.before tokens) (demand : Demand) :
    SpelledFrom start (cursor.meet demand).2.before
      (tokens ++ (cursor.meet demand).1.toList) := by
  obtain ⟨request, hready⟩ := cursor.exists_stand_eq_ready demand
  obtain ⟨gap, hbefore, hgap⟩ := cursor.before_ready request
  rw [cursor.position_eq, h.origin] at hgap
  have hstand := hspelled.gap hgap
  rw [← hbefore, ← hready] at hstand
  rw [meet_eq]
  cases cursor.sought? demand with
  | none =>
    rw [Cursor.grant, Option.toList_none, List.append_nil]
    exact hstand
  | some lexeme =>
    have hplace : ((cursor.stand demand).token lexeme).span.start =
        start + utf8Length (cursor.stand demand).before := by
      rw [← (h.stand demand).origin, ← position_eq, token]
    have htoken := hstand.token hplace
    rw [token, String.toList_ofList, ← before_advance] at htoken
    exact htoken

/-- What was passed stays spelled along any demands. -/
theorem spelledFrom_run {tokens : List Token} (h : cursor.StandsOn text start stop line)
    (hspelled : SpelledFrom start cursor.before tokens) (demands : List Demand) :
    SpelledFrom start (cursor.run demands).2.before (tokens ++ (cursor.run demands).1) := by
  induction demands generalizing cursor tokens with
  | nil =>
    rw [Cursor.run, List.append_nil]
    exact hspelled
  | cons demand later ih =>
    rw [Cursor.run, ← List.append_assoc]
    exact ih (h.meet demand) (h.spelledFrom_meet hspelled demand)

end StandsOn

/-- The cursor at the start of a line stands on it. -/
theorem standsOn_ofText {text : String} {start stop : Nat} (line : Nat) (hle : start ≤ stop)
    (hstart : isBoundary start text.toList = true) (hstop : isBoundary stop text.toList = true) :
    (ofText text start stop line).StandsOn text.toList start stop line := by
  have hslice : slice? start stop text.toList = some (sliceBytes start stop text.toList) :=
    slice?_eq_some_iff.mpr ⟨hle, le_of_isBoundary hstop, hstart, hstop, rfl⟩
  obtain ⟨prior, after, htext, hprior, hends⟩ := exists_of_slice?_eq_some hslice
  rw [utf8Length_append, hprior] at hends
  exact ⟨⟨prior, after, htext, hprior⟩, rfl, rfl, hends⟩

/-- Meeting some demands from byte `start` of a text on, on a line that ends at `stop`,
loses nothing of the line. -/
structure Lossless (text : String) (start stop line : Nat) (demands : List Demand) : Prop where
  /-- The cursor stays on the line. -/
  inside : start ≤ ((ofText text start stop line).run demands).2.position ∧
    ((ofText text start stop line).run demands).2.position ≤ stop
  /-- The tokens and the blanks in their order are the text that was passed. -/
  spelled : SpelledFrom start
    (sliceBytes start ((ofText text start stop line).run demands).2.position text.toList)
    ((ofText text start stop line).run demands).1
  /-- Whatever is demanded next is met without loss. -/
  next : ∀ demand, ((ofText text start stop line).run demands).2.Meets text.toList start stop
    line demand

/-- Whatever is demanded on a line, in whatever order and however often, nothing of the
line is lost. -/
theorem lossless_run {text : String} {start stop : Nat} (line : Nat) (hle : start ≤ stop)
    (hstart : isBoundary start text.toList = true) (hstop : isBoundary stop text.toList = true)
    (demands : List Demand) : Lossless text start stop line demands := by
  have hstands := standsOn_ofText line hle hstart hstop
  have hreached := hstands.run demands
  have hspelled := hstands.spelledFrom_run .nil demands
  rw [← hreached.sliceBytes_before] at hspelled
  exact ⟨⟨hreached.start_le, hreached.le_stop⟩, hspelled, hreached.meets⟩

/-- A binding behind a mark is taken apart, and asked for what it has not. -/
theorem lossless_run_binding :
    Lossless "\uFEFFbind --mode=hint j\tx\n" 0 23 1
      [.skipBlanks, .request (.keyword "bind"), .request .modeName, .request (.flag "--mode="),
        .request .modeName, .atEnd, .request (.structural [.number]), .request (.next []),
        .request (.keyword ""), .request (.next [])] :=
  lossless_run 1 (by decide) (by decide +kernel) (by decide +kernel) _

example : (((ofText "\uFEFFbind --mode=hint j\tx\n" 0 23 1).run
      [.skipBlanks, .request (.keyword "bind"), .request .modeName, .request (.flag "--mode="),
        .request .modeName, .atEnd, .request (.structural [.number]), .request (.next []),
        .request (.keyword ""), .request (.next [])]).1.map fun token =>
      (token.kind, token.text, token.span.start)) =
    [(.keyword, "bind", 3), (.flag, "--mode=", 8), (.modeName, "hint", 15),
      (.remainder, "j\tx", 20), (.keyword, "", 23)] := by
  decide +kernel

end Cursor

end RcScript
