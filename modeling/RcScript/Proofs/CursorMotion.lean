import RcScript.Grammar
import RcScript.Proofs.ByteCutting

/-!
# Motion of a cursor

A request is answered in two steps: blanks are skipped, unless the request asks
for a mode name, and the recogniser of the request looks at what is left. Only
the byte-order mark ties the outcome to the place of the line in the text: a
cursor at offset zero with the mark ahead skips it. Behind the first token no
cursor is there any more.
-/

namespace RcScript

open Text

namespace Cursor

/-- Whether the mark that is skipped with the blanks is next. -/
def atMark (cursor : Cursor) : Bool :=
  cursor.position == 0 && cursor.rest.head? == some byteOrderMark

/-- Where a request is answered. -/
def ready (cursor : Cursor) (request : Request) : Cursor :=
  if request.skipsBlanks then cursor.skipBlanks else cursor

/-- Advancing leaves what stands behind the characters that were passed. -/
@[simp]
theorem advance_rest (cursor : Cursor) (count : Nat) :
    (cursor.advance count).rest = cursor.rest.drop count := rfl

/-- Advancing passes the first characters of what was left. -/
@[simp]
theorem advance_passed (cursor : Cursor) (count : Nat) :
    (cursor.advance count).passed = (cursor.rest.take count).reverse ++ cursor.passed := rfl

/-- Advancing moves the place by the bytes of the characters that were passed. -/
@[simp]
theorem advance_position (cursor : Cursor) (count : Nat) :
    (cursor.advance count).position =
      cursor.position + utf8Length (cursor.rest.take count) := by
  simp only [position, advance]
  omega

/-- Behind a character that was passed no mark is skipped any more. -/
theorem atMark_advance {cursor : Cursor} {count : Nat} (h : cursor.rest.take count ≠ []) :
    (cursor.advance count).atMark = false := by
  have hp := utf8Length_pos h
  simp only [atMark, advance_position, Bool.and_eq_false_iff, beq_eq_false_iff_ne]
  left
  omega

/-- Moving over no character is not moving. -/
theorem advance_of_take_eq_nil {cursor : Cursor} {count : Nat}
    (h : cursor.rest.take count = []) : cursor.advance count = cursor := by
  have hd : cursor.rest.drop count = cursor.rest := by
    have happ := List.take_append_drop count cursor.rest
    rwa [h, List.nil_append] at happ
  cases cursor
  simp only [advance, Cursor.mk.injEq] at h hd ⊢
  simp [h, hd]

/-- The number of blanks, by whether the mark is next. -/
theorem blankCount_eq (cursor : Cursor) :
    cursor.blankCount = if cursor.atMark then 1 + runLength isBlank cursor.rest.tail
      else runLength isBlank cursor.rest := rfl

end Cursor

namespace Progress

/-- A request is accepted exactly when its recogniser succeeds where it is answered. -/
theorem accept_eq (progress : Progress) (request : Request) :
    progress.accept request =
      ((progress.cursor.ready request).lexeme? request).map fun lexeme =>
        ((progress.cursor.ready request).token lexeme,
          ⟨(progress.cursor.ready request).advance lexeme.count,
            (progress.cursor.ready request).token lexeme :: progress.taken⟩) := by
  simp only [accept, Cursor.answer, Cursor.ready]
  cases hl : (if request.skipsBlanks = true then progress.cursor.skipBlanks
    else progress.cursor).lexeme? request <;> simp

/-- The answer to a request is the token that it takes. -/
theorem answer_fst (progress : Progress) (request : Request) :
    (progress.cursor.answer request).1 = (progress.accept request).map Prod.fst := by
  rw [accept]
  split <;> simp_all

/-- A request that is met adds its token behind the others. -/
theorem tokens_of_accept {progress later : Progress} {request : Request} {token : Token}
    (h : progress.accept request = some (token, later)) :
    later.tokens = progress.tokens ++ [token] := by
  rw [accept_eq, Option.map_eq_some_iff] at h
  obtain ⟨lexeme, -, he⟩ := h
  obtain ⟨rfl, rfl⟩ := Prod.mk.inj he
  exact List.reverse_cons

end Progress

namespace Reading

/-- A required token gives its text, and its want stops where reading stands. -/
theorem need_eq (expected : Expected) (request : Request) (progress : Progress) :
    need expected request progress = match progress.accept request with
      | some (token, later) => (.ok token.text, later)
      | none => (.error (.missing expected), progress) := by
  cases h : progress.accept request <;>
    simp [need, optional, require, missing, bind, pure, h]

end Reading

end RcScript
