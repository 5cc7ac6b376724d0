/-!
# Byte measures of character lists

Locations are counted in bytes of the UTF-8 form while text is handled as a list
of characters. This module holds the measure that ties the two together and the
byte-counted ways to cut a list. An offset inside a character is no boundary:
`charAt?` finds nothing there and `isBoundary` refuses it.
-/

namespace RcScript.Text

/-- Number of bytes that the UTF-8 form of a character list takes. -/
def utf8Length : List Char → Nat
  | [] => 0
  | c :: cs => c.utf8Size + utf8Length cs

/-- The characters after the first `n` bytes. -/
def dropBytes : Nat → List Char → List Char
  | _, [] => []
  | 0, cs => cs
  | n + 1, c :: cs => dropBytes (n + 1 - c.utf8Size) cs

/-- The characters that start within the first `n` bytes. -/
def takeBytes : Nat → List Char → List Char
  | _, [] => []
  | 0, _ => []
  | n + 1, c :: cs => c :: takeBytes (n + 1 - c.utf8Size) cs

/-- Bytes `start` to `stop` of a list; empty when the ends are crossed. -/
def sliceBytes (start stop : Nat) (cs : List Char) : List Char :=
  takeBytes (stop - start) (dropBytes start cs)

/-- Whether byte offset `n` lies between two characters or at an end of the list. -/
def isBoundary : Nat → List Char → Bool
  | 0, _ => true
  | _ + 1, [] => false
  | n + 1, c :: cs => c.utf8Size ≤ n + 1 && isBoundary (n + 1 - c.utf8Size) cs

/-- The character whose first byte is byte `n`, if `n` is a boundary before the end. -/
def charAt? : Nat → List Char → Option Char
  | _, [] => none
  | 0, c :: _ => some c
  | n + 1, c :: cs => if c.utf8Size ≤ n + 1 then charAt? (n + 1 - c.utf8Size) cs else none

/-- The measure is additive over concatenation. -/
theorem utf8Length_append (cs ds : List Char) :
    utf8Length (cs ++ ds) = utf8Length cs + utf8Length ds := by
  induction cs with
  | nil => simp [utf8Length]
  | cons c cs ih => simp [utf8Length, ih, Nat.add_assoc]

/-- The measure does not depend on the order of the characters. -/
theorem utf8Length_reverse (cs : List Char) : utf8Length cs.reverse = utf8Length cs := by
  induction cs with
  | nil => rfl
  | cons c cs ih =>
    rw [List.reverse_cons, utf8Length_append, ih]
    simp only [utf8Length]
    omega

end RcScript.Text
