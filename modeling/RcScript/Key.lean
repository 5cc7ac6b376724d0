import RcScript.Token.Pattern

/-!
# Keys

A key is one letter, or a letter with a modifier in angle brackets. The type
admits any characters, so that a script can be built with keys that no text
reads back; `ofText?` accepts exactly the notation of the language.
-/

namespace RcScript

/-- A key that can be bound. -/
inductive Key where
  /-- A plain key. -/
  | single (key : Char)
  /-- A key with a modifier, written `<M-k>`. -/
  | compound (modifier key : Char)
  deriving DecidableEq, Repr, Inhabited

namespace Key

/-- The key with the control modifier. -/
def ctrl (key : Char) : Key := compound 'C' key

/-- The key with the alt modifier. -/
def alt (key : Char) : Key := compound 'A' key

/-- The key with the meta modifier. -/
def withMeta (key : Char) : Key := compound 'M' key

/-- The text of a key. -/
def toText : Key → String
  | single key => String.ofList [key]
  | compound modifier key => String.ofList ['<', modifier, '-', key, '>']

/-- The key that a character list is the notation of. -/
def ofChars? : List Char → Option Key
  | [key] => if isLetter key then some (single key) else none
  | ['<', modifier, '-', key, '>'] =>
    if isModifier modifier && isLetter key then some (compound modifier key) else none
  | _ => none

/-- The key that a text is the notation of. -/
def ofText? (text : String) : Option Key := ofChars? text.toList

end Key

end RcScript
