import RcScript.Text.DefaultIgnorable
import RcScript.Text.GraphemeExtend
import RcScript.Text.Hex
import RcScript.Text.Printable

/-!
# Quoted text

Token listings show text between quotes on one line. Five control characters and
the two marks of the notation itself have short escapes. Characters that are not
printable, that leave no mark, or that would combine with the one before them are
written by their code point.
-/

namespace RcScript.Text

/-- A character by its code point. -/
def codePointEscape (c : Char) : List Char := ['\\', 'u', '{'] ++ hexDigits c.toNat ++ ['}']

/-- Whether a character is one of the two halfwidth voicing marks. They extend a
grapheme, but as letters with a width of their own. -/
def isHalfwidthVoicingMark (c : Char) : Bool := c == '\uFF9E' || c == '\uFF9F'

/-- Whether a character would be drawn onto the one before it. -/
def combines (c : Char) : Bool := extendsGrapheme c && !isHalfwidthVoicingMark c

/-- Whether a character is seen as itself within quotes. -/
def isVisible (c : Char) : Bool := isPrintable c && !isDefaultIgnorable c && !combines c

/-- The characters that stand for a character within quotes. -/
def quotedChar (c : Char) : List Char :=
  if c == '\x00' then ['\\', '0']
  else if c == '\t' then ['\\', 't']
  else if c == '\r' then ['\\', 'r']
  else if c == '\n' then ['\\', 'n']
  else if c == '"' then ['\\', '"']
  else if c == '\\' then ['\\', '\\']
  else if isVisible c then [c]
  else codePointEscape c

/-- A text in quotes. -/
def quoted (text : String) : String :=
  String.ofList ('"' :: text.toList.flatMap quotedChar ++ ['"'])

end RcScript.Text
