/-!
# Blanks, white space and the byte-order mark

Two notions of empty text meet in a script. A blank, which separates tokens, is
a space or a tab and nothing else. White space, which ends a domain or URL and
is trimmed from argument text, is the Unicode property `White_Space`. Every
blank is white space; the converse fails, for instance at the no-break space.
-/

namespace RcScript.Text

/-- Whether a character separates tokens: a space or a tab. -/
def isBlank (c : Char) : Bool := c == ' ' || c == '\t'

/-- Inclusive code point ranges of the Unicode property `White_Space`. -/
def whiteSpaceRanges : List (Nat × Nat) :=
  [(0x09, 0x0D), (0x20, 0x20), (0x85, 0x85), (0xA0, 0xA0), (0x1680, 0x1680),
    (0x2000, 0x200A), (0x2028, 0x2029), (0x202F, 0x202F), (0x205F, 0x205F),
    (0x3000, 0x3000)]

/-- Whether a character has the Unicode property `White_Space`. -/
def isWhiteSpace (c : Char) : Bool :=
  whiteSpaceRanges.any fun range => range.1 ≤ c.toNat && c.toNat ≤ range.2

/-- The byte-order mark, skipped like a blank at the very start of a script. -/
def byteOrderMark : Char := '\uFEFF'

/-- A list without its longest run of trailing characters that satisfy `p`. -/
def trimEnd (p : Char → Bool) (cs : List Char) : List Char := (cs.reverse.dropWhile p).reverse

/-- The characters up to the first blank. -/
def firstWord (cs : List Char) : List Char := cs.takeWhile fun c => !isBlank c

end RcScript.Text
