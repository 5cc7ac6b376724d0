import RcScript.Token
import RcScript.Text.Blank
import RcScript.Text.Utf8

/-!
# Token patterns

Six fixed patterns describe the structural tokens. Each is matched at the start
of a text and answers the length of its longest match. Where several patterns
are allowed at once, the longest match wins, and of equally long ones the
pattern of lower rank.
-/

namespace RcScript

open Text

/-- The shapes of structural tokens. -/
inductive Pattern where
  /-- `<[AaCcMm]-[A-Za-z]>` -/
  | compoundKey
  /-- `[A-Za-z0-9]+\.\S+` -/
  | domain
  /-- `(https?|ftp)://[^\s/$.?#].\S*`, where the dot is any character at all. -/
  | url
  /-- `[0-9]+` -/
  | number
  /-- `[A-Za-z_-]+` -/
  | identifier
  /-- `[A-Za-z]` -/
  | singleKey
  deriving DecidableEq, Repr, Inhabited

/-- Whether a character is one of `A` to `Z` and `a` to `z`. -/
def isLetter (c : Char) : Bool := c.isAlpha

/-- Whether a character is an ASCII letter or digit. -/
def isLabelChar (c : Char) : Bool := c.isAlphanum

/-- Whether a character may stand in an identifier. -/
def isNameChar (c : Char) : Bool := isLetter c || c == '_' || c == '-'

/-- Whether a character may stand in a mode or event name. -/
def isWordChar (c : Char) : Bool := isLabelChar c || c == '_' || c == '-'

/-- Whether a character names a modifier in a compound key. -/
def isModifier (c : Char) : Bool := ['A', 'a', 'C', 'c', 'M', 'm'].contains c

/-- Whether a character may open the host of a URL. -/
def isHostStart (c : Char) : Bool := !isWhiteSpace c && !(['/', '$', '.', '?', '#'].contains c)

/-- Length of the longest leading run of characters that satisfy `p`. -/
def runLength (p : Char → Bool) (cs : List Char) : Nat := (cs.takeWhile p).length

/-- A length, unless it is zero. -/
def positive? : Nat → Option Nat
  | 0 => none
  | n + 1 => some (n + 1)

/-- The schemes of a URL, with the mark that ends them. -/
def schemes : List (List Char) := ["https://".toList, "http://".toList, "ftp://".toList]

namespace Pattern

/-- All patterns in the order that settles matches of equal length. -/
def priority : List Pattern := [compoundKey, domain, url, number, identifier, singleKey]

/-- Place in `priority`. Of two equally long matches the lower rank wins. -/
def rank (pattern : Pattern) : Nat := priority.idxOf pattern

/-- The kind of the tokens that a pattern gives. -/
def tokenKind : Pattern → TokenKind
  | compoundKey => .compoundKey
  | domain => .domain
  | url => .url
  | number => .number
  | identifier => .identifier
  | singleKey => .singleKey

/-- The name of a pattern. -/
def name (pattern : Pattern) : String := pattern.tokenKind.name

/-- The pattern of a name. -/
def ofName? (text : String) : Option Pattern := priority.find? fun pattern => pattern.name == text

/-- Length of a compound key. -/
def matchCompoundKey : List Char → Option Nat
  | '<' :: m :: '-' :: k :: '>' :: _ => if isModifier m && isLetter k then some 5 else none
  | _ => none

/-- Length of a domain pattern: a label, a dot and at least one character more,
up to white space. -/
def matchDomain (cs : List Char) : Option Nat :=
  match positive? (runLength isLabelChar cs) with
  | none => none
  | some label =>
    match cs.drop label with
    | '.' :: rest =>
      (positive? (runLength (fun c => !isWhiteSpace c) rest)).map fun tail => label + 1 + tail
    | _ => none

/-- Length of a URL after its scheme: the first character of the host, any one
character, and then everything up to white space. -/
def matchHost : List Char → Option Nat
  | first :: _ :: rest =>
    if isHostStart first then some (2 + runLength (fun c => !isWhiteSpace c) rest) else none
  | _ => none

/-- Length of a URL. -/
def matchUrl (cs : List Char) : Option Nat :=
  match schemes.find? fun scheme => scheme.isPrefixOf cs with
  | none => none
  | some scheme => (matchHost (cs.drop scheme.length)).map fun host => scheme.length + host

/-- Number of characters of the longest match at the start of a text. -/
def matchCount (pattern : Pattern) (cs : List Char) : Option Nat :=
  match pattern with
  | compoundKey => matchCompoundKey cs
  | domain => matchDomain cs
  | url => matchUrl cs
  | number => positive? (runLength Char.isDigit cs)
  | identifier => positive? (runLength isNameChar cs)
  | singleKey => (cs.head?.filter isLetter).map fun _ => 1

/-- Number of bytes of the longest match at the start of a text. -/
def matchLength (pattern : Pattern) (text : String) : Option Nat :=
  (pattern.matchCount text.toList).map fun count => utf8Length (text.toList.take count)

/-- The better of an earlier match and a later one: the later must be longer. -/
def better (best : Option (Pattern × Nat)) (next : Pattern × Nat) : Option (Pattern × Nat) :=
  match best with
  | some found => if next.2 ≤ found.2 then some found else some next
  | none => some next

/-- The longest match of the allowed patterns, with ties settled by rank. The
order of `allowed` and repetitions in it play no part. -/
def longest (allowed : List Pattern) (cs : List Char) : Option (Pattern × Nat) :=
  ((priority.filter allowed.contains).filterMap fun pattern =>
    (pattern.matchCount cs).map fun count => (pattern, count)).foldl better none

end Pattern

end RcScript
