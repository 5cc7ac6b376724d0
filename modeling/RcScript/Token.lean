import RcScript.Span

/-!
# Tokens

A token is a piece of a line with its kind and location. Its text is the exact
slice of the source that its span covers.
-/

namespace RcScript

/-- What a token was read as. -/
inductive TokenKind where
  /-- A statement keyword such as `bind`. -/
  | keyword
  /-- One of `-s`, `-u` and `--mode=`. -/
  | flag
  /-- The `"` that opens a comment line. -/
  | quoteMark
  /-- A mode name directly after `--mode=`. -/
  | modeName
  /-- An event name of an `autocmd`. -/
  | eventName
  /-- A key with a modifier, such as `<C-j>`. -/
  | compoundKey
  /-- A domain pattern. -/
  | domain
  /-- A URL. -/
  | url
  /-- A run of digits. -/
  | number
  /-- A name, or a command name in command position. -/
  | identifier
  /-- One letter. -/
  | singleKey
  /-- The rest of a line, taken whole. -/
  | remainder
  deriving DecidableEq, Repr, Inhabited

/-- The name that reports and token listings use for a kind. -/
def TokenKind.name : TokenKind → String
  | keyword => "keyword"
  | flag => "flag"
  | quoteMark => "quote_mark"
  | modeName => "bind_mode"
  | eventName => "event"
  | compoundKey => "compound_key"
  | domain => "domain"
  | url => "url"
  | number => "number"
  | identifier => "identifier"
  | singleKey => "single_key"
  | remainder => "raw_remainder"

/-- A piece of a line. -/
structure Token where
  /-- What the piece was read as. -/
  kind : TokenKind
  /-- The piece as written. -/
  text : String
  /-- Where the piece stands. -/
  span : Span
  deriving DecidableEq, Repr, Inhabited

/-- The token moved by `bytes` and `lines`. -/
def Token.shift (token : Token) (bytes lines : Int) : Token :=
  { token with span := token.span.shift bytes lines }

end RcScript
