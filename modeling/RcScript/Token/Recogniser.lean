import RcScript.Event
import RcScript.Mode
import RcScript.Token.Pattern
import RcScript.Vocabulary

/-!
# Recognisers

A recogniser looks at the start of a text and answers with a kind and a number
of characters, or not at all. It never looks behind its start. Words that must
stand alone are recognised only when a blank or the end of the text follows.
-/

namespace RcScript

open Text

/-- A recognised start of a text. -/
structure Lexeme where
  /-- What the start was recognised as. -/
  kind : TokenKind
  /-- Number of characters recognised. -/
  count : Nat
  deriving DecidableEq, Repr

/-- A way to recognise the start of a text. -/
abbrev Recogniser := List Char → Option Lexeme

/-- Whether a blank or the end of the text follows the first `count` characters. -/
def endsWord (count : Nat) (cs : List Char) : Bool := (cs.drop count).head?.all isBlank

namespace Recogniser

/-- Recognise the given word, standing alone. -/
def keyword (word : String) : Recogniser := fun cs =>
  let count := word.toList.length
  if word.toList.isPrefixOf cs && endsWord count cs then some ⟨.keyword, count⟩ else none

/-- Recognise the given flag. A flag that ends in `=` takes the value directly
after it; any other stands alone. -/
def flag (word : String) : Recogniser := fun cs =>
  let count := word.toList.length
  if word.toList.isPrefixOf cs && (word.toList.getLast? == some '=' || endsWord count cs) then
    some ⟨.flag, count⟩
  else none

/-- Recognise the run of word characters if it stands alone and is one of `names`. -/
def named (kind : TokenKind) (names : List String) : Recogniser := fun cs =>
  let count := runLength isWordChar cs
  if names.contains (String.ofList (cs.take count)) && endsWord count cs then some ⟨kind, count⟩
  else none

/-- Recognise a mode name. -/
def modeName : Recogniser := named .modeName (Mode.all.map Mode.name)

/-- Recognise an event name. -/
def eventName : Recogniser := named .eventName (Event.all.map Event.name)

/-- Number of characters of the longest listed command that the text starts with. -/
def listedCount (cs : List Char) : Nat :=
  ((commandNames.map String.toList).filter fun name => name.isPrefixOf cs).foldl
    (fun count name => max count name.length) 0

/-- Recognise a command name, which is a listed command or an identifier, at the
longer of the two, standing alone. -/
def commandName : Recogniser := fun cs =>
  let count := max (listedCount cs) ((Pattern.identifier.matchCount cs).getD 0)
  if 0 < count && endsWord count cs then some ⟨.identifier, count⟩ else none

/-- Recognise the longest match of the allowed patterns. -/
def structural (allowed : List Pattern) : Recogniser := fun cs =>
  (Pattern.longest allowed cs).map fun found => ⟨found.1.tokenKind, found.2⟩

/-- Recognise the longest match of the allowed patterns, standing alone. -/
def wholeWord (allowed : List Pattern) : Recogniser := fun cs =>
  (structural allowed cs).filter fun lexeme => endsWord lexeme.count cs

/-- Recognise everything that is left, unless nothing is. -/
def remainder : Recogniser := fun cs =>
  if cs.isEmpty then none else some ⟨.remainder, cs.length⟩

/-- Recognise with the first recogniser, or else with the second. -/
def orElse (first second : Recogniser) : Recogniser := fun cs => (first cs).or (second cs)

/-- Recognise a quote mark. -/
def quoteMark : Recogniser := fun cs =>
  if cs.head? == some '"' then some ⟨.quoteMark, 1⟩ else none

end Recogniser

end RcScript
