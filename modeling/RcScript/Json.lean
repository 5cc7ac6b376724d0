import RcScript.Text.Hex

/-!
# Structured output

A small value type for structured output and its indented text. Objects keep
their fields in the order given. Each list element and each field stands on a
line of its own, two spaces deeper than its parent, and an empty list or object
is written without a line break.
-/

namespace RcScript

open Text

/-- A structured value. Numbers are natural. -/
inductive Json where
  | null
  | number (value : Nat)
  | text (value : String)
  | array (items : List Json)
  | object (fields : List (String × Json))
  deriving Repr, Inhabited

namespace Json

/-- A value or null. -/
def ofOption (encode : α → Json) : Option α → Json
  | none => null
  | some value => encode value

/-- An object of one field, as used for the alternatives of a type. -/
def tagged (tag : String) (value : Json) : Json := object [(tag, value)]

/-- The characters that stand for a character within quotes. Quote, backslash and
the characters below the space are escaped, and nothing else. -/
def escape (c : Char) : List Char :=
  if c == '"' then ['\\', '"']
  else if c == '\\' then ['\\', '\\']
  else if c == '\x08' then ['\\', 'b']
  else if c == '\x0c' then ['\\', 'f']
  else if c == '\n' then ['\\', 'n']
  else if c == '\r' then ['\\', 'r']
  else if c == '\t' then ['\\', 't']
  else if c.toNat < 0x20 then ['\\', 'u'] ++ paddedHex 4 c.toNat
  else [c]

/-- A text in quotes. -/
def quoted (text : String) : String :=
  String.ofList ('"' :: text.toList.flatMap escape ++ ['"'])

/-- The white space before a line at a depth. -/
def indent (depth : Nat) : String := String.ofList (List.replicate (2 * depth) ' ')

/-- Parts between brackets, each on a line of its own. -/
def enclosed (depth : Nat) (opening closing : String) (parts : List String) : String :=
  if parts.isEmpty then opening ++ closing
  else
    opening ++ "\n" ++ String.intercalate ",\n" (parts.map (indent (depth + 1) ++ ·)) ++ "\n" ++
      indent depth ++ closing

mutual

/-- The indented text of a value that starts at a depth. -/
def pretty (depth : Nat) : Json → String
  | null => "null"
  | number value => toString value
  | text value => quoted value
  | array items => enclosed depth "[" "]" (prettyItems (depth + 1) items)
  | object fields => enclosed depth "\x7b" "\x7d" (prettyFields (depth + 1) fields)

/-- The texts of list elements. -/
def prettyItems (depth : Nat) : List Json → List String
  | [] => []
  | item :: items => pretty depth item :: prettyItems depth items

/-- The texts of fields, each with its name. -/
def prettyFields (depth : Nat) : List (String × Json) → List String
  | [] => []
  | (name, value) :: fields =>
    (quoted name ++ ": " ++ pretty depth value) :: prettyFields depth fields

end

end Json

end RcScript
