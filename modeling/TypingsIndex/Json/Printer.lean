import TypingsIndex.Json.Value
import TypingsIndex.Text.Basic

/-!
# Printing JSON

Two layouts. The compact one has no blanks at all and so never contains a line feed, whatever the
texts inside are; the pretty one puts every item and member on a line of its own, two blanks further
in than what encloses it, and writes empty containers as `[]` and `{}`.

In a string, quotes, backslashes and the characters below U+0020 are escaped, the latter with their
short escapes where there is one; all else stands for itself.
-/

set_option autoImplicit false

namespace TypingsIndex.Json

open Text (hexDigit)

/-- A character as it stands in a JSON string. -/
def escape (c : Char) : List Char :=
  if c = '"' then ['\\', '"']
  else if c = '\\' then ['\\', '\\']
  else if c = '\x08' then ['\\', 'b']
  else if c = '\t' then ['\\', 't']
  else if c = '\n' then ['\\', 'n']
  else if c = '\x0c' then ['\\', 'f']
  else if c = '\r' then ['\\', 'r']
  else if c.toNat < 0x20 then
    ['\\', 'u', '0', '0', hexDigit (c.toNat / 16), hexDigit (c.toNat % 16)]
  else [c]

/-- A text as a JSON string. -/
def quote (text : String) : List Char :=
  '"' :: text.toList.flatMap escape ++ ['"']

mutual

/-- The compact layout of a value. -/
def compact : Json → List Char
  | .null => "null".toList
  | .bool true => "true".toList
  | .bool false => "false".toList
  | .number literal => literal.toList
  | .string text => quote text
  | .array items => '[' :: compactItems items ++ [']']
  | .object members => '{' :: compactMembers members ++ ['}']

/-- Items in the compact layout, with commas between them. -/
def compactItems : List Json → List Char
  | [] => []
  | [item] => compact item
  | item :: next :: others => compact item ++ ',' :: compactItems (next :: others)

/-- Members in the compact layout, with commas between them. -/
def compactMembers : List (String × Json) → List Char
  | [] => []
  | [(key, value)] => quote key ++ ':' :: compact value
  | (key, value) :: next :: others =>
    quote key ++ ':' :: compact value ++ ',' :: compactMembers (next :: others)

end

/-- The start of a line `depth` levels in. -/
def newLine (depth : Nat) : List Char :=
  '\n' :: List.replicate (2 * depth) ' '

mutual

/-- The pretty layout of a value whose first line is `depth` levels in. -/
def prettyAt (depth : Nat) : Json → List Char
  | .null => "null".toList
  | .bool true => "true".toList
  | .bool false => "false".toList
  | .number literal => literal.toList
  | .string text => quote text
  | .array [] => ['[', ']']
  | .array (item :: others) =>
    '[' :: prettyItems (depth + 1) (item :: others) ++ newLine depth ++ [']']
  | .object [] => ['{', '}']
  | .object (member :: others) =>
    '{' :: prettyMembers (depth + 1) (member :: others) ++ newLine depth ++ ['}']

/-- Items in the pretty layout, each on a line `depth` levels in. -/
def prettyItems (depth : Nat) : List Json → List Char
  | [] => []
  | [item] => newLine depth ++ prettyAt depth item
  | item :: next :: others =>
    newLine depth ++ prettyAt depth item ++ ',' :: prettyItems depth (next :: others)

/-- Members in the pretty layout, each on a line `depth` levels in. -/
def prettyMembers (depth : Nat) : List (String × Json) → List Char
  | [] => []
  | [(key, value)] => newLine depth ++ quote key ++ ':' :: ' ' :: prettyAt depth value
  | (key, value) :: next :: others =>
    newLine depth ++ quote key ++ ':' :: ' ' :: prettyAt depth value
      ++ ',' :: prettyMembers depth (next :: others)

end

/-- The pretty layout of a value. -/
def pretty (value : Json) : List Char :=
  prettyAt 0 value

/-- The compact layout as a string. -/
def compactText (value : Json) : String :=
  String.ofList (compact value)

/-- The pretty layout as a string. -/
def prettyText (value : Json) : String :=
  String.ofList (pretty value)

end TypingsIndex.Json
