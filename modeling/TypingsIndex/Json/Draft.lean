import TypingsIndex.Json.Value
import TypingsIndex.Text.Basic

/-!
# Reading JSON as far as it goes

A text that is meant to be JSON may break off anywhere. What stands before its first fault is kept as
a *draft*, with `torn` at the place of the fault, because whoever interprets the text meets its parts
in order: a member that means nothing sensible is reported before a bracket that is missing after it.
A text is JSON exactly if its draft is whole and nothing but blanks follows it.

A draft keeps the members of an object as they are written, repeated keys included. A string whose
escapes leave half of a surrogate pair is well formed but denotes no text, and so does such a key.
-/

set_option autoImplicit false

namespace TypingsIndex.Json

open Text (hexCode?)

/-- What was read of a value. -/
inductive Draft where
  | null
  | bool (value : Bool)
  | number (literal : String)
  /-- A string, with the text that it denotes if it denotes one. -/
  | string (text : Option String)
  | array (items : List Draft)
  /-- Members in the order of the text. The key is missing where the text broke off before the value,
  and where a key denotes no text. -/
  | object (members : List (Option String × Draft))
  /-- Here the text stopped being JSON. -/
  | torn
  deriving Repr, Inhabited

namespace Draft

mutual

/-- Nothing of the value is torn. -/
def isWhole : Draft → Bool
  | .torn => false
  | .array items => areWhole items
  | .object members => membersAreWhole members
  | _ => true

/-- No item is torn anywhere. -/
def areWhole : List Draft → Bool
  | [] => true
  | item :: others => item.isWhole && areWhole others

/-- No member is torn anywhere. -/
def membersAreWhole : List (Option String × Draft) → Bool
  | [] => true
  | (_, value) :: others => value.isWhole && membersAreWhole others

end

mutual

/-- A value as the draft that reading its text gives. -/
def ofJson : Json → Draft
  | .null => .null
  | .bool value => .bool value
  | .number literal => .number literal
  | .string text => .string (some text)
  | .array items => .array (ofItems items)
  | .object members => .object (ofMembers members)

/-- `ofJson` of every item. -/
def ofItems : List Json → List Draft
  | [] => []
  | item :: others => ofJson item :: ofItems others

/-- `ofJson` of every member's value. -/
def ofMembers : List (String × Json) → List (Option String × Draft)
  | [] => []
  | (key, value) :: others => (some key, ofJson value) :: ofMembers others

end

end Draft

/-! ### Scalars -/

/-- The blanks of JSON. -/
def isBlank (c : Char) : Bool :=
  c == ' ' || c == '\n' || c == '\t' || c == '\r'

/-- The text from its first character that is not blank. -/
def skipBlanks (text : List Char) : List Char :=
  text.dropWhile isBlank

/-- A decimal digit. -/
def isDigit (c : Char) : Bool :=
  '0' ≤ c && c ≤ '9'

/-- The digits at the front of a text, if there is one at least, and the rest. -/
def digits? (text : List Char) : Option (List Char × List Char) :=
  let front := text.takeWhile isDigit
  if front.isEmpty then none else some (front, text.dropWhile isDigit)

/-- The integral part of a number: digits of which the first is zero only if it is the only one. -/
def integral? (text : List Char) : Option (List Char × List Char) := do
  let (front, rest) ← digits? text
  if front.head? = some '0' && front.length != 1 then none else some (front, rest)

/-- The fraction of a number, if there is one. -/
def fraction? : List Char → Option (List Char × List Char)
  | '.' :: rest => (digits? rest).map fun (front, rest) => ('.' :: front, rest)
  | rest => some ([], rest)

/-- The exponent of a number, if there is one. -/
def exponent? : List Char → Option (List Char × List Char)
  | c :: rest =>
    if c = 'e' ∨ c = 'E' then
      match rest with
      | '+' :: more => (digits? more).map fun (front, rest) => (c :: '+' :: front, rest)
      | '-' :: more => (digits? more).map fun (front, rest) => (c :: '-' :: front, rest)
      | more => (digits? more).map fun (front, rest) => (c :: front, rest)
    else some ([], c :: rest)
  | [] => some ([], [])

/-- A number without its sign. -/
def unsigned? (text : List Char) : Option (List Char × List Char) := do
  let (whole, rest) ← integral? text
  let (fraction, rest) ← fraction? rest
  let (exponent, rest) ← exponent? rest
  some (whole ++ fraction ++ exponent, rest)

/-- A number as it is written. -/
def number? : List Char → Option (List Char × List Char)
  | '-' :: rest => (unsigned? rest).map fun (front, rest) => ('-' :: front, rest)
  | rest => unsigned? rest

/-- The inside of a string up to its closing quote, as code units: a character for itself or for its
escape, and for a hexadecimal escape its four digits, which may be half of a surrogate pair. -/
def units? : List Char → Option (List Nat × List Char)
  | [] => none
  | '"' :: rest => some ([], rest)
  | '\\' :: 'u' :: a :: b :: c :: d :: rest => do
    let code ← hexCode? a b c d
    let (units, rest) ← units? rest
    some (code :: units, rest)
  | '\\' :: c :: rest => do
    let meaning ← match c with
      | '"' => some '"'
      | '\\' => some '\\'
      | '/' => some '/'
      | 'b' => some '\x08'
      | 'f' => some '\x0c'
      | 'n' => some '\n'
      | 'r' => some '\r'
      | 't' => some '\t'
      | _ => none
    let (units, rest) ← units? rest
    some (meaning.toNat :: units, rest)
  | c :: rest =>
    if c = '\\' ∨ c.toNat < 0x20 then none
    else (units? rest).map fun (units, rest) => (c.toNat :: units, rest)

/-- The first half of a surrogate pair. -/
def isHighSurrogate (unit : Nat) : Bool :=
  0xD800 ≤ unit && unit ≤ 0xDBFF

/-- The second half of a surrogate pair. -/
def isLowSurrogate (unit : Nat) : Bool :=
  0xDC00 ≤ unit && unit ≤ 0xDFFF

/-- The text that code units denote: two halves of a surrogate pair make one character, and half of a
pair denotes nothing. -/
def textOfUnits? : List Nat → Option (List Char)
  | [] => some []
  | [unit] =>
    if isHighSurrogate unit || isLowSurrogate unit then none else some [Char.ofNat unit]
  | unit :: next :: rest =>
    if isHighSurrogate unit then
      if isLowSurrogate next then
        (textOfUnits? rest).map
          (Char.ofNat (0x10000 + (unit - 0xD800) * 0x400 + (next - 0xDC00)) :: ·)
      else none
    else if isLowSurrogate unit then none
    else (textOfUnits? (next :: rest)).map (Char.ofNat unit :: ·)

/-- A string after its opening quote: the text that it denotes, if any, and the rest. -/
def string? (text : List Char) : Option (Option String × List Char) :=
  (units? text).map fun (units, rest) => ((textOfUnits? units).map String.ofList, rest)

/-! ### Values

Reading counts down a budget of steps. Two steps for each character are more than any text takes. -/

namespace Draft

mutual

/-- Read one value. -/
def readValue : Nat → List Char → Draft × List Char
  | 0, text => (.torn, text)
  | budget + 1, text =>
    match skipBlanks text with
    | [] => (.torn, [])
    | '"' :: rest =>
      match string? rest with
      | some (text, rest) => (.string text, rest)
      | none => (.torn, rest)
    | '[' :: rest =>
      match skipBlanks rest with
      | ']' :: rest => (.array [], rest)
      | rest =>
        let (items, rest) := readItems budget rest
        (.array items, rest)
    | '{' :: rest =>
      match skipBlanks rest with
      | '}' :: rest => (.object [], rest)
      | rest =>
        let (members, rest) := readMembers budget rest
        (.object members, rest)
    | 'n' :: 'u' :: 'l' :: 'l' :: rest => (.null, rest)
    | 't' :: 'r' :: 'u' :: 'e' :: rest => (.bool true, rest)
    | 'f' :: 'a' :: 'l' :: 's' :: 'e' :: rest => (.bool false, rest)
    | rest =>
      match number? rest with
      | some (literal, rest) => (.number (String.ofList literal), rest)
      | none => (.torn, rest)

/-- Read the items of an array that has one at least, and its closing bracket. -/
def readItems : Nat → List Char → List Draft × List Char
  | 0, text => ([.torn], text)
  | budget + 1, text =>
    let (item, rest) := readValue budget text
    match item with
    | .torn => ([.torn], rest)
    | item =>
      match skipBlanks rest with
      | ',' :: rest =>
        let (others, rest) := readItems budget rest
        (item :: others, rest)
      | ']' :: rest => ([item], rest)
      | rest => ([item, .torn], rest)

/-- Read the members of an object that has one at least, and its closing bracket. -/
def readMembers : Nat → List Char → List (Option String × Draft) × List Char
  | 0, text => ([(none, .torn)], text)
  | budget + 1, text =>
    match skipBlanks text with
    | '"' :: rest =>
      match string? rest with
      | none => ([(none, .torn)], rest)
      | some (key, rest) =>
        match skipBlanks rest with
        | ':' :: rest =>
          let (value, rest) := readValue budget rest
          match value with
          | .torn => ([(key, .torn)], rest)
          | value =>
            match skipBlanks rest with
            | ',' :: rest =>
              let (others, rest) := readMembers budget rest
              ((key, value) :: others, rest)
            | '}' :: rest => ([(key, value)], rest)
            | rest => ([(key, value), (none, .torn)], rest)
        | rest => ([(none, .torn)], rest)
    | rest => ([(none, .torn)], rest)

end

/-- The draft of the value that a text starts with, and the text after it. -/
def read (text : List Char) : Draft × List Char :=
  readValue (2 * text.length + 1) text

end Draft

end TypingsIndex.Json
