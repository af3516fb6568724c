/-!
# Texts

Texts are lists of characters here and in every reader of the library. This file has what the readers share: blanks
and the three trims, the pieces of a text between separators, the lines of a text, and hexadecimal digits.
-/

set_option autoImplicit false

namespace TypingsIndex.Text

/-! ## Blanks and trimming

The characters that count as white space around a declaration, a type or a name are the twenty-five code points with
the Unicode property `White_Space`. The trims take blanks from one end or from both and leave what stands between
untouched. -/

/-- Whether a code point lies in one of the closed ranges of a table. -/
def inRanges (ranges : List (Nat × Nat)) (code : Nat) : Bool :=
  ranges.any fun range => range.1 ≤ code && code ≤ range.2

/-- The code points with the property `White_Space`, as closed ranges in rising order. -/
def blankRanges : List (Nat × Nat) :=
  [(0x09, 0x0D), (0x20, 0x20), (0x85, 0x85), (0xA0, 0xA0), (0x1680, 0x1680), (0x2000, 0x200A),
   (0x2028, 0x2029), (0x202F, 0x202F), (0x205F, 0x205F), (0x3000, 0x3000)]

/-- A blank is a character with the property `White_Space`. -/
def isBlank (c : Char) : Bool :=
  inRanges blankRanges c.toNat

/-- The text from its first character that is not blank. -/
def trimStart (text : List Char) : List Char :=
  text.dropWhile isBlank

/-- The text up to its last character that is not blank. -/
def trimEnd (text : List Char) : List Char :=
  (trimStart text.reverse).reverse

/-- The text without the blanks at either end. -/
def trim (text : List Char) : List Char :=
  trimEnd (trimStart text)

/-- The empty text has no blanks to lose at its start. -/
@[simp] theorem trimStart_nil : trimStart [] = [] := rfl

/-- The empty text has no blanks to lose at its end. -/
@[simp] theorem trimEnd_nil : trimEnd [] = [] := rfl

/-- The empty text has no blanks to lose. -/
@[simp] theorem trim_nil : trim [] = [] := rfl

/-- A text that starts with no blank is not trimmed at its start. -/
theorem trimStart_cons_of_not_isBlank {c : Char} (h : isBlank c = false) (text : List Char) :
    trimStart (c :: text) = c :: text := by
  simp [trimStart, h]

/-- Trimming the start makes no text longer. -/
theorem trimStart_length_le (text : List Char) : (trimStart text).length ≤ text.length :=
  (List.dropWhile_sublist _).length_le

/-- Trimming the end makes no text longer. -/
theorem trimEnd_length_le (text : List Char) : (trimEnd text).length ≤ text.length := by
  simpa [trimEnd] using trimStart_length_le text.reverse

/-! ## Splitting at a separator

A text with n separators has n + 1 pieces, the first and the last of which may be empty. -/

/-- The pieces of a text between the occurrences of a separator, in order. -/
def splitAt (separator : Char) : List Char → List (List Char)
  | [] => [[]]
  | c :: rest =>
    if c = separator then [] :: splitAt separator rest
    else
      match splitAt separator rest with
      | [] => [[c]]
      | piece :: others => (c :: piece) :: others

/-- The text after the last occurrence of a separator: all of it if there is none. -/
def afterLast (separator : Char) (text : List Char) : List Char :=
  (splitAt separator text).getLastD []

/-- A split has at least one piece, also that of the empty text. -/
theorem splitAt_ne_nil (separator : Char) (text : List Char) : splitAt separator text ≠ [] := by
  cases text with
  | nil => simp [splitAt]
  | cons c rest =>
    unfold splitAt
    split
    · simp
    · split <;> simp

/-! ## Lines

A line ends at a line feed, and a carriage return right before that line feed belongs to the line's end as well. What
follows the last line feed is a line only if it is not empty, and there a carriage return is an ordinary character. -/

/-- The lines of a text, in order and without their ends. -/
def lines : List Char → List (List Char)
  | [] => []
  | '\n' :: rest => [] :: lines rest
  | '\r' :: '\n' :: rest => [] :: lines rest
  | c :: rest =>
    match lines rest with
    | [] => [[c]]
    | line :: others => (c :: line) :: others

/-- The lines of a string. -/
def linesOf (text : String) : List String :=
  (lines text.toList).map String.ofList

/-- The empty text has no lines. -/
@[simp] theorem lines_nil : lines [] = [] := by simp [lines]

/-- A line feed at the front ends an empty line. -/
@[simp] theorem lines_newline (rest : List Char) : lines ('\n' :: rest) = [] :: lines rest := by
  simp [lines]

/-- A carriage return in front of a line feed belongs to the end of the line. -/
@[simp] theorem lines_carriageReturn_newline (rest : List Char) :
    lines ('\r' :: '\n' :: rest) = [] :: lines rest := by
  simp [lines]

/-! ## Hexadecimal digits

Digits are written in lower case and read in either case. -/

/-- The digit of a value below sixteen. -/
def hexDigit (value : Nat) : Char :=
  if value < 10 then Char.ofNat (48 + value) else Char.ofNat (87 + value)

/-- The value of a digit. -/
def hexValue? (c : Char) : Option Nat :=
  if '0' ≤ c ∧ c ≤ '9' then some (c.toNat - 48)
  else if 'a' ≤ c ∧ c ≤ 'f' then some (c.toNat - 87)
  else if 'A' ≤ c ∧ c ≤ 'F' then some (c.toNat - 55)
  else none

/-- The value of four digits. -/
def hexCode? (a b c d : Char) : Option Nat := do
  return (((← hexValue? a) * 16 + (← hexValue? b)) * 16 + (← hexValue? c)) * 16 + (← hexValue? d)

/-- A hexadecimal digit is read as the value that it was written for. -/
theorem hexValue?_hexDigit : ∀ value < 16, hexValue? (hexDigit value) = some value := by
  decide

end TypingsIndex.Text
