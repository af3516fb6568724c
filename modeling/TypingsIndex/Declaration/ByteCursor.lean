import TypingsIndex.Declaration.Fault

/-!
# Cutting a line at an offset

A line is held as UTF-8 bytes. The cuts of `TypingsIndex.Cursor` can be found there without decoding the text:
the bytes are gone through by their index, and what is found is an offset, at which the text is then cut in two.
A text can be cut at an offset only where a character begins or at its end; a step that asks for any other cut
breaks down, and gives neither a piece nor a fault.

A step takes what is left of a line and says how it ended and what is left then.
-/

set_option autoImplicit false

namespace TypingsIndex.ByteCursor

/-- How a step ends. -/
inductive Outcome (α : Type) where
  /-- A result, and the text that is left. -/
  | done (result : α) (rest : String)
  /-- A fault, and the text that is left. -/
  | refused (fault : GrammarFault) (rest : String)
  /-- A text was to be cut inside a character or behind its end. -/
  | broken
  deriving DecidableEq, Repr

/-- Cut a text at an offset, if that is between two characters. -/
def cutAt? (offset : Nat) (text : String) : Option (String × String) :=
  if valid : (String.Pos.Raw.mk offset).IsValid text then
    some ((text.sliceTo ⟨_, valid⟩).copy, (text.sliceFrom ⟨_, valid⟩).copy)
  else none

/-- Take the text before the offset that a search has found, or refuse if it has found none. -/
def takeFound (found : Option Nat) (expected : Expectation) (rest : String) : Outcome String :=
  match found with
  | some offset =>
    match cutAt? offset rest with
    | some (taken, after) => .done taken after
    | none => .broken
  | none => .refused ⟨expected, rest⟩ rest

/-- Take a piece of text if it stands at the front, and tell whether it did. -/
def eat (token rest : String) : Outcome Bool :=
  if token.toByteArray.data.toList <+: rest.toByteArray.data.toList then
    match cutAt? token.utf8ByteSize rest with
    | some (_, after) => .done true after
    | none => .broken
  else .done false rest

/-- Take a piece of text or refuse. -/
def expect (token rest : String) : Outcome Unit :=
  match eat token rest with
  | .done true after => .done () after
  | .done false left => .refused ⟨.token token, left⟩ left
  | .refused fault left => .refused fault left
  | .broken => .broken

/-- The first offset, from the given one on, at which the bytes of `stop` stand. -/
def untilOffset? (stop : Char) (bytes : ByteArray) (offset : Nat) : Option Nat :=
  if offset < bytes.size then
    if String.utf8EncodeChar stop <+: bytes.data.toList.drop offset then some offset
    else untilOffset? stop bytes (offset + 1)
  else none
termination_by bytes.size - offset

/-- Take everything before the first `stop`, which is left in place. -/
def takeUntil (stop : Char) (rest : String) : Outcome String :=
  takeFound (untilOffset? stop rest.toByteArray 0) (.token (String.singleton stop)) rest

/-- A byte that opens a level in a whole declaration. -/
def opensGroup (byte : UInt8) : Bool :=
  byte == '('.toUInt8 || byte == '['.toUInt8 || byte == '{'.toUInt8

/-- A byte that closes a level in a whole declaration. -/
def closesGroup (byte : UInt8) : Bool :=
  byte == ')'.toUInt8 || byte == ']'.toUInt8 || byte == '}'.toUInt8

/-- The first offset, from the given one on, at which the byte `stop` stands outside all groups. -/
def terminatedOffset? (stop : UInt8) (bytes : ByteArray) (depth offset : Nat) : Option Nat :=
  if _ : offset < bytes.size then
    let byte := bytes[offset]
    if opensGroup byte then terminatedOffset? stop bytes (depth + 1) (offset + 1)
    else if closesGroup byte then terminatedOffset? stop bytes (depth - 1) (offset + 1)
    else if depth = 0 ∧ byte = stop then some offset
    else terminatedOffset? stop bytes depth (offset + 1)
  else none
termination_by bytes.size - offset

/-- Take everything before the first byte `stop` outside all groups, and that byte with it. -/
def takeTerminated (stop : UInt8) (rest : String) : Outcome String :=
  let expected := .token (String.singleton (Char.ofUInt8 stop))
  match takeFound (terminatedOffset? stop rest.toByteArray 0 0) expected rest with
  | .done taken after =>
    match cutAt? 1 after with
    | some (_, left) => .done taken left
    | none => .broken
  | ended => ended

/-- A byte that opens a level in the type of a parameter. -/
def opensType (byte : UInt8) : Bool :=
  opensGroup byte || byte == '<'.toUInt8

/-- A byte that closes a level in the type of a parameter. -/
def closesType (byte : UInt8) : Bool :=
  closesGroup byte || byte == '>'.toUInt8

/-- A byte that ends the type of a parameter when it stands outside all brackets. -/
def endsType (byte : UInt8) : Bool :=
  byte == ','.toUInt8 || byte == ')'.toUInt8

/-- The first offset, from the given one on, of a comma or a closing parenthesis outside all brackets. An equals
sign is passed over together with a `>` in the next byte. -/
def typeEndOffset? (bytes : ByteArray) (depth offset : Nat) : Option Nat :=
  if _ : offset < bytes.size then
    let byte := bytes[offset]
    if byte = '='.toUInt8 ∧ bytes.data[offset + 1]? = some '>'.toUInt8 then typeEndOffset? bytes depth (offset + 2)
    else if opensType byte then typeEndOffset? bytes (depth + 1) (offset + 1)
    else if depth = 0 ∧ endsType byte then some offset
    else if closesType byte then typeEndOffset? bytes (depth - 1) (offset + 1)
    else typeEndOffset? bytes depth (offset + 1)
  else none
termination_by bytes.size - offset

/-- Take the type of one parameter. -/
def takeTypeSpan (rest : String) : Outcome String :=
  takeFound (typeEndOffset? rest.toByteArray 0 0) .spanEnd rest

end TypingsIndex.ByteCursor
