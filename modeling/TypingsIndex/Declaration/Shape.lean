/-!
# What a declaration says

A declared type is a base type with decorations: the value may be absent, it may be an array, and the
array itself may be absent. A parameter is a name with such a type, and a signature is a function name
with its parameters in the order of the call. Each of them has one written form, `written`, which the
grammar reads back.
-/

set_option autoImplicit false

namespace TypingsIndex

/-- A declared type: the base type as text, and how it is decorated. -/
structure TypeShape where
  /-- The base type, as it was written. -/
  base : String
  /-- The value, or each element of an array, may be absent. -/
  nullable : Bool
  /-- The type is an array of the base type. -/
  array : Bool
  /-- The array itself may be absent. -/
  arrayNullable : Bool
  deriving DecidableEq, Repr, Inhabited

/-- A parameter of a declared function. -/
structure Parameter where
  name : String
  shape : TypeShape
  /-- The caller may leave the argument out. -/
  optional : Bool
  deriving DecidableEq, Repr, Inhabited

/-- A declared function. -/
structure Signature where
  name : String
  /-- In the order of the call. -/
  parameters : List Parameter
  returns : TypeShape
  /-- The declared result is a promise of `returns`. -/
  promised : Bool
  deriving DecidableEq, Repr, Inhabited

namespace TypeShape

/-- The type with its decorations: `?` after the base type and after the brackets of an array. -/
def written (shape : TypeShape) : List Char :=
  shape.base.toList
    ++ (if shape.nullable then ['?'] else [])
    ++ (if shape.array then ['[', ']'] ++ (if shape.arrayNullable then ['?'] else []) else [])

end TypeShape

namespace Parameter

/-- The parameter as `name: type`, the name marked with `?` when the argument is optional. -/
def written (parameter : Parameter) : List Char :=
  parameter.name.toList ++ (if parameter.optional then ['?'] else []) ++ [':', ' ']
    ++ parameter.shape.written

end Parameter

namespace Signature

/-- The declared result; a promised one stands inside `Promise<…>`. -/
def writtenResult (signature : Signature) : List Char :=
  if signature.promised then
    "Promise<".toList ++ signature.returns.written ++ ['>']
  else
    signature.returns.written

/-- The signature as `name(a: A, b: B): R`. -/
def written (signature : Signature) : List Char :=
  signature.name.toList ++ ['('] ++ [',', ' '].intercalate (signature.parameters.map Parameter.written)
    ++ [')', ':', ' '] ++ signature.writtenResult

/-- The written form as a string, the way reports show it. -/
def display (signature : Signature) : String :=
  String.ofList signature.written

end Signature

end TypingsIndex
