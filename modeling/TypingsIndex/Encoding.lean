import TypingsIndex.Catalog
import TypingsIndex.Json.Value

/-!
# The catalog as JSON

Signatures, modules and catalogs as JSON values, members in the order in which documents show them.
Digests and the table of positions are not part of the document. The declared result of a function is
written like a parameter, under a name of its own that no caller passes.
-/

set_option autoImplicit false

namespace TypingsIndex

/-- The name under which a declared result is written. -/
def resultName : String := "ReturnValue"

/-- A type with the name it is declared for. -/
def TypeShape.toJson (shape : TypeShape) (name : String) (optional : Bool) : Json :=
  .object [
    ("name", .string name),
    ("type", .string shape.base),
    ("nullable", .bool shape.nullable),
    ("array", .bool shape.array),
    ("array_nullable", .bool shape.arrayNullable),
    ("optional", .bool optional)]

/-- A parameter as JSON. -/
def Parameter.toJson (parameter : Parameter) : Json :=
  parameter.shape.toJson parameter.name parameter.optional

/-- A signature as JSON. -/
def Signature.toJson (signature : Signature) : Json :=
  .object [
    ("name", .string signature.name),
    ("parameters", .array (signature.parameters.map Parameter.toJson)),
    ("return_type", signature.returns.toJson resultName false),
    ("return_promise", .bool signature.promised)]

/-- A module as JSON, with its functions written as the caller chooses. -/
def Module.toJsonWith (entry : Module) (encode : Signature → Json) : Json :=
  .object [
    ("file_path", .string entry.file.text),
    ("relative_path", .string entry.names.relativePath),
    ("module_path", .string entry.names.modulePath),
    ("module_name", .string entry.names.moduleName),
    ("functions", .array (entry.functions.map encode))]

/-- A module as JSON. -/
def Module.toJson (entry : Module) : Json :=
  entry.toJsonWith Signature.toJson

/-- A catalog as JSON. -/
def Catalog.toJson (catalog : Catalog) : Json :=
  .object [("modules", .array (catalog.modules.map Module.toJson))]

end TypingsIndex
