import TypingsIndex.Proofs.Json.Members
import TypingsIndex.Proofs.Settings.Patterns

/-!
# The keys of the settings

Which keys the settings know, at the top and in each section, and what may stand under each of them. A section is an
object of its own. What is in the type map or below an unknown key has no keys of the settings.

Members fit a table of keys (`Fits`) if each of them is known, has a value of its kind, and comes once. Any of the known
keys may be missing, and they may come in any order.
-/

set_option autoImplicit false

namespace TypingsIndex

namespace Json

/-- The texts that the items of an array are, if all of them are texts. -/
def texts? : Json → Option (List String)
  | .array items => items.mapM text?
  | _ => none

/-- The members of an object with the texts that they are, if all of them are texts. -/
def pairs? : Json → Option (List (String × String))
  | .object members => members.mapM fun member => member.2.text?.map fun text => (member.1, text)
  | _ => none

/-- The type map that an object of texts is. A repeated key counts the last time. -/
def typeMap? (value : Json) : Option TypeMap :=
  value.pairs?.map TypeMap.ofList

/-- The name transform that a value names. -/
def transform? (value : Json) : Option NameTransform :=
  value.text?.bind NameTransform.ofText?

/-- The members of an object. -/
def members? : Json → Option (List (String × Json))
  | .object members => some members
  | _ => none

end Json

namespace Settings

/-- What a key holds that is no section. -/
inductive Leaf where
  | text
  | flag
  | transform
  /-- A text that is put together from these placeholders and characters other than `#`. -/
  | pattern (placeholders : List String)
  | texts
  | typeMap
  deriving DecidableEq

/-- Whether a value is of a kind. -/
def Leaf.Admits : Leaf → Json → Prop
  | .text, value => ∃ text, value.text? = some text
  | .flag, value => ∃ flag, value.flag? = some flag
  | .transform, value => ∃ transform, value.transform? = some transform
  | .pattern placeholders, value => ∃ text, value.text? = some text ∧ NamePattern.MadeOf placeholders text.toList
  | .texts, value => ∃ texts, value.texts? = some texts
  | .typeMap, value => ∃ map, value.typeMap? = some map

/-- Members that come once each, have known keys, and hold what their keys may hold. -/
structure Fits {κ : Type} (admits : κ → Json → Prop) (table : List (String × κ)) (members : List (String × Json)) :
    Prop where
  once : (members.map Prod.fst).Nodup
  known : ∀ member ∈ members, ∃ kind, (member.1, kind) ∈ table ∧ admits kind member.2

/-- What a key at the top holds. -/
inductive Kind where
  | leaf (form : Leaf)
  | record (keys : List (String × Leaf))
  deriving DecidableEq

/-- Whether a value is of a kind. -/
def Kind.Admits : Kind → Json → Prop
  | .leaf form, value => form.Admits value
  | .record keys, value => ∃ members, value.members? = some members ∧ Fits Leaf.Admits keys members

/-- The keys of the ways to call a function, of modules and at run time. -/
def callKeys : List (String × Leaf) :=
  [("invoke enabled", .flag), ("trysync enabled", .flag), ("async enabled", .flag)]

/-- The keys of the output files. -/
def outputKeys : List (String × Leaf) :=
  [("class", .text), ("interface", .text)]

/-- The keys of the rules for promises. -/
def promiseKeys : List (String × Leaf) :=
  [("only async enabled", .flag), ("append Async", .flag)]

/-- The keys of the naming of methods that call a function. -/
def functionKeys : List (String × Leaf) :=
  [("pattern", .pattern NamePattern.functionPlaceholders), ("function transform", .transform),
    ("module transform", .transform), ("action transform", .transform)]

/-- The keys of the naming of methods that load a module. -/
def preloadKeys : List (String × Leaf) :=
  [("pattern", .pattern NamePattern.preloadPlaceholders), ("module transform", .transform)]

/-- The keys at the top. -/
def schema : List (String × Kind) :=
  [("declaration path", .leaf .text),
    ("file output", .record outputKeys),
    ("module", .record callKeys),
    ("js runtime", .record callKeys),
    ("promise function", .record promiseKeys),
    ("function name pattern", .record functionKeys),
    ("preload name pattern", .record preloadKeys),
    ("preload all modules name", .leaf .text),
    ("using statements", .leaf .texts),
    ("type map", .leaf .typeMap)]

end Settings

end TypingsIndex
