/-!
# JSON values

A number is kept as the text it was written with, since nothing here computes with one, and the
members of an object keep the order in which they are written. `sortKeys` puts the members of every
object in the order of their keys' code points.
-/

set_option autoImplicit false

namespace TypingsIndex

/-- A JSON value. -/
inductive Json where
  | null
  | bool (value : Bool)
  | number (literal : String)
  | string (text : String)
  | array (items : List Json)
  | object (members : List (String × Json))
  deriving Repr, Inhabited

namespace Json

/-- Insert a member before the first one with a greater key. -/
def insertMember (member : String × Json) : List (String × Json) → List (String × Json)
  | [] => [member]
  | first :: others =>
    if first.1 ≤ member.1 then first :: insertMember member others
    else member :: first :: others

mutual

/-- The same value with the members of every object in rising order of their keys. -/
def sortKeys : Json → Json
  | .array items => .array (sortItems items)
  | .object members => .object (sortMembers members)
  | value => value

/-- `sortKeys` in every item. -/
def sortItems : List Json → List Json
  | [] => []
  | item :: others => sortKeys item :: sortItems others

/-- `sortKeys` in every member, and the members in rising order of their keys. -/
def sortMembers : List (String × Json) → List (String × Json)
  | [] => []
  | (key, value) :: others => insertMember (key, sortKeys value) (sortMembers others)

end

end Json

end TypingsIndex
