import TypingsIndex.Proofs.Json.Layout

/-!
# What stands in a value

The parts of a JSON value by their form: a text, a truth value, the items of an array, the member of an object with a
given key. Putting the members of objects in order changes nothing that can be looked up, as long as no key comes twice.
-/

set_option autoImplicit false

namespace TypingsIndex.Json

variable {value : Json} {members : List (String × Json)}

/-- The text that a value is. -/
def text? : Json → Option String
  | .string text => some text
  | _ => none

/-- The truth value that a value is. -/
def flag? : Json → Option Bool
  | .bool value => some value
  | _ => none

/-- The items of an array. -/
def items? : Json → Option (List Json)
  | .array items => some items
  | _ => none

/-- The value of a key of an object. -/
def member? (value : Json) (key : String) : Option Json :=
  match value with
  | .object members => members.lookup key
  | _ => none

/-- The keys of an object. -/
def keys : Json → List String
  | .object members => members.map Prod.fst
  | _ => []

/-! ## Members in order -/

/-- A member that is inserted comes on top of the others, wherever it goes. -/
theorem insertMember_perm (member : String × Json) (members : List (String × Json)) :
    (insertMember member members).Perm (member :: members) := by
  induction members with
  | nil => exact .refl _
  | cons first others ih =>
    unfold insertMember
    split
    · calc (first :: insertMember member others).Perm (first :: member :: others) := ih.cons first
        List.Perm _ (member :: first :: others) := .swap member first others
    · exact .refl _

/-- Sorted members are the members in another order, each with a sorted value. -/
theorem sortMembers_perm (members : List (String × Json)) :
    (sortMembers members).Perm (members.map fun member => (member.1, sortKeys member.2)) := by
  induction members with
  | nil => exact .refl _
  | cons member others ih =>
    rw [sortMembers, List.map_cons]
    calc (insertMember (member.1, sortKeys member.2) (sortMembers others)).Perm
          ((member.1, sortKeys member.2) :: sortMembers others) := insertMember_perm _ _
      List.Perm _ ((member.1, sortKeys member.2) :: others.map fun member => (member.1, sortKeys member.2)) :=
        ih.cons _

/-- The items of an array are sorted each in itself, and keep their order. -/
theorem sortItems_eq (items : List Json) : sortItems items = items.map sortKeys := by
  induction items with
  | nil => rfl
  | cons item others ih => rw [sortItems, ih, List.map_cons]

/-- Sorting the keys of a value brings no numbers into it. -/
theorem Plain.sortKeys (plain : Plain value) : Plain value.sortKeys := by
  induction plain with
  | null => exact .null
  | bool value => exact .bool value
  | string text => exact .string text
  | @array items _ ih =>
    rw [Json.sortKeys, sortItems_eq]
    exact .array (List.forall_mem_map.mpr ih)
  | @object members _ ih =>
    rw [Json.sortKeys]
    refine .object fun member hmember => ?_
    obtain ⟨original, horiginal, rfl⟩ := List.mem_map.mp ((sortMembers_perm members).mem_iff.mp hmember)
    exact ih original horiginal

/-- Sorting members changes the order of their keys only. -/
theorem keys_sortMembers (members : List (String × Json)) :
    ((sortMembers members).map Prod.fst).Perm (members.map Prod.fst) := by
  have hkeys := (sortMembers_perm members).map Prod.fst
  rwa [List.map_map] at hkeys

/-- Where a member with a new key is inserted does not matter to what is found under a key. -/
theorem lookup_insertMember (member : String × Json) (fresh : member.1 ∉ members.map Prod.fst) (key : String) :
    (insertMember member members).lookup key = (member :: members).lookup key := by
  induction members with
  | nil => rfl
  | cons first others ih =>
    obtain ⟨hfirst, hothers⟩ := not_or.mp (List.mem_cons.not.mp fresh)
    unfold insertMember
    split
    · rw [List.lookup_cons, ih hothers, List.lookup_cons, List.lookup_cons, List.lookup_cons]
      cases hkey : key == first.1 with
      | false => rfl
      | true =>
        have hother : (key == member.1) = false := by
          rw [beq_iff_eq.mp hkey, beq_eq_false_iff_ne]
          exact fun h => hfirst h.symm
        rw [hother]
    · rfl

/-- Members that are put in order are looked up as before, if no key comes twice. -/
theorem lookup_sortMembers (once : (members.map Prod.fst).Nodup) (key : String) :
    (sortMembers members).lookup key = (members.lookup key).map sortKeys := by
  induction members with
  | nil => rfl
  | cons member others ih =>
    obtain ⟨name, value⟩ := member
    obtain ⟨hfresh, honce⟩ := List.nodup_cons.mp once
    have hsorted : name ∉ (sortMembers others).map Prod.fst := by
      rw [(keys_sortMembers others).mem_iff]
      exact hfresh
    rw [sortMembers, lookup_insertMember (name, value.sortKeys) hsorted, List.lookup_cons, List.lookup_cons, ih honce]
    cases key == name <;> rfl

/-- Under each key a sorted value has the sorted value that it had before, if its keys come once. -/
theorem member?_sortKeys (once : value.keys.Nodup) (key : String) :
    value.sortKeys.member? key = (value.member? key).map sortKeys := by
  cases value with
  | object members =>
    rw [sortKeys]
    exact lookup_sortMembers once key
  | _ => rfl

end TypingsIndex.Json
