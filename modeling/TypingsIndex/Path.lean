import TypingsIndex.Text.Basic

/-!
# Paths

A path is shown exactly as it was given but is compared by its components: repeated and trailing
slashes do not count, and neither does a dot except at the very front of a relative path. Two
spellings of one component list are therefore the same key in every table of the library, "below a
directory" means that the directory's components come first, and paths are ordered component by
component.
-/

set_option autoImplicit false

namespace TypingsIndex

/-- A path, as it was spelled. -/
structure Path where
  text : String
  deriving DecidableEq, Repr, Inhabited

namespace Path

/-- One step of a path. -/
inductive Component where
  /-- The slash that an absolute path starts with. -/
  | root
  /-- A dot at the front of a relative path. -/
  | here
  /-- Two dots, wherever they stand. -/
  | up
  | name (label : String)
  deriving DecidableEq, Repr, Inhabited

namespace Component

/-- Where the kinds of component stand in the order. -/
def rank : Component → Nat
  | .root => 0
  | .here => 1
  | .up => 2
  | .name _ => 3

/-- The name of a component, empty for those that are not names. -/
def label : Component → String
  | .name label => label
  | _ => ""

/-- Components come in the order that compares them, the root before the others. -/
instance : Ord Component :=
  ⟨compareLex (compareOn rank) (compareOn label)⟩

/-- The order of components is transitive. -/
instance : Std.TransOrd Component :=
  inferInstanceAs (Std.TransCmp (compareLex (compareOn rank) (compareOn label)))

/-- Components that the order does not tell apart are equal. -/
instance : Std.LawfulEqOrd Component where
  eq_of_compare {a b} h := by
    change compareLex (compareOn rank) (compareOn label) a b = .eq at h
    simp only [compareLex, Ordering.then_eq_eq] at h
    have hrank : a.rank = b.rank := Std.LawfulEqOrd.eq_of_compare h.1
    have hlabel : a.label = b.label := Std.LawfulEqOrd.eq_of_compare h.2
    cases a <;> cases b <;> simp_all [rank, label]

/-- The component that a piece between slashes stands for, if it stands for one. -/
def ofPiece? : List Char → Option Component
  | [] => none
  | ['.'] => none
  | ['.', '.'] => some .up
  | piece => some (.name (String.ofList piece))

end Component

/-- The components of a path. -/
def components (path : Path) : List Component :=
  match Text.splitAt '/' path.text.toList with
  | [] => []
  | [[]] => []
  | [] :: others => .root :: others.filterMap Component.ofPiece?
  | ['.'] :: others => .here :: others.filterMap Component.ofPiece?
  | pieces => pieces.filterMap Component.ofPiece?

/-- Paths in order, component by component. -/
def compare (a b : Path) : Ordering :=
  Ord.compare a.components b.components

/-- The order of paths by their components is transitive, as sorted tables of paths need it. -/
instance : Std.TransCmp compare :=
  inferInstanceAs (Std.TransCmp (compareOn components))

/-- Two spellings of one path. -/
def same (a b : Path) : Bool :=
  a.components == b.components

/-- The order does not tell paths apart exactly if they have the same components, however they are spelled. -/
theorem compare_eq_iff {a b : Path} : compare a b = .eq ↔ a.components = b.components :=
  Std.LawfulEqOrd.compare_eq_iff_eq

/-- Paths are the same file exactly if they have the same components. -/
theorem same_iff {a b : Path} : same a b = true ↔ a.components = b.components := by
  simp [same]

/-- A path that is the same as one file is not the same as another. -/
theorem same_eq_false {a b c : Path} (ne : b.components ≠ c.components) (h : same a b = true) :
    same a c = false := by
  rw [same_iff] at h
  rw [← Bool.not_eq_true, same_iff, h]
  exact ne

/-- The components of a path below a directory, if it is at or below it. -/
def below? (path directory : Path) : Option (List Component) :=
  directory.components.isPrefixOf? path.components

/-- Whether a path is a directory or something below it. -/
def isAtOrBelow (path directory : Path) : Bool :=
  directory.components.isPrefixOf path.components

/-- The names of components that are all names. -/
def names? : List Component → Option (List String)
  | [] => some []
  | .name label :: others => (names? others).map (label :: ·)
  | _ => none

/-- The last component, if it is a name. -/
def fileName? (path : Path) : Option String :=
  match path.components.getLast? with
  | some (.name label) => some label
  | _ => none

/-- Whether a path starts at the root. -/
def isAbsolute (text : String) : Bool :=
  text.toList.head? = some '/'

/-- A relative path below a base. An absolute path stands for itself. -/
def join (base : Path) (relative : String) : Path :=
  if isAbsolute relative then ⟨relative⟩
  else if base.text.isEmpty || base.text.toList.getLast? = some '/' then ⟨base.text ++ relative⟩
  else ⟨base.text ++ "/" ++ relative⟩

end Path

end TypingsIndex
