import TypingsIndex.Proofs.Module.Names
import TypingsIndex.Watch.Session

/-!
# Files that a session tracks

Below its root a session tracks the files whose last name is that of a declaration file and none of
whose names is hidden. Whether a file is tracked depends on its names alone (`accepts_descend`), and a
tracked file always has the names of a module (`Trackable.ofFile?`).
-/

set_option autoImplicit false

namespace TypingsIndex

/-- The names that lead from the root to a file that is tracked. -/
structure Trackable (names : List String) : Prop where
  valid : ∀ name ∈ names, Path.IsName name
  shown : ∀ name ∈ names, Session.isHidden name = false
  declared : ∃ name, names.getLast? = some name ∧ IsDeclarationName name

/-- What can be tracked has a name below the root. -/
theorem Trackable.ne_nil {names : List String} (h : Trackable names) : names ≠ [] := by
  rintro rfl
  obtain ⟨name, hlast, -⟩ := h.declared
  cases hlast

/-- What is tracked as a file has nothing below it where no directory has the name of a declaration file. -/
theorem Trackable.eq_of_prefix {above names : List String} (tracked : Trackable above)
    (flat : ∀ name ∈ names.dropLast, ¬ IsDeclarationName name) (below : above <+: names) : names = above := by
  obtain ⟨rest, rfl⟩ := below
  by_contra hne
  have hrest : rest ≠ [] := by
    rintro rfl
    exact hne (List.append_nil above)
  obtain ⟨name, hlast, hdeclared⟩ := tracked.declared
  rw [List.dropLast_append_of_ne_nil hrest] at flat
  exact flat name (List.mem_append_left _ (List.mem_of_getLast? hlast)) hdeclared

section

variable {root : Path} {names : List String} (valid : ∀ name ∈ names, Path.IsName name)
  (nonempty : names ≠ [])

include valid nonempty

/-- Whether a path is that of a declaration file depends on its last name. -/
theorem isDeclarationFile_descend :
    (root.descend names).isDeclarationFile = true ↔
      ∃ name, names.getLast? = some name ∧ IsDeclarationName name := by
  have hbelow := Path.components_descend root valid
  rw [← DeclaredBelow.iff_isDeclarationFile nonempty hbelow]
  exact ⟨DeclaredBelow.declared, fun declared => ⟨hbelow, declared⟩⟩

end

/-- A session accepts a path below its root exactly if the names below the root are trackable. -/
theorem accepts_descend {session : Session} {names : List String}
    (valid : ∀ name ∈ names, Path.IsName name) (nonempty : names ≠ []) :
    session.accepts (session.root.descend names) = true ↔ Trackable names := by
  unfold Session.accepts
  rw [Path.namesBelow_descend valid, Bool.and_eq_true, isDeclarationFile_descend valid nonempty]
  simp only [Option.any_some, Bool.not_eq_true', List.any_eq_false, Bool.not_eq_true]
  exact ⟨fun h => ⟨valid, h.2, h.1⟩, fun h => ⟨h.declared, h.shown⟩⟩

/-- A tracked file has the names of a module. -/
theorem Trackable.ofFile? {names : List String} (h : Trackable names) (root : Path) :
    ∃ moduleNames, ModuleNames.ofFile? (root.descend names) root = some moduleNames :=
  ModuleNames.exists_ofFile?_iff.mpr ⟨names, Path.components_descend root h.valid, h.declared⟩

end TypingsIndex
