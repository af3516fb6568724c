import TypingsIndex.Path
import TypingsIndex.Proofs.Text.Pieces

/-!
# Going down from a directory

Joining plain names to the path of a directory appends them to its components, whatever the path of the
directory looks like: relative or absolute, with or without a slash at its end (`components_descend`).
Two paths that go down from one directory are therefore equal if their components are, and one is at
or below the other if its names begin with those of the other.
-/

set_option autoImplicit false

namespace TypingsIndex

namespace Path

/-- A name that an entry of a directory can have: not empty, no dot or two dots, and no slash in it. -/
structure IsName (name : String) : Prop where
  ne_empty : name.toList ≠ []
  ne_dot : name.toList ≠ ['.']
  ne_dots : name.toList ≠ ['.', '.']
  no_slash : '/' ∉ name.toList

/-- A name is relative. -/
theorem IsName.isAbsolute_eq_false {name : String} (h : IsName name) : isAbsolute name = false := by
  unfold isAbsolute
  rw [decide_eq_false_iff_not]
  exact fun hhead => h.no_slash (List.mem_of_mem_head? hhead)

/-- A name stands for a component of its own. -/
theorem IsName.ofPiece? {name : String} (h : IsName name) :
    Component.ofPiece? name.toList = some (.name name) := by
  unfold Component.ofPiece?
  split
  · next heq => exact absurd heq h.ne_empty
  · next heq => exact absurd heq h.ne_dot
  · next heq => exact absurd heq h.ne_dots
  · rw [String.ofList_toList]

/-- What a piece stands for is a name only if it is the piece itself. -/
theorem eq_of_ofPiece? {piece : List Char} {name : String} (h : Component.ofPiece? piece = some (.name name)) :
    piece = name.toList ∧ piece ≠ [] ∧ piece ≠ ['.'] ∧ piece ≠ ['.', '.'] := by
  unfold Component.ofPiece? at h
  split at h
  · cases h
  · cases h
  · cases h
  · next hne hdot hdots =>
    cases h
    exact ⟨String.toList_ofList.symm, hne, hdot, hdots⟩

/-- What the first piece between slashes stands for. -/
def firstOf : List Char → List Component
  | [] => [.root]
  | ['.'] => [.here]
  | piece => (Component.ofPiece? piece).toList

/-- The components of a path are those of its pieces, of which the first has a meaning of its own. -/
theorem components_of_pieces {path : Path} {piece : List Char} {others : List (List Char)}
    (h : Text.splitAt '/' path.text.toList = piece :: others) (hne : piece :: others ≠ [[]]) :
    path.components = firstOf piece ++ others.filterMap Component.ofPiece? := by
  unfold components
  rw [h]
  split
  · next heq => cases heq
  · next heq => exact absurd heq hne
  · next heq => cases heq; rfl
  · next heq => cases heq; rfl
  · next hnil hdot =>
    have hfirst : firstOf piece = (Component.ofPiece? piece).toList := by
      unfold firstOf
      split
      · exact absurd rfl (hnil others)
      · exact absurd rfl (hdot others)
      · rfl
    rw [hfirst, List.filterMap_cons]
    cases Component.ofPiece? piece <;> rfl

/-- The names among the components of a path are those that an entry of a directory can have. -/
theorem isName_of_mem_components {path : Path} {name : String} (h : .name name ∈ path.components) : IsName name := by
  obtain ⟨first, others, hpieces⟩ := List.exists_cons_of_ne_nil (Text.splitAt_ne_nil '/' path.text.toList)
  -- Only the empty path is one empty piece, and it has no components.
  have hne : first :: others ≠ [[]] := by
    intro hempty
    rw [hempty] at hpieces
    unfold components at h
    rw [hpieces] at h
    cases h
  obtain ⟨piece, hpiece, hname⟩ : ∃ piece ∈ first :: others, Component.ofPiece? piece = some (.name name) := by
    rw [components_of_pieces hpieces hne, List.mem_append] at h
    rcases h with hfirst | hothers
    · unfold firstOf at hfirst
      split at hfirst
      · cases List.mem_singleton.mp hfirst
      · cases List.mem_singleton.mp hfirst
      · exact ⟨first, List.mem_cons_self, Option.mem_toList.mp hfirst⟩
    · obtain ⟨piece, hpiece, hname⟩ := List.mem_filterMap.mp hothers
      exact ⟨piece, List.mem_cons_of_mem first hpiece, hname⟩
  obtain ⟨rfl, hnil, hdot, hdots⟩ := eq_of_ofPiece? hname
  exact ⟨hnil, hdot, hdots, Text.not_mem_of_mem_splitAt (hpieces ▸ hpiece)⟩

/-- A first piece that is neither empty nor a dot has no meaning of its own. -/
theorem firstOf_eq {piece : List Char} (nonempty : piece ≠ []) (named : piece ≠ ['.']) :
    firstOf piece = (Component.ofPiece? piece).toList := by
  unfold firstOf
  split
  · exact absurd rfl nonempty
  · exact absurd rfl named
  · rfl

/-- A text that is joined to a path adds the components of its pieces, unless its first piece has a meaning of its
own. -/
theorem components_join_pieces (base : Path) {relative : String} {piece : List Char} {others : List (List Char)}
    (pieces : Text.splitAt '/' relative.toList = piece :: others) (nonempty : piece ≠ []) (named : piece ≠ ['.']) :
    (base.join relative).components = base.components ++ (piece :: others).filterMap Component.ofPiece? := by
  have hrelative : isAbsolute relative = false := by
    unfold isAbsolute
    rw [decide_eq_false_iff_not]
    intro hhead
    obtain ⟨rest, hrest⟩ := List.head?_eq_some_iff.mp hhead
    rw [hrest, Text.splitAt_cons_self] at pieces
    exact nonempty (List.cons.inj pieces).1.symm
  unfold join
  rw [hrelative, if_neg Bool.false_ne_true]
  -- An empty base or one with a slash at its end is followed by the text at once. Its last piece is then empty, and
  -- that is no component.
  split
  · next hend =>
    rw [Bool.or_eq_true, decide_eq_true_eq] at hend
    rcases hend with hempty | hslash
    · have hbase : base.components = [] := by
        rw [String.isEmpty_iff] at hempty
        simp [components, hempty, Text.splitAt]
      rw [components_of_pieces (by simpa [String.isEmpty_iff.mp hempty] using pieces)
        (by simp [nonempty]), firstOf_eq nonempty named, hbase, List.nil_append, List.filterMap_cons]
      cases Component.ofPiece? piece <;> rfl
    · obtain ⟨front, hfront⟩ := List.getLast?_eq_some_iff.mp hslash
      obtain ⟨first, more, hpieces⟩ := List.exists_cons_of_ne_nil (Text.splitAt_ne_nil '/' front)
      have hbase : Text.splitAt '/' base.text.toList = first :: (more ++ [[]]) := by
        rw [hfront, Text.splitAt_append_cons, hpieces]
        rfl
      have hjoined : Text.splitAt '/' (base.text ++ relative).toList = first :: (more ++ (piece :: others)) := by
        rw [String.toList_append, hfront, List.append_assoc, List.singleton_append,
          Text.splitAt_append_cons, hpieces, pieces]
        rfl
      have hnone : Component.ofPiece? [] = none := rfl
      rw [components_of_pieces hjoined (by simp), components_of_pieces hbase (by simp)]
      simp [hnone]
  · next hend =>
    rw [Bool.or_eq_true, not_or, Bool.not_eq_true, String.isEmpty_eq_false_iff] at hend
    obtain ⟨first, more, hpieces⟩ :=
      List.exists_cons_of_ne_nil (Text.splitAt_ne_nil '/' base.text.toList)
    have hjoined : Text.splitAt '/' (base.text ++ "/" ++ relative).toList = first :: (more ++ (piece :: others)) := by
      rw [String.toList_append, String.toList_append, List.append_assoc]
      change Text.splitAt '/' (base.text.toList ++ '/' :: relative.toList) = _
      rw [Text.splitAt_append_cons, hpieces, pieces]
      rfl
    have hne : first :: more ≠ [[]] := by
      rw [← hpieces]
      exact fun h => hend.1 (String.toList_inj.mp (Text.eq_nil_of_splitAt h))
    rw [components_of_pieces hjoined (by simp), components_of_pieces hpieces hne]
    simp

/-- Names with slashes between them that are joined to a path are so many more components. -/
theorem components_join_names (base : Path) {names : List String} (nonempty : names ≠ [])
    (valid : ∀ name ∈ names, IsName name) :
    (base.join ("/".intercalate names)).components = base.components ++ names.map .name := by
  have hpieces : Text.splitAt '/' ("/".intercalate names).toList = names.map String.toList := by
    rw [String.toList_intercalate]
    exact Text.splitAt_intercalate (by simpa using nonempty) (by simpa using fun name h => (valid name h).no_slash)
  have hnames : (names.map String.toList).filterMap Component.ofPiece? = names.map .name := by
    rw [List.filterMap_map, ← List.filterMap_eq_map']
    exact List.filterMap_congr fun name hname => (valid name hname).ofPiece?
  obtain ⟨first, others, rfl⟩ := List.exists_cons_of_ne_nil nonempty
  have hfirst := valid first List.mem_cons_self
  rw [components_join_pieces base hpieces hfirst.ne_empty hfirst.ne_dot]
  exact congrArg (base.components ++ ·) hnames

/-- A name that is joined to a path is one more component. -/
theorem components_join (base : Path) {name : String} (hname : IsName name) :
    (base.join name).components = base.components ++ [.name name] := by
  rw [components_join_pieces base (Text.splitAt_of_not_mem hname.no_slash) hname.ne_empty hname.ne_dot,
    List.filterMap_cons_some hname.ofPiece?]
  rfl

/-- The path that names lead to from a directory. -/
def descend (root : Path) (names : List String) : Path :=
  names.foldl join root

/-- Names that are joined to a path are so many more components. -/
theorem components_descend (root : Path) {names : List String} (h : ∀ name ∈ names, IsName name) :
    (root.descend names).components = root.components ++ names.map .name := by
  unfold descend
  induction names generalizing root with
  | nil => simp
  | cons name rest ih =>
    rw [List.forall_mem_cons] at h
    rw [List.foldl_cons, ih (root.join name) h.2, components_join root h.1]
    simp

/-- Paths are at or below a directory if their components begin with those of the directory. -/
theorem isAtOrBelow_iff {path directory : Path} :
    path.isAtOrBelow directory = true ↔ directory.components <+: path.components := by
  unfold isAtOrBelow
  exact List.isPrefixOf_iff_prefix

/-- Every spelling of the path of a directory is at the directory. -/
theorem isAtOrBelow_of_same {path directory : Path} (h : path.components = directory.components) :
    path.isAtOrBelow directory = true :=
  isAtOrBelow_iff.mpr (h ▸ List.prefix_rfl)

/-- Components that are all names come from those names alone. -/
theorem names?_eq_some_iff {components : List Component} {names : List String} :
    names? components = some names ↔ components = names.map .name := by
  induction components generalizing names with
  | nil => cases names <;> simp [names?]
  | cons component others ih =>
    cases component with
    | name label =>
      simp only [names?, Option.map_eq_some_iff, ih]
      cases names <;> simp [and_comm]
    | root | here | up => cases names <;> simp [names?]

/-- What is left of the components of a path below a directory. -/
theorem below?_eq_some_iff {path directory : Path} {rest : List Component} :
    path.below? directory = some rest ↔ path.components = directory.components ++ rest := by
  unfold below?
  rw [List.isPrefixOf?_eq_some_iff_append_eq]
  exact eq_comm

/-- The names that lead from a directory to a path, if there are such. -/
theorem namesBelow_iff {path root : Path} {names : List String} :
    (path.below? root).bind names? = some names ↔
      path.components = root.components ++ names.map .name := by
  rw [Option.bind_eq_some_iff]
  constructor
  · rintro ⟨rest, hrest, hnames⟩
    rw [below?_eq_some_iff.mp hrest, names?_eq_some_iff.mp hnames]
  · intro h
    exact ⟨_, below?_eq_some_iff.mpr h, names?_eq_some_iff.mpr rfl⟩

section

variable {root : Path} {names others : List String} (valid : ∀ name ∈ names, IsName name)
  (othersValid : ∀ name ∈ others, IsName name)

include valid

/-- The names below a directory are those that the path went down by. -/
theorem namesBelow_descend : ((root.descend names).below? root).bind names? = some names :=
  namesBelow_iff.mpr (components_descend root valid)

include othersValid

/-- Names that lead to the same components are the same. -/
theorem components_descend_inj :
    (root.descend names).components = (root.descend others).components ↔ names = others := by
  rw [components_descend root valid, components_descend root othersValid, List.append_cancel_left_eq]
  exact (List.map_injective_iff.mpr fun a b h => by injection h).eq_iff

/-- One path is at or below the other exactly if the names of the other come first. -/
theorem isAtOrBelow_descend :
    (root.descend names).isAtOrBelow (root.descend others) = true ↔ others <+: names := by
  rw [isAtOrBelow_iff, components_descend root valid, components_descend root othersValid,
    List.prefix_append_right_inj]
  constructor
  · rintro ⟨rest, hrest⟩
    obtain ⟨front, back, rfl, hfront, -⟩ := List.map_eq_append_iff.mp hrest.symm
    have heq : front = others := (List.map_injective_iff.mpr fun a b h => by injection h) hfront
    rw [heq]
    exact List.prefix_append others back
  · exact fun h => h.map _

end

end Path

end TypingsIndex
