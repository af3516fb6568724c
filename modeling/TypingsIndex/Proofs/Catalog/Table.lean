import Mathlib.Data.List.InsertIdx
import Mathlib.Data.List.Nodup
import TypingsIndex.Catalog

/-!
# Tables of positions

A table of positions fits a list of component lists, the keys, if it leads from every path to the
one position at which the components of the path stand, and from no other path anywhere (`Fits`). Each
way in which a catalog changes its table has a counterpart on the list: an entry for a new path appends a
key, taking out an entry and moving up those behind it takes out a key, and giving an entry to
another path replaces a key.
-/

set_option autoImplicit false

namespace TypingsIndex.Catalog

/-- The components by which modules are known, in order. -/
def keys (modules : List Module) : List (List Path.Component) :=
  modules.map fun entry => entry.file.components

/-- A module in place of one with the same path changes no key. -/
theorem keys_set {modules : List Module} {i : Nat} {entry : Module}
    (h : (keys modules)[i]? = some entry.file.components) :
    keys (modules.set i entry) = keys modules := by
  obtain ⟨hi, heq⟩ := List.getElem?_eq_some_iff.mp h
  unfold keys at hi heq ⊢
  rw [List.map_set, ← heq, List.set_getElem_self]

/-- A change of a module that leaves its path alone changes no key. -/
theorem keys_modify (modules : List Module) (i : Nat) {f : Module → Module}
    (h : ∀ entry, (f entry).file = entry.file) : keys (modules.modify i f) = keys modules := by
  apply List.ext_getElem?
  intro j
  simp only [keys, List.getElem?_map, List.getElem?_modify]
  cases modules[j]? with
  | none => rfl
  | some entry => by_cases hij : i = j <;> simp [hij, h]

/-- Positions by path. -/
abbrev Table := Std.TreeMap Path Nat Path.compare

/-- The table leads from the path of each key to its position, and has no other entries. -/
structure Fits (table : Table) (keys : List (List Path.Component)) : Prop where
  entry_iff : ∀ (path : Path) (i : Nat), table[path]? = some i ↔ keys[i]? = some path.components
  size_eq : table.size = keys.length

namespace Fits

variable {table : Table} {keys : List (List Path.Component)}

/-- An entry leads to the key of its path. -/
theorem key_of_entry (fits : Fits table keys) {path : Path} {i : Nat} (h : table[path]? = some i) :
    keys[i]? = some path.components :=
  (fits.entry_iff path i).mp h

/-- Two positions with one key would give a path two entries. -/
theorem position_eq (fits : Fits table keys) {path : Path} {i j : Nat}
    (hi : keys[i]? = some path.components) (hj : keys[j]? = some path.components) : i = j := by
  have hfirst := (fits.entry_iff path i).mpr hi
  have hsecond := (fits.entry_iff path j).mpr hj
  rw [hfirst] at hsecond
  exact Option.some.inj hsecond

/-- A path without an entry is not among the keys. -/
theorem not_mem_of_none (fits : Fits table keys) {path : Path} (h : table[path]? = none) :
    path.components ∉ keys := by
  intro hmem
  obtain ⟨i, hi⟩ := List.mem_iff_getElem?.mp hmem
  rw [(fits.entry_iff path i).mpr hi] at h
  cases h

/-- A path that is not among the keys has no entry. -/
theorem none_of_not_mem (fits : Fits table keys) {path : Path} (h : path.components ∉ keys) :
    table[path]? = none := by
  cases hentry : table[path]? with
  | none => rfl
  | some i => exact absurd (List.mem_of_getElem? (fits.key_of_entry hentry)) h

/-- The empty table fits the empty list. -/
theorem nil : Fits ∅ [] where
  entry_iff path i := by simp
  size_eq := Std.TreeMap.size_emptyc

/-- An entry for a new path appends its key. -/
theorem append (fits : Fits table keys) {path : Path} (h : table[path]? = none) :
    Fits (table.insert path keys.length) (keys ++ [path.components]) where
  entry_iff other i := by
    have hnew := fits.not_mem_of_none h
    simp only [Std.TreeMap.getElem?_insert, Path.compare_eq_iff]
    by_cases hsame : path.components = other.components
    · rw [if_pos hsame, ← hsame]
      grind
    · rw [if_neg hsame, fits.entry_iff]
      grind
  size_eq := by
    rw [Std.TreeMap.size_insert, Std.TreeMap.contains_eq_isSome_getElem?, h, fits.size_eq]
    simp

/-- Taking out an entry, while those behind it move up, takes out its key. -/
theorem eraseIdx (fits : Fits table keys) {path : Path} {i : Nat} (h : table[path]? = some i) :
    Fits ((table.erase path).map fun _ j => if i < j then j - 1 else j) (keys.eraseIdx i) where
  entry_iff other j := by
    have hkey := fits.key_of_entry h
    have hunique : ∀ k, keys[k]? = some path.components → k = i :=
      fun k hk => fits.position_eq hk hkey
    have hkeep := fits.entry_iff other
    simp only [Std.TreeMap.getElem?_map', Option.pmap_eq_map, Std.TreeMap.getElem?_erase,
      Path.compare_eq_iff, Option.map_eq_some_iff]
    by_cases hsame : path.components = other.components
    · rw [if_pos hsame, ← hsame]
      grind
    · rw [if_neg hsame]
      grind
  size_eq := by
    have hi := (List.getElem?_eq_some_iff.mp (fits.key_of_entry h)).1
    rw [Std.TreeMap.size_map, Std.TreeMap.size_erase, Std.TreeMap.contains_eq_isSome_getElem?, h,
      fits.size_eq, List.length_eraseIdx, if_pos hi]
    rfl

/-- Giving the entry of one path to another replaces its key. -/
theorem set (fits : Fits table keys) {source target : Path} {i : Nat}
    (h : table[source]? = some i) (hfree : table[target]? = none) :
    Fits ((table.erase source).insert target i) (keys.set i target.components) where
  entry_iff other j := by
    have hkey := fits.key_of_entry h
    have hi := (List.getElem?_eq_some_iff.mp hkey).1
    have hnew := fits.not_mem_of_none hfree
    have hunique : ∀ k, keys[k]? = some source.components → k = i :=
      fun k hk => fits.position_eq hk hkey
    have hkeep := fits.entry_iff other
    simp only [Std.TreeMap.getElem?_insert, Std.TreeMap.getElem?_erase, Path.compare_eq_iff]
    by_cases htarget : target.components = other.components
    · rw [if_pos htarget, ← htarget]
      grind
    · rw [if_neg htarget]
      by_cases hsource : source.components = other.components
      · rw [if_pos hsource, ← hsource]
        grind
      · rw [if_neg hsource]
        grind
  size_eq := by
    have hi := (List.getElem?_eq_some_iff.mp (fits.key_of_entry h)).1
    have hsize := fits.size_eq
    have hgone : (table.erase source)[target]? = none := by
      rw [Std.TreeMap.getElem?_erase, hfree, ite_self]
    rw [Std.TreeMap.size_insert, Std.TreeMap.contains_eq_isSome_getElem?, hgone,
      Std.TreeMap.size_erase, Std.TreeMap.contains_eq_isSome_getElem?, h, List.length_set]
    simp only [Option.isSome_none, Option.isSome_some, if_true, Bool.false_eq_true, if_false]
    omega

end Fits

/-- Entries for new modules, numbered from where the table ends, append their keys. -/
theorem fits_foldl_insert (modules : List Module) {table : Table} {known : List Module}
    (fits : Fits table (keys known)) (unique : (keys (known ++ modules)).Nodup) :
    Fits ((modules.zipIdx known.length).foldl (fun table entry => table.insert entry.1.file entry.2)
      table) (keys (known ++ modules)) := by
  induction modules generalizing table known with
  | nil => simpa using fits
  | cons entry modules ih =>
    have hsplit : known ++ entry :: modules = (known ++ [entry]) ++ modules := by simp
    rw [hsplit] at unique ⊢
    have hnew : entry.file.components ∉ keys known := by
      unfold keys at unique ⊢
      grind
    have happend := fits.append (fits.none_of_not_mem hnew)
    have hlength : (keys known).length = known.length := List.length_map _
    have hkeys : keys known ++ [entry.file.components] = keys (known ++ [entry]) := by
      simp [keys]
    rw [hlength, hkeys] at happend
    simpa using ih happend unique

/-- The table made for modules with different paths fits their keys. -/
theorem positionsOf_fits {modules : List Module} (unique : (keys modules).Nodup) :
    Fits (positionsOf modules) (keys modules) :=
  @fits_foldl_insert modules ∅ [] Fits.nil unique

end TypingsIndex.Catalog
