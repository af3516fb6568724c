import TypingsIndex.Proofs.Catalog.Listing
import TypingsIndex.Proofs.Catalog.Table

/-!
# Consistent catalogs

A catalog is consistent if its table fits the paths of its modules (`Catalog.Consistent`). Looking
something up in the table is then the same as searching the list from the front, and every operation on
the catalog is the operation of the same meaning on its list, while the table stays in step with the
list. The lemmas come in pairs, one for the list and one for the table.
-/

set_option autoImplicit false

namespace TypingsIndex

/-- Paths are unique exactly if no component list occurs twice. -/
theorem Listing.unique_iff_nodup {listing : Listing} :
    listing.Unique ↔ (Catalog.keys listing).Nodup := by
  unfold Unique Catalog.keys List.Nodup
  rw [List.pairwise_map]

namespace Catalog

/-- The table has the positions of all modules and nothing else. -/
def Consistent (catalog : Catalog) : Prop :=
  Fits catalog.positions (keys catalog.modules)

namespace Consistent

variable {catalog : Catalog} (consistent : catalog.Consistent)

include consistent

/-- The table leads to the modules with the path that was looked up, and to all of them. -/
theorem position_iff (path : Path) (i : Nat) :
    catalog.position? path = some i ↔
      ∃ entry, catalog.modules[i]? = some entry ∧ entry.file.components = path.components := by
  unfold position?
  rw [consistent.entry_iff path i]
  simp [keys]

/-- The paths of a consistent catalog are unique, since a table has one entry for a path. -/
theorem unique : Listing.Unique catalog.modules := by
  unfold Listing.Unique
  rw [List.pairwise_iff_getElem]
  intro i j hi hj hij hsame
  have hfirst := (consistent.position_iff catalog.modules[j].file i).mpr
    ⟨_, List.getElem?_eq_getElem hi, hsame⟩
  have hsecond := (consistent.position_iff catalog.modules[j].file j).mpr
    ⟨_, List.getElem?_eq_getElem hj, rfl⟩
  rw [hfirst] at hsecond
  cases hsecond
  omega

/-- The table gives the position at which a search from the front finds a path. -/
theorem position?_eq (path : Path) :
    catalog.position? path = Listing.indexOf? catalog.modules path := by
  apply Option.ext
  intro i
  rw [consistent.position_iff, Listing.indexOf?_eq_some_iff consistent.unique]

/-- A path is in the table exactly if some module has it. -/
theorem contains_eq (path : Path) : catalog.contains path = Listing.has catalog.modules path := by
  unfold contains
  rw [consistent.position?_eq]
  unfold Listing.indexOf? Listing.has
  rw [List.findIdx?_isSome]

/-- The module of a path is the one that a search from the front finds. -/
theorem find?_eq (path : Path) : catalog.find? path = Listing.lookUp? catalog.modules path := by
  apply Option.ext
  intro entry
  rw [Listing.lookUp?_eq_some_iff consistent.unique]
  unfold find?
  simp only [Option.bind_eq_bind, Option.bind_eq_some_iff]
  constructor
  · rintro ⟨i, hi, hentry⟩
    obtain ⟨other, hother, hpath⟩ := (consistent.position_iff path i).mp hi
    rw [hentry] at hother
    cases hother
    exact ⟨List.mem_of_getElem? hentry, hpath⟩
  · rintro ⟨hmem, hpath⟩
    obtain ⟨i, hi⟩ := List.mem_iff_getElem?.mp hmem
    exact ⟨i, (consistent.position_iff path i).mpr ⟨entry, hi, hpath⟩, hi⟩

/-- A consistent catalog passes its own check. -/
theorem isConsistent : catalog.isConsistent = true := by
  unfold Catalog.isConsistent
  rw [Bool.and_eq_true, beq_iff_eq, List.all_eq_true]
  refine ⟨by rw [consistent.size_eq]; exact List.length_map _, ?_⟩
  rintro ⟨entry, i⟩ hmem
  rw [List.mem_zipIdx_iff_getElem?] at hmem
  rw [beq_iff_eq]
  exact (consistent.position_iff entry.file i).mpr ⟨entry, hmem, rfl⟩

end Consistent

/-- The catalog without modules is consistent. -/
theorem empty_consistent : empty.Consistent :=
  Fits.nil

/-! ## Operations -/

section

variable {catalog : Catalog} (consistent : catalog.Consistent)

include consistent

/-- A module whose path is known is put in place of the old one, any other at the end. -/
theorem insert_modules (entry : Module) :
    (catalog.insert entry).modules = Listing.put catalog.modules entry := by
  have hhas := consistent.contains_eq entry.file
  unfold contains at hhas
  unfold insert insertWithPosition Listing.put
  rw [← hhas]
  cases hposition : catalog.position? entry.file with
  | none => rfl
  | some i =>
    obtain ⟨old, hold, hpath⟩ := (consistent.position_iff _ _).mp hposition
    exact Listing.set_eq_change consistent.unique hold hpath rfl

/-- Putting in a module adds the entry of a new path and no other. -/
theorem insert_consistent (entry : Module) : (catalog.insert entry).Consistent := by
  unfold insert insertWithPosition
  cases hposition : catalog.position? entry.file with
  | none =>
    have happend := Fits.append consistent hposition
    unfold Consistent keys at happend ⊢
    rw [List.length_map] at happend
    rw [List.map_append]
    exact happend
  | some i =>
    unfold Consistent
    rw [keys_set (consistent.key_of_entry hposition)]
    exact consistent

/-- Other functions are put in the module of the path, and nowhere if there is none. -/
theorem replaceFunctions?_map (path : Path) (functions : List Signature) (digest : Option Digest) :
    (catalog.replaceFunctions? path functions digest).map modules =
      Listing.refill? catalog.modules path functions digest := by
  have hhas := consistent.contains_eq path
  unfold contains at hhas
  unfold replaceFunctions? Listing.refill?
  rw [← hhas]
  cases hposition : catalog.position? path with
  | none => rfl
  | some i =>
    obtain ⟨old, hold, hpath⟩ := (consistent.position_iff _ _).mp hposition
    simp only [Option.map_some, Option.isSome_some, if_true]
    rw [Listing.modify_eq_change consistent.unique hold hpath]

/-- Other functions change no path. -/
theorem replaceFunctions?_consistent {path : Path} {functions : List Signature}
    {digest : Option Digest} {after : Catalog}
    (h : catalog.replaceFunctions? path functions digest = some after) : after.Consistent := by
  unfold replaceFunctions? at h
  obtain ⟨i, -, rfl⟩ := Option.map_eq_some_iff.mp h
  have hkeys := keys_modify catalog.modules i
    (f := fun entry => { entry with functions := functions, digest := digest }) fun _ => rfl
  unfold Consistent
  rw [hkeys]
  exact consistent

/-- The module of a path is taken out and the others stay in order. -/
theorem erase?_map (path : Path) :
    (catalog.erase? path).map (fun taken => (taken.1, taken.2.modules)) =
      Listing.take? catalog.modules path := by
  unfold Listing.take?
  rw [← consistent.find?_eq]
  unfold erase? find?
  cases hposition : catalog.position? path with
  | none => rfl
  | some i =>
    obtain ⟨entry, hentry, hpath⟩ := (consistent.position_iff _ _).mp hposition
    have herase := Listing.eraseIdx_eq_without consistent.unique hentry hpath
    simp [hentry, herase]

/-- Taking out a module moves up the entries of those behind it. -/
theorem erase?_consistent {path : Path} {entry : Module} {after : Catalog}
    (h : catalog.erase? path = some (entry, after)) : after.Consistent := by
  unfold erase? at h
  simp only [Option.bind_eq_bind, Option.bind_eq_some_iff] at h
  obtain ⟨i, hposition, _, -, heq⟩ := h
  cases heq
  have herase := Fits.eraseIdx consistent hposition
  unfold keys at herase
  rw [List.eraseIdx_map] at herase
  exact herase

omit consistent in
/-- The modules at or below a directory are taken out and the others stay in order. -/
theorem eraseBelow_modules (directory : Path) :
    ((catalog.eraseBelow directory).1, (catalog.eraseBelow directory).2.modules) =
      Listing.takeBelow catalog.modules directory := by
  unfold eraseBelow Listing.takeBelow
  rw [List.partition_eq_filter_filter]
  rfl

/-- The table that is made after taking out modules fits those that are left. -/
theorem eraseBelow_consistent (directory : Path) :
    (catalog.eraseBelow directory).2.Consistent := by
  unfold eraseBelow
  rw [List.partition_eq_filter_filter]
  exact positionsOf_fits (Listing.unique_iff_nodup.mp (Listing.filter_unique consistent.unique _))

/-- A module is moved to another path in its place, and not at all unless the path is free and names a
declaration file below the root. -/
theorem rename?_map (source target root : Path) :
    (catalog.rename? source target root).map modules =
      Listing.move? catalog.modules source target root := by
  unfold rename? Listing.move?
  rw [consistent.contains_eq]
  cases htarget : Listing.has catalog.modules target with
  | true => rfl
  | false =>
    have hsource := consistent.contains_eq source
    unfold contains at hsource
    rw [← hsource]
    cases hposition : catalog.position? source with
    | none => rfl
    | some i =>
      obtain ⟨entry, hentry, hpath⟩ := (consistent.position_iff _ _).mp hposition
      cases hnames : ModuleNames.ofFile? target root with
      | none => simp [Module.relocate?, hnames]
      | some names =>
        have hset := Listing.set_eq_change consistent.unique hentry hpath
          (f := fun entry => { entry with file := target, names := names }) rfl
        simp [hentry, Module.relocate?, hnames, hset]

/-- Moving a module gives its entry to the new path. -/
theorem rename?_consistent {source target root : Path} {after : Catalog}
    (h : catalog.rename? source target root = some after) : after.Consistent := by
  unfold rename? at h
  split at h
  · cases h
  · next hfree =>
    simp only [Option.bind_eq_bind, Option.bind_eq_some_iff] at h
    obtain ⟨i, hposition, entry, hentry, moved, hmoved, heq⟩ := h
    cases heq
    unfold Module.relocate? at hmoved
    obtain ⟨names, -, rfl⟩ := Option.map_eq_some_iff.mp hmoved
    have hgone : catalog.positions[target]? = none := by
      unfold contains position? at hfree
      simpa using hfree
    have hset := Fits.set consistent hposition hgone
    unfold Consistent keys at hset ⊢
    rw [List.map_set]
    exact hset

end

/-- Whatever modules a catalog is made of, it is consistent. -/
theorem ofList_consistent (modules : List Module) : (ofList modules).Consistent := by
  have hfold : ∀ catalog : Catalog, catalog.Consistent →
      (modules.foldl insert catalog).Consistent := by
    induction modules with
    | nil => exact fun _ h => h
    | cons entry modules ih => exact fun catalog h => ih _ (insert_consistent h entry)
  exact hfold empty empty_consistent

/-- The modules of a catalog are those that it was made of, put in one after the other. -/
theorem ofList_modules (modules : List Module) :
    (ofList modules).modules = Listing.ofModules modules := by
  have hfold : ∀ catalog : Catalog, catalog.Consistent →
      (modules.foldl insert catalog).modules = modules.foldl Listing.put catalog.modules := by
    induction modules with
    | nil => exact fun _ _ => rfl
    | cons entry modules ih =>
      intro catalog h
      simp only [List.foldl_cons]
      rw [ih _ (insert_consistent h entry), insert_modules h]
  exact hfold empty empty_consistent

end Catalog

end TypingsIndex
