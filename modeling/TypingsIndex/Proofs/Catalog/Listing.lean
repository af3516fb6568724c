import Mathlib.Data.List.Nodup
import TypingsIndex.Catalog

/-!
# Listings

A listing is a plain list of modules that is searched from the front. It is the specification of a
catalog: the same operations without a table, each written as a filter, a map or an append, so that what
is kept and in which order can be read off the definition. Two modules of one listing never have
the same path (`Listing.Unique`), whatever the operations were.
-/

set_option autoImplicit false

namespace TypingsIndex

/-- A plain list of modules. -/
abbrev Listing := List Module

namespace Listing

/-- No two modules have paths with the same components. -/
def Unique (listing : Listing) : Prop :=
  listing.Pairwise fun a b => a.file.components ≠ b.file.components

/-- Whether a module has a path. -/
def has (listing : Listing) (path : Path) : Bool :=
  listing.any fun entry => entry.file.same path

/-- The first position at which a module has a path. -/
def indexOf? (listing : Listing) (path : Path) : Option Nat :=
  listing.findIdx? fun entry => entry.file.same path

/-- The first module that has a path. -/
def lookUp? (listing : Listing) (path : Path) : Option Module :=
  listing.find? fun entry => entry.file.same path

/-- Whether a module lies at or below a directory. -/
def hasBelow (listing : Listing) (directory : Path) : Bool :=
  listing.any fun entry => entry.file.isAtOrBelow directory

/-- Apply a change to the module of a path, wherever it stands. -/
def change (listing : Listing) (path : Path) (f : Module → Module) : Listing :=
  listing.map fun entry => if entry.file.same path then f entry else entry

/-- Put in a module: in place of the one with the same path, or else at the end. -/
def put (listing : Listing) (entry : Module) : Listing :=
  if listing.has entry.file then listing.change entry.file fun _ => entry else listing ++ [entry]

/-- The listing of modules put in one after the other. -/
def ofModules (modules : List Module) : Listing :=
  modules.foldl put []

/-- Give the module of a path other functions and another digest. -/
def refill? (listing : Listing) (path : Path) (functions : List Signature) (digest : Option Digest) :
    Option Listing :=
  if listing.has path then
    some (listing.change path fun entry => { entry with functions := functions, digest := digest })
  else
    none

/-- The listing without the module of a path. -/
def without (listing : Listing) (path : Path) : Listing :=
  listing.filter fun entry => !entry.file.same path

/-- Take out the module of a path. -/
def take? (listing : Listing) (path : Path) : Option (Module × Listing) :=
  (listing.lookUp? path).map fun entry => (entry, listing.without path)

/-- Take out every module at or below a directory. -/
def takeBelow (listing : Listing) (directory : Path) : List Module × Listing :=
  (listing.filter fun entry => entry.file.isAtOrBelow directory,
    listing.filter fun entry => !entry.file.isAtOrBelow directory)

/-- Move the module of one path to another, which must be free and name a declaration file below the
root. It stays where it stands and keeps its functions and its digest. -/
def move? (listing : Listing) (source target root : Path) : Option Listing :=
  if listing.has target || !listing.has source then none
  else
    (ModuleNames.ofFile? target root).map fun names =>
      listing.change source fun entry => { entry with file := target, names := names }

/-! ## Searching -/

/-- A listing has a path exactly if one of its modules is of that file. -/
theorem has_iff {listing : Listing} {path : Path} :
    listing.has path = true ↔ ∃ entry ∈ listing, entry.file.components = path.components := by
  simp [has, Path.same_iff]

/-- A listing does not have a path exactly if every module is of another file. -/
theorem has_eq_false_iff {listing : Listing} {path : Path} :
    listing.has path = false ↔ ∀ entry ∈ listing, entry.file.components ≠ path.components := by
  rw [← Bool.not_eq_true, has_iff]
  simp

/-- A search finds a module of the listing that has the path. -/
theorem lookUp?_some {listing : Listing} {path : Path} {entry : Module}
    (h : listing.lookUp? path = some entry) :
    entry ∈ listing ∧ entry.file.components = path.components := by
  unfold lookUp? at h
  exact ⟨List.mem_of_find?_eq_some h, by simpa [Path.same_iff] using List.find?_some h⟩

/-- A search finds nothing exactly if no module has the path. -/
theorem lookUp?_eq_none_iff {listing : Listing} {path : Path} :
    listing.lookUp? path = none ↔ ∀ entry ∈ listing, entry.file.components ≠ path.components := by
  simp [lookUp?, Path.same_iff]

/-- Modules of a listing with unique paths that have the same path stand at one position. -/
theorem Unique.position_eq {listing : Listing} (unique : listing.Unique) {i j : Nat} {a b : Module}
    (ha : listing[i]? = some a) (hb : listing[j]? = some b)
    (h : a.file.components = b.file.components) : i = j := by
  obtain ⟨hi, rfl⟩ := List.getElem?_eq_some_iff.mp ha
  obtain ⟨hj, rfl⟩ := List.getElem?_eq_some_iff.mp hb
  have hpairs := List.pairwise_iff_getElem.mp unique
  rcases Nat.lt_trichotomy i j with hlt | heq | hgt
  · exact absurd h (hpairs i j hi hj hlt)
  · exact heq
  · exact absurd h.symm (hpairs j i hj hi hgt)

/-- In a listing with unique paths, a search finds the only module that has the path. -/
theorem lookUp?_eq_some_iff {listing : Listing} (unique : listing.Unique) {path : Path}
    {entry : Module} :
    listing.lookUp? path = some entry ↔
      entry ∈ listing ∧ entry.file.components = path.components := by
  constructor
  · exact lookUp?_some
  · rintro ⟨hmem, hpath⟩
    cases hfound : listing.lookUp? path with
    | none => exact absurd hpath (lookUp?_eq_none_iff.mp hfound entry hmem)
    | some other =>
      obtain ⟨hother, hsame⟩ := lookUp?_some hfound
      obtain ⟨i, hi⟩ := List.mem_iff_getElem?.mp hmem
      obtain ⟨j, hj⟩ := List.mem_iff_getElem?.mp hother
      have hij := unique.position_eq hi hj (hpath.trans hsame.symm)
      subst hij
      rw [← hi, ← hj]

/-- In a listing with unique paths, the first position of a path is the only one. -/
theorem indexOf?_eq_some_iff {listing : Listing} (unique : listing.Unique) {path : Path} {i : Nat} :
    listing.indexOf? path = some i ↔
      ∃ entry, listing[i]? = some entry ∧ entry.file.components = path.components := by
  unfold indexOf?
  rw [List.findIdx?_eq_some_iff_getElem]
  constructor
  · rintro ⟨hi, hsame, -⟩
    exact ⟨listing[i], List.getElem?_eq_getElem hi, Path.same_iff.mp hsame⟩
  · rintro ⟨entry, hentry, hpath⟩
    obtain ⟨hi, heq⟩ := List.getElem?_eq_some_iff.mp hentry
    refine ⟨hi, Path.same_iff.mpr (by rw [heq]; exact hpath), ?_⟩
    intro j hj hother
    have hji := unique.position_eq (List.getElem?_eq_getElem (by omega)) hentry
      ((Path.same_iff.mp hother).trans hpath.symm)
    omega

/-! ## Changes at a position -/

/-- Modules at other positions than that of a path do not have it. -/
theorem Unique.not_same {listing : Listing} (unique : listing.Unique) {path : Path} {i j : Nat}
    {entry other : Module} (hentry : listing[i]? = some entry)
    (hpath : entry.file.components = path.components) (hother : listing[j]? = some other)
    (hne : i ≠ j) : other.file.same path = false := by
  rw [← Bool.not_eq_true, Path.same_iff]
  intro hsame
  exact hne (unique.position_eq hentry hother (hpath.trans hsame.symm))

/-- To change the module of a path is to change the module at the position of the path. -/
theorem modify_eq_change {listing : Listing} (unique : listing.Unique) {path : Path} {i : Nat}
    {entry : Module} (hentry : listing[i]? = some entry)
    (hpath : entry.file.components = path.components) (f : Module → Module) :
    listing.modify i f = listing.change path f := by
  apply List.ext_getElem?
  intro j
  unfold change
  rw [List.getElem?_modify, List.getElem?_map]
  cases hother : listing[j]? with
  | none => rfl
  | some other =>
    by_cases hij : i = j
    · subst hij
      rw [hentry] at hother
      cases hother
      simp [Path.same_iff.mpr hpath]
    · simp [hij, unique.not_same hentry hpath hother hij]

/-- To replace the module at the position of a path is to change the module of the path. -/
theorem set_eq_change {listing : Listing} (unique : listing.Unique) {path : Path} {i : Nat}
    {entry : Module} (hentry : listing[i]? = some entry)
    (hpath : entry.file.components = path.components) {f : Module → Module} {changed : Module}
    (hchanged : f entry = changed) : listing.set i changed = listing.change path f := by
  rw [← modify_eq_change unique hentry hpath f, List.modify_eq_set_getElem?, hentry]
  simp [hchanged]

/-- To take out the module at the position of a path is to take out the module of the path. -/
theorem eraseIdx_eq_without {listing : Listing} (unique : listing.Unique) {path : Path} {i : Nat}
    {entry : Module} (hentry : listing[i]? = some entry)
    (hpath : entry.file.components = path.components) :
    listing.eraseIdx i = listing.without path := by
  obtain ⟨hi, heq⟩ := List.getElem?_eq_some_iff.mp hentry
  have hkeep : ∀ j other, listing[j]? = some other → i ≠ j → (!other.file.same path) = true :=
    fun j other hother hne => by rw [unique.not_same hentry hpath hother hne]; rfl
  have hsplit : listing = listing.take i ++ entry :: listing.drop (i + 1) := by
    rw [← heq, List.getElem_cons_drop, List.take_append_drop]
  have hbefore : (listing.take i).filter (fun other => !other.file.same path) = listing.take i := by
    rw [List.filter_eq_self]
    intro other hmem
    obtain ⟨j, hj, rfl⟩ := List.mem_take_iff_getElem.mp hmem
    exact hkeep j _ (List.getElem?_eq_getElem (by omega)) (by omega)
  have hafter : (listing.drop (i + 1)).filter (fun other => !other.file.same path) =
      listing.drop (i + 1) := by
    rw [List.filter_eq_self]
    intro other hmem
    obtain ⟨j, hj, rfl⟩ := List.mem_drop_iff_getElem.mp hmem
    exact hkeep (i + 1 + j) _ (List.getElem?_eq_getElem (by omega)) (by omega)
  unfold without
  conv_rhs => rw [hsplit]
  rw [List.filter_append, List.filter_cons, hbefore, hafter, Path.same_iff.mpr hpath,
    List.eraseIdx_eq_take_drop_succ]
  simp

/-! ## Changes keep paths unique -/

/-- A change of a module that keeps its path keeps all paths. -/
theorem change_unique {listing : Listing} (unique : listing.Unique) {path : Path}
    {f : Module → Module}
    (keeps : ∀ entry ∈ listing, entry.file.components = path.components →
      (f entry).file.components = path.components) :
    (listing.change path f).Unique := by
  have hkeys : (listing.change path f).map (fun entry => entry.file.components) =
      listing.map fun entry => entry.file.components := by
    unfold change
    rw [List.map_map]
    refine List.map_congr_left fun entry hentry => ?_
    simp only [Function.comp_apply]
    split
    · next hsame =>
      have hpath := Path.same_iff.mp hsame
      rw [keeps entry hentry hpath, hpath]
    · rfl
  unfold Unique at unique ⊢
  rw [← List.pairwise_map (f := fun entry : Module => entry.file.components)
    (R := fun a b => a ≠ b)] at unique ⊢
  rwa [hkeys]

/-- Putting in a module keeps paths unique. -/
theorem put_unique {listing : Listing} (unique : listing.Unique) (entry : Module) :
    (listing.put entry).Unique := by
  unfold put
  split
  · exact change_unique unique fun _ _ _ => rfl
  · next hfree =>
    rw [Bool.not_eq_true, has_eq_false_iff] at hfree
    unfold Unique
    rw [List.pairwise_append]
    refine ⟨unique, List.pairwise_singleton _ _, ?_⟩
    intro other hother last hlast
    rw [List.mem_singleton.mp hlast]
    exact hfree other hother

/-- What is left of a listing has unique paths if the listing has. -/
theorem filter_unique {listing : Listing} (unique : listing.Unique) (keep : Module → Bool) :
    Unique (listing.filter keep) :=
  List.Pairwise.sublist List.filter_sublist unique

/-- Modules with paths of their own are put in one after the other at the end. -/
theorem foldl_put_of_unique {listing modules : Listing} (unique : (listing ++ modules).Unique) :
    modules.foldl put listing = listing ++ modules := by
  induction modules generalizing listing with
  | nil => exact (List.append_nil listing).symm
  | cons entry rest ih =>
    have hfree : listing.has entry.file = false := by
      rw [has_eq_false_iff]
      intro other hother
      exact (List.pairwise_append.mp unique).2.2 other hother entry List.mem_cons_self
    have hput : put listing entry = listing ++ [entry] := by
      unfold put
      rw [hfree, if_neg Bool.false_ne_true]
    rw [List.foldl_cons, hput, ih (by rwa [List.append_cons] at unique), ← List.append_cons]

/-- The listing of modules with paths of their own is these modules. -/
theorem ofModules_of_unique {modules : Listing} (unique : modules.Unique) : ofModules modules = modules :=
  foldl_put_of_unique unique

end Listing

end TypingsIndex
