import TypingsIndex.Proofs.Catalog.Consistency

/-!
# Catalogs without the module of one file

Two catalogs may differ in the module of a single file: in what it declares, in where it stands, and in whether it is
there. The lists without this module are then equal, and an operation on another path keeps them equal, since taking
the module out before the operation or after it comes to the same list.
-/

set_option autoImplicit false

namespace TypingsIndex

namespace Listing

variable {listing : Listing} {file path : Path}

/-- Which module is left out depends on the components of the path only. -/
theorem without_congr (same : path.components = file.components) : listing.without path = listing.without file := by
  unfold without Path.same
  rw [same]

/-- Leaving out a file twice is leaving it out once. -/
theorem without_same (same : path.components = file.components) :
    (listing.without path).without file = listing.without file := by
  rw [without_congr same]
  unfold without
  rw [List.filter_filter]
  simp only [Bool.and_self]

/-- Leaving out one file does not show when another is asked for. -/
theorem has_without (other : path.components ≠ file.components) :
    (listing.without file).has path = listing.has path := by
  unfold has without
  rw [List.any_filter]
  congr 1
  funext entry
  cases hpath : entry.file.same path with
  | true => rw [Path.same_eq_false other hpath]; rfl
  | false => exact Bool.and_false _

/-- Leaving out one file does not show when another is looked up. -/
theorem lookUp?_without (other : path.components ≠ file.components) :
    (listing.without file).lookUp? path = listing.lookUp? path := by
  unfold lookUp? without
  rw [List.find?_filter]
  congr 1
  funext entry
  cases hpath : entry.file.same path with
  | true => simp [Path.same_eq_false other hpath]
  | false => simp

/-- A change to the modules of one file can be made after another file is left out. -/
theorem without_change (other : path.components ≠ file.components) {f : Module → Module}
    (keeps : ∀ entry, entry.file.components = path.components → (f entry).file.components = path.components) :
    (listing.change path f).without file = (listing.without file).change path f := by
  unfold change without
  rw [List.filter_map]
  congr 1
  refine List.filter_congr fun entry _ => ?_
  simp only [Function.comp_apply]
  split
  · next hpath =>
    have hkept := Path.same_iff.mpr (keeps entry (Path.same_iff.mp hpath))
    rw [Path.same_eq_false other hkept, Path.same_eq_false other hpath]
  · rfl

/-- A change of the module itself leaves no trace without it. -/
theorem without_change_same (same : path.components = file.components) {f : Module → Module}
    (keeps : ∀ entry, entry.file.components = path.components → (f entry).file.components = path.components) :
    (listing.change path f).without file = listing.without file := by
  rw [← without_congr same, ← without_congr same]
  induction listing with
  | nil => rfl
  | cons entry rest ih =>
    unfold change without at ih ⊢
    rw [List.map_cons, List.filter_cons, List.filter_cons, ih]
    cases hpath : entry.file.same path with
    | true =>
      have hkept := Path.same_iff.mpr (keeps entry (Path.same_iff.mp hpath))
      simp [hkept]
    | false => simp [hpath]

/-- A module of one file can be put in after another file is left out. -/
theorem without_put {entry : Module} (other : entry.file.components ≠ file.components) :
    (listing.put entry).without file = (listing.without file).put entry := by
  unfold put
  rw [has_without other]
  split
  · exact without_change other fun _ _ => rfl
  · have hkept : without [entry] file = [entry] := by
      unfold without
      rw [List.filter_eq_self]
      intro last hlast
      rw [List.mem_singleton.mp hlast, Bool.not_eq_true', ← Bool.not_eq_true, Path.same_iff]
      exact other
    unfold without at hkept ⊢
    rw [List.filter_append, hkept]

/-- Putting in a module of a file does not show once this file is left out. -/
theorem without_put_same {entry : Module} (same : entry.file.components = file.components) :
    (listing.put entry).without file = listing.without file := by
  unfold put
  split
  · exact without_change_same same fun _ _ => rfl
  · unfold without
    rw [List.filter_append, List.filter_singleton, Path.same_iff.mpr same]
    exact List.append_nil _

/-- Of modules put in one after the other, those of a file may as well never have been put in. -/
theorem without_foldl_put (modules : List Module) :
    (modules.foldl put listing).without file = (without modules file).foldl put (listing.without file) := by
  induction modules generalizing listing with
  | nil => rfl
  | cons entry rest ih =>
    have hfirst : without (entry :: rest) file =
        if entry.file.same file then without rest file else entry :: without rest file := by
      unfold without
      rw [List.filter_cons]
      cases entry.file.same file <;> rfl
    rw [List.foldl_cons, ih, hfirst]
    split
    · next hsame => rw [without_put_same (Path.same_iff.mp hsame)]
    · next hother =>
      rw [Path.same_iff] at hother
      rw [without_put hother, List.foldl_cons]

/-- New functions can be filled in for one file after another is left out, and they are refused alike. -/
theorem without_refill? (other : path.components ≠ file.components) (functions : List Signature)
    (digest : Option Digest) :
    (listing.refill? path functions digest).map (without · file) =
      (listing.without file).refill? path functions digest := by
  unfold refill?
  rw [has_without other]
  split
  · rw [Option.map_some, Option.some.injEq]
    apply without_change other
    intro entry hentry
    exact hentry
  · rfl

/-- The module of one file can be taken after another file is left out, and the same one is taken. -/
theorem without_take? (other : path.components ≠ file.components) :
    (listing.take? path).map (fun taken => (taken.1, taken.2.without file)) =
      (listing.without file).take? path := by
  unfold take?
  rw [lookUp?_without other, Option.map_map]
  congr 1
  funext entry
  simp only [Function.comp_apply, Prod.mk.injEq, true_and]
  exact List.filter_comm _ _ _

end Listing

namespace Catalog

/-- A catalog once the module of a file is taken out, if there is one. -/
def erased (catalog : Catalog) (file : Path) : Catalog :=
  ((catalog.erase? file).map Prod.snd).getD catalog

variable {catalog : Catalog} (consistent : catalog.Consistent)

include consistent

/-- A catalog that gives up the module of a file has the other modules left. -/
theorem erase?_modules {path : Path} {taken : Module × Catalog} (h : catalog.erase? path = some taken) :
    taken.2.modules = Listing.without catalog.modules path := by
  have hmap := erase?_map consistent path
  rw [h] at hmap
  obtain ⟨found, -, heq⟩ := Option.map_eq_some_iff.mp hmap.symm
  exact (congrArg Prod.snd heq).symm

/-- A catalog from which a file is erased has the other modules left, whether or not it had one of the file. -/
theorem erased_modules (file : Path) : (catalog.erased file).modules = Listing.without catalog.modules file := by
  unfold erased
  cases htaken : catalog.erase? file with
  | some taken => exact erase?_modules consistent htaken
  | none =>
    have hmap := erase?_map consistent file
    rw [htaken] at hmap
    have hunknown := Listing.lookUp?_eq_none_iff.mp (Option.map_eq_none_iff.mp hmap.symm)
    refine (List.filter_eq_self.mpr fun entry hentry => ?_).symm
    rw [Bool.not_eq_true', ← Bool.not_eq_true, Path.same_iff]
    exact hunknown entry hentry

omit consistent in
/-- A catalog of modules is, without that of a file, the catalog of the others. -/
theorem ofList_erased_modules (modules : List Module) (file : Path) :
    ((ofList modules).erased file).modules = Listing.ofModules (Listing.without modules file) := by
  rw [erased_modules (ofList_consistent modules), ofList_modules]
  exact Listing.without_foldl_put modules

end Catalog

end TypingsIndex
