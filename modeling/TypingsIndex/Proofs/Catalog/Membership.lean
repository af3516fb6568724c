import TypingsIndex.Proofs.Catalog.Consistency

/-!
# The modules of a catalog after an operation

For questions about single modules the order of a catalog does not matter. Each lemma says which modules
there are after an operation on a consistent catalog, in terms of those that there were before.
-/

set_option autoImplicit false

namespace TypingsIndex

/-- The modules after a change of the one of a path are the others and the changed one. -/
theorem Listing.mem_change {listing : Listing} {path : Path} {f : Module → Module} {entry : Module} :
    entry ∈ listing.change path f ↔
      (entry ∈ listing ∧ entry.file.components ≠ path.components) ∨
        ∃ old ∈ listing, old.file.components = path.components ∧ entry = f old := by
  unfold change
  rw [List.mem_map]
  constructor
  · rintro ⟨old, hold, heq⟩
    split at heq
    · next hsame => exact .inr ⟨old, hold, Path.same_iff.mp hsame, heq.symm⟩
    · next hother =>
      subst heq
      exact .inl ⟨hold, fun h => hother (Path.same_iff.mpr h)⟩
  · rintro (⟨hentry, hne⟩ | ⟨old, hold, hsame, rfl⟩)
    · exact ⟨entry, hentry, if_neg fun h => hne (Path.same_iff.mp h)⟩
    · exact ⟨old, hold, if_pos (Path.same_iff.mpr hsame)⟩

/-- The modules after one was put in are that one and those with other paths. -/
theorem Listing.mem_put {listing : Listing} {entry new : Module} :
    entry ∈ listing.put new ↔
      entry = new ∨ (entry ∈ listing ∧ entry.file.components ≠ new.file.components) := by
  unfold put
  split
  · next hhas =>
    obtain ⟨old, hold, hsame⟩ := has_iff.mp hhas
    rw [mem_change]
    constructor
    · rintro (h | ⟨_, _, _, rfl⟩)
      · exact .inr h
      · exact .inl rfl
    · rintro (rfl | h)
      · exact .inr ⟨old, hold, hsame, rfl⟩
      · exact .inl h
  · next hfree =>
    rw [Bool.not_eq_true, has_eq_false_iff] at hfree
    rw [List.mem_append, List.mem_singleton]
    constructor
    · rintro (h | h)
      · exact .inr ⟨h, hfree entry h⟩
      · exact .inl h
    · rintro (h | h)
      · exact .inr h
      · exact .inl h.1

/-- The modules that are left after taking out that of a path are those with other paths. -/
theorem Listing.mem_without {listing : Listing} {path : Path} {entry : Module} :
    entry ∈ listing.without path ↔
      entry ∈ listing ∧ entry.file.components ≠ path.components := by
  unfold without
  rw [List.mem_filter, Bool.not_eq_true', ← Bool.not_eq_true, Path.same_iff]

/-- Of modules put in one after the other, only these are new. -/
theorem Listing.mem_foldl_put {modules : List Module} {listing : Listing} {entry : Module}
    (h : entry ∈ modules.foldl put listing) : entry ∈ modules ∨ entry ∈ listing := by
  induction modules generalizing listing with
  | nil => exact .inr h
  | cons first rest ih =>
    rcases ih h with hrest | hput
    · exact .inl (List.mem_cons_of_mem _ hrest)
    · rcases mem_put.mp hput with rfl | ⟨hold, -⟩
      · exact .inl List.mem_cons_self
      · exact .inr hold

/-- Of modules put in one after the other, each path has one in the end. -/
theorem Listing.exists_mem_foldl_put {modules : List Module} {listing : Listing} {entry : Module}
    (h : entry ∈ modules ∨ entry ∈ listing) :
    ∃ last ∈ modules.foldl put listing, last.file.components = entry.file.components := by
  induction modules generalizing listing entry with
  | nil => exact ⟨entry, h.resolve_left List.not_mem_nil, rfl⟩
  | cons first rest ih =>
    rw [List.mem_cons] at h
    rcases h with (rfl | hrest) | hold
    · exact ih (.inr (mem_put.mpr (.inl rfl)))
    · exact ih (.inl hrest)
    · by_cases hsame : entry.file.components = first.file.components
      · rw [hsame]
        exact ih (.inr (mem_put.mpr (.inl rfl)))
      · exact ih (.inr (mem_put.mpr (.inr ⟨hold, hsame⟩)))

namespace Catalog

/-- A catalog of modules has no others. -/
theorem mem_of_mem_ofList {modules : List Module} {entry : Module}
    (h : entry ∈ (ofList modules).modules) : entry ∈ modules := by
  rw [ofList_modules] at h
  exact (Listing.mem_foldl_put h).resolve_right List.not_mem_nil

/-- A catalog of modules has one for the path of each. -/
theorem exists_mem_ofList {modules : List Module} {entry : Module} (h : entry ∈ modules) :
    ∃ last ∈ (ofList modules).modules, last.file.components = entry.file.components := by
  rw [ofList_modules]
  exact Listing.exists_mem_foldl_put (.inl h)

section

variable {catalog : Catalog} (consistent : catalog.Consistent)

include consistent

/-- A path is known exactly if a module has it. -/
theorem contains_iff {path : Path} :
    catalog.contains path = true ↔
      ∃ entry ∈ catalog.modules, entry.file.components = path.components := by
  rw [consistent.contains_eq, Listing.has_iff]

/-- The module that is found for a path is the one that has it. -/
theorem find?_eq_some_iff {path : Path} {entry : Module} :
    catalog.find? path = some entry ↔
      entry ∈ catalog.modules ∧ entry.file.components = path.components := by
  rw [consistent.find?_eq, Listing.lookUp?_eq_some_iff consistent.unique]

/-- The modules after one was put in. -/
theorem mem_insert {new entry : Module} :
    entry ∈ (catalog.insert new).modules ↔
      entry = new ∨ (entry ∈ catalog.modules ∧ entry.file.components ≠ new.file.components) := by
  rw [insert_modules consistent, Listing.mem_put]

/-- The modules after that of a path was given other functions. -/
theorem mem_replaceFunctions? {path : Path} {functions : List Signature} {digest : Option Digest}
    {after : Catalog} (h : catalog.replaceFunctions? path functions digest = some after)
    {entry : Module} :
    entry ∈ after.modules ↔
      (entry ∈ catalog.modules ∧ entry.file.components ≠ path.components) ∨
        ∃ old ∈ catalog.modules, old.file.components = path.components ∧
          entry = { old with functions := functions, digest := digest } := by
  have hmap := replaceFunctions?_map consistent path functions digest
  rw [h] at hmap
  unfold Listing.refill? at hmap
  split at hmap
  · rw [Option.map_some, Option.some.injEq] at hmap
    rw [hmap, Listing.mem_change]
  · cases hmap

/-- A path whose module cannot be given other functions is not known. -/
theorem replaceFunctions?_eq_none {path : Path} {functions : List Signature} {digest : Option Digest}
    (h : catalog.replaceFunctions? path functions digest = none) :
    ∀ entry ∈ catalog.modules, entry.file.components ≠ path.components := by
  have hmap := replaceFunctions?_map consistent path functions digest
  rw [h] at hmap
  unfold Listing.refill? at hmap
  split at hmap
  · cases hmap
  · next hfree => exact Listing.has_eq_false_iff.mp (Bool.not_eq_true _ ▸ hfree)

/-- The modules after that of a path was taken out. -/
theorem mem_erase? {path : Path} {taken : Module} {after : Catalog}
    (h : catalog.erase? path = some (taken, after)) {entry : Module} :
    entry ∈ after.modules ↔
      entry ∈ catalog.modules ∧ entry.file.components ≠ path.components := by
  have hmap := erase?_map consistent path
  rw [h] at hmap
  obtain ⟨found, -, heq⟩ := Option.map_eq_some_iff.mp hmap.symm
  have hmodules : Listing.without catalog.modules path = after.modules := congrArg Prod.snd heq
  rw [← hmodules, Listing.mem_without]

/-- Only a module that is there can be taken out. -/
theorem exists_of_erase? {path : Path} {taken : Module × Catalog} (h : catalog.erase? path = some taken) :
    ∃ entry ∈ catalog.modules, entry.file.components = path.components := by
  refine (contains_iff consistent).mp ?_
  unfold contains
  unfold erase? at h
  obtain ⟨i, hposition, -⟩ := Option.bind_eq_some_iff.mp h
  rw [hposition]
  rfl

/-- A path whose module cannot be taken out is not known. -/
theorem erase?_eq_none {path : Path} (h : catalog.erase? path = none) :
    ∀ entry ∈ catalog.modules, entry.file.components ≠ path.components := by
  have hmap := erase?_map consistent path
  rw [h] at hmap
  exact Listing.lookUp?_eq_none_iff.mp (Option.map_eq_none_iff.mp hmap.symm)

/-- The modules after that of one path was moved to another, which was free. -/
theorem mem_rename? {source target root : Path} {after : Catalog}
    (h : catalog.rename? source target root = some after) :
    catalog.contains source = true ∧ catalog.contains target = false
      ∧ ∃ names, ModuleNames.ofFile? target root = some names ∧ ∀ entry, entry ∈ after.modules ↔
        (entry ∈ catalog.modules ∧ entry.file.components ≠ source.components) ∨
          ∃ old ∈ catalog.modules, old.file.components = source.components
            ∧ entry = { old with file := target, names := names } := by
  have hmap := rename?_map consistent source target root
  rw [h] at hmap
  unfold Listing.move? at hmap
  split at hmap
  · cases hmap
  · next hfree =>
    rw [Bool.or_eq_true, not_or, Bool.not_eq_true, Bool.not_eq_true, Bool.not_eq_false'] at hfree
    obtain ⟨names, hnames, hmodules⟩ := Option.map_eq_some_iff.mp hmap.symm
    refine ⟨?_, ?_, names, hnames, fun entry => ?_⟩
    · rw [consistent.contains_eq]
      exact hfree.2
    · rw [consistent.contains_eq]
      exact hfree.1
    · rw [← hmodules, Listing.mem_change]

end

/-- The modules after those at or below a directory were taken out. -/
theorem mem_eraseBelow {catalog : Catalog} {directory : Path} {entry : Module} :
    entry ∈ (catalog.eraseBelow directory).2.modules ↔
      entry ∈ catalog.modules ∧ entry.file.isAtOrBelow directory = false := by
  have hbelow : (catalog.eraseBelow directory).2.modules =
      (Listing.takeBelow catalog.modules directory).2 :=
    congrArg Prod.snd (eraseBelow_modules directory)
  rw [hbelow, Listing.takeBelow, List.mem_filter, Bool.not_eq_true']

end Catalog

end TypingsIndex
