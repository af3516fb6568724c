import TypingsIndex.Proofs.Catalog.Consistency

/-!
# A catalog does what a listing does

Operations on a catalog are given as data, each with the answer that it returns, so that whole sequences of
them can be run. `performs_as_listing` is the step: from a consistent catalog, an operation gives the
answer and the modules that the listing of its modules gives, and a consistent catalog again.
`run_as_listing` follows by induction on the sequence, and `catalog_refines_listing` starts it from the
catalog of any modules.
-/

set_option autoImplicit false

namespace TypingsIndex.Catalog

/-- What can be done to a catalog. -/
inductive Operation where
  | insert (entry : Module)
  | replaceFunctions (path : Path) (functions : List Signature) (digest : Option Digest)
  | erase (path : Path)
  | eraseBelow (directory : Path)
  | rename (source target root : Path)
  deriving DecidableEq, Repr

/-- What an operation returns. -/
inductive Answer where
  /-- The position of the module that was put in. -/
  | position (index : Nat)
  /-- Whether the operation was possible. -/
  | done (success : Bool)
  /-- The module that was taken out, if there was one. -/
  | taken (entry : Option Module)
  /-- The modules that were taken out, in order. -/
  | takenAll (entries : List Module)
  deriving DecidableEq, Repr

/-- An operation on a catalog: its answer and the catalog after it. -/
def perform (catalog : Catalog) : Operation → Answer × Catalog
  | .insert entry =>
    let placed := catalog.insertWithPosition entry
    (.position placed.1, placed.2)
  | .replaceFunctions path functions digest =>
    let after := catalog.replaceFunctions? path functions digest
    (.done after.isSome, after.getD catalog)
  | .erase path =>
    let taken := catalog.erase? path
    (.taken (taken.map Prod.fst), (taken.map Prod.snd).getD catalog)
  | .eraseBelow directory =>
    (.takenAll (catalog.eraseBelow directory).1, (catalog.eraseBelow directory).2)
  | .rename source target root =>
    let after := catalog.rename? source target root
    (.done after.isSome, after.getD catalog)

/-- Operations one after the other: their answers in order and the catalog after them. -/
def run (catalog : Catalog) : List Operation → List Answer × Catalog
  | [] => ([], catalog)
  | operation :: rest =>
    let step := catalog.perform operation
    (step.1 :: (step.2.run rest).1, (step.2.run rest).2)

end Catalog

namespace Listing

open Catalog (Operation Answer)

/-- An operation on a listing: its answer and the listing after it. -/
def perform (listing : Listing) : Operation → Answer × Listing
  | .insert entry =>
    (.position ((listing.indexOf? entry.file).getD listing.length), listing.put entry)
  | .replaceFunctions path functions digest =>
    let after := listing.refill? path functions digest
    (.done after.isSome, after.getD listing)
  | .erase path =>
    (.taken (listing.lookUp? path), listing.without path)
  | .eraseBelow directory =>
    (.takenAll (listing.takeBelow directory).1, (listing.takeBelow directory).2)
  | .rename source target root =>
    let after := listing.move? source target root
    (.done after.isSome, after.getD listing)

/-- Operations one after the other: their answers in order and the listing after them. -/
def run (listing : Listing) : List Operation → List Answer × Listing
  | [] => ([], listing)
  | operation :: rest =>
    let step := listing.perform operation
    (step.1 :: (run step.2 rest).1, (run step.2 rest).2)

/-- A module that was put in stands where its path stood before, or else at the end. -/
theorem indexOf?_put {listing : Listing} (unique : listing.Unique) (entry : Module) :
    (listing.put entry).indexOf? entry.file =
      some ((listing.indexOf? entry.file).getD listing.length) := by
  rw [indexOf?_eq_some_iff (put_unique unique entry)]
  refine ⟨entry, ?_, rfl⟩
  cases hindex : listing.indexOf? entry.file with
  | some i =>
    obtain ⟨old, hold, hpath⟩ := (indexOf?_eq_some_iff unique).mp hindex
    have hhas : listing.has entry.file = true :=
      has_iff.mpr ⟨old, List.mem_of_getElem? hold, hpath⟩
    unfold put change
    rw [if_pos hhas, List.getElem?_map, Option.getD_some, hold, Option.map_some,
      if_pos (Path.same_iff.mpr hpath)]
  | none =>
    have hfree : listing.has entry.file = false := by
      unfold indexOf? at hindex
      rw [has_eq_false_iff]
      intro other hother
      have hsame := List.findIdx?_eq_none_iff.mp hindex other hother
      rwa [← Bool.not_eq_true, Path.same_iff] at hsame
    unfold put
    rw [hfree, if_neg Bool.false_ne_true, Option.getD_none, List.getElem?_concat_length]

end Listing

namespace Catalog

/-- The position that comes with a module put in is that of the old module of its path, or the first free one. -/
theorem insertWithPosition_position {catalog : Catalog} (consistent : catalog.Consistent) (entry : Module) :
    (catalog.insertWithPosition entry).1 =
      (Listing.indexOf? catalog.modules entry.file).getD catalog.modules.length := by
  rw [← consistent.position?_eq]
  unfold insertWithPosition
  cases catalog.position? entry.file <;> rfl

/-- The position that comes with a module put in is where its path is then found. -/
theorem position?_insert {catalog : Catalog} (consistent : catalog.Consistent) (entry : Module) :
    (catalog.insert entry).position? entry.file = some (catalog.insertWithPosition entry).1 := by
  rw [(insert_consistent consistent entry).position?_eq, insert_modules consistent,
    Listing.indexOf?_put consistent.unique, insertWithPosition_position consistent]

/-- An operation on a consistent catalog leaves it consistent. -/
theorem perform_consistent {catalog : Catalog} (consistent : catalog.Consistent)
    (operation : Operation) : (catalog.perform operation).2.Consistent := by
  cases operation with
  | insert entry => exact insert_consistent consistent entry
  | replaceFunctions path functions digest =>
    simp only [perform]
    cases h : catalog.replaceFunctions? path functions digest with
    | none => exact consistent
    | some after => exact replaceFunctions?_consistent consistent h
  | erase path =>
    simp only [perform]
    cases h : catalog.erase? path with
    | none => exact consistent
    | some taken => exact erase?_consistent consistent h
  | eraseBelow directory => exact eraseBelow_consistent consistent directory
  | rename source target root =>
    simp only [perform]
    cases h : catalog.rename? source target root with
    | none => exact consistent
    | some after => exact rename?_consistent consistent h

/-- An operation on a consistent catalog returns what it returns on the listing of its modules, and
leaves the modules that it leaves there. -/
theorem performs_as_listing {catalog : Catalog} (consistent : catalog.Consistent)
    (operation : Operation) :
    ((catalog.perform operation).1, (catalog.perform operation).2.modules) =
      Listing.perform catalog.modules operation := by
  cases operation with
  | insert entry =>
    have hmodules := insert_modules consistent entry
    have hposition := insertWithPosition_position consistent entry
    unfold insert at hmodules
    simp only [perform, Listing.perform, hmodules, hposition]
  | replaceFunctions path functions digest =>
    have hmap := replaceFunctions?_map consistent path functions digest
    simp only [perform, Listing.perform, ← hmap, Option.isSome_map]
    cases catalog.replaceFunctions? path functions digest <;> rfl
  | erase path =>
    have hmap := erase?_map consistent path
    unfold Listing.take? at hmap
    simp only [perform, Listing.perform]
    cases htaken : catalog.erase? path with
    | none =>
      rw [htaken] at hmap
      have hnone := Option.map_eq_none_iff.mp hmap.symm
      have hwithout : Listing.without catalog.modules path = catalog.modules := by
        unfold Listing.without
        rw [List.filter_eq_self]
        intro entry hentry
        have hother := Listing.lookUp?_eq_none_iff.mp hnone entry hentry
        rwa [Bool.not_eq_true', ← Bool.not_eq_true, Path.same_iff]
      simp [hnone, hwithout]
    | some taken =>
      rw [htaken] at hmap
      obtain ⟨entry, hentry, heq⟩ := Option.map_eq_some_iff.mp hmap.symm
      simp only [Prod.mk.injEq] at heq
      simp [hentry, heq]
  | eraseBelow directory =>
    have hbelow : _ = Listing.takeBelow catalog.modules directory := eraseBelow_modules directory
    simp only [perform, Listing.perform, ← hbelow]
  | rename source target root =>
    have hmap := rename?_map consistent source target root
    simp only [perform, Listing.perform, ← hmap, Option.isSome_map]
    cases catalog.rename? source target root <;> rfl

/-- A sequence of operations on a consistent catalog returns what it returns on the listing of its
modules, and leaves a consistent catalog of the modules that it leaves there. -/
theorem run_as_listing {catalog : Catalog} (consistent : catalog.Consistent)
    (operations : List Operation) :
    (catalog.run operations).2.Consistent ∧
      ((catalog.run operations).1, (catalog.run operations).2.modules) =
        Listing.run catalog.modules operations := by
  induction operations generalizing catalog with
  | nil => exact ⟨consistent, rfl⟩
  | cons operation rest ih =>
    have hstep := performs_as_listing consistent operation
    obtain ⟨hlast, hrest⟩ := ih (perform_consistent consistent operation)
    refine ⟨hlast, ?_⟩
    simp only [run, Listing.run, ← hstep, ← hrest]

/-- A refused operation changes nothing. -/
theorem perform_refused {catalog : Catalog} {operation : Operation}
    (h : (catalog.perform operation).1 = .done false) : (catalog.perform operation).2 = catalog := by
  cases operation with
  | insert | erase | eraseBelow => simp [perform] at h
  | replaceFunctions path functions digest =>
    simp only [perform, Answer.done.injEq, Option.isSome_eq_false_iff, Option.isNone_iff_eq_none] at h
    simp [perform, h]
  | rename source target root =>
    simp only [perform, Answer.done.injEq, Option.isSome_eq_false_iff, Option.isNone_iff_eq_none] at h
    simp [perform, h]

/-- However a catalog was made and whatever was done to it since, its check succeeds, its paths are
unique, and its modules, the answers so far and everything that can be looked up are those of the plain
list that went through the same; a module that is put in is found at the position that comes with it, and an
operation that is refused changes nothing. Every initial part of a sequence is a sequence, so this holds after each
operation. -/
theorem catalog_refines_listing (modules : List Module) (operations : List Operation) :
    let catalog := ((ofList modules).run operations).2
    let listing := (Listing.run (Listing.ofModules modules) operations).2
    catalog.isConsistent = true
      ∧ Listing.Unique catalog.modules
      ∧ catalog.modules = listing
      ∧ ((ofList modules).run operations).1 =
          (Listing.run (Listing.ofModules modules) operations).1
      ∧ (∀ path, catalog.position? path = Listing.indexOf? listing path
          ∧ catalog.contains path = Listing.has listing path
          ∧ catalog.find? path = Listing.lookUp? listing path
          ∧ catalog.hasBelow path = Listing.hasBelow listing path)
      ∧ (∀ entry, (catalog.insert entry).position? entry.file = some (catalog.insertWithPosition entry).1)
      ∧ ∀ operation, (catalog.perform operation).1 = .done false →
          (catalog.perform operation).2 = catalog := by
  intro catalog listing
  obtain ⟨hconsistent, hrun⟩ := run_as_listing (ofList_consistent modules) operations
  rw [ofList_modules] at hrun
  have hmodules : catalog.modules = listing := congrArg Prod.snd hrun
  refine ⟨hconsistent.isConsistent, hconsistent.unique, hmodules, congrArg Prod.fst hrun, ?_,
    position?_insert hconsistent, fun _ => perform_refused⟩
  intro path
  rw [← hmodules]
  exact ⟨hconsistent.position?_eq path, hconsistent.contains_eq path, hconsistent.find?_eq path, rfl⟩

end Catalog

end TypingsIndex
