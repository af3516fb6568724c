import TypingsIndex.Proofs.Catalog.Membership
import TypingsIndex.Proofs.Path.Descent
import TypingsIndex.Proofs.Watch.Effects
import TypingsIndex.Watch.Tracking

/-!
# What the news of a touch, a removal or a renaming comes to

The three outcomes of a touch, the session after a removal, and the outcomes of a renaming. A removal takes out
everything at or below a path if no module lies strictly below the file of another one, as it is with the modules
of files that have been on a disk.
-/

set_option autoImplicit false

namespace TypingsIndex.Session

section

variable (world : Surroundings) (now : Nat) (session : Session) (path : Path)

/-- The outcomes of a touch. -/
inductive PathTouched (world : Surroundings) (now : Nat) (before : Session) (path : Path) :
    Session → Prop where
  | marked (accepted : before.accepts path = true) :
      PathTouched world now before path
        ({ before with pending := before.pending.insert path }.requestDrain now)
  | rescanned (refused : before.accepts path = false)
      (concerns : before.catalog.hasBelow path = true ∨ before.isDirectoryBelowRoot world path = true) :
      PathTouched world now before path (before.requestRescan now)
  | ignored (refused : before.accepts path = false) (unknown : before.catalog.hasBelow path = false)
      (elsewhere : before.isDirectoryBelowRoot world path = false) :
      PathTouched world now before path before

/-- A touch has one of the outcomes. -/
theorem touch_touched : PathTouched world now session path (session.touch world now path) := by
  unfold touch
  split
  · next accepted => exact .marked accepted
  · next refused =>
    rw [Bool.not_eq_true] at refused
    split
    · next concerns => exact .rescanned refused (Bool.or_eq_true _ _ ▸ concerns)
    · next ignored =>
      rw [Bool.or_eq_true, not_or, Bool.not_eq_true, Bool.not_eq_true] at ignored
      exact .ignored refused ignored.1 ignored.2

/-- A touch leaves the modules as they are. -/
@[simp] theorem touch_catalog : (session.touch world now path).catalog = session.catalog := by
  have htouched := touch_touched world now session path
  generalize session.touch world now path = after at htouched
  cases htouched <;> rfl

/-- The session after the news of a removal. -/
theorem remove_value :
    (session.remove path).value =
      { session with
        pending := session.pending.eraseBelow path
        catalog := (catalogWithout? session.catalog path).getD session.catalog } := by
  simp only [remove]
  cases catalogWithout? session.catalog path <;> rfl

/-- What the news of a removal does. -/
theorem remove_effects :
    (session.remove path).effects =
      match catalogWithout? session.catalog path with
      | some catalog => Effect.publication catalog
      | none => [] := by
  simp only [remove]
  cases catalogWithout? session.catalog path <;> rfl

/-- A module moves only to a path that is accepted. -/
theorem catalogRenamed?_eq_some {target : Path} {catalog : Catalog}
    (h : session.catalogRenamed? path target = some catalog) :
    session.accepts target = true ∧ session.catalog.rename? path target session.root = some catalog := by
  unfold catalogRenamed? at h
  split at h
  · next accepted => exact ⟨accepted, h⟩
  · cases h

/-- The outcomes of the news of a renaming, each with what it does. -/
inductive PathRenamed (world : Surroundings) (now : Nat) (before : Session) (source target : Path) :
    Turn Session → Prop where
  | ignored (plain : source.isDeclarationFile = false ∧ target.isDeclarationFile = false)
      (unknown : before.catalog.hasBelow source = false)
      (elsewhere : before.isDirectoryBelowRoot world target = false) :
      PathRenamed world now before source target ⟨before, []⟩
  | rescanned (plain : source.isDeclarationFile = false ∧ target.isDeclarationFile = false)
      (concerns : before.catalog.hasBelow source = true ∨ before.isDirectoryBelowRoot world target = true) :
      PathRenamed world now before source target
        ⟨({ before with pending := before.pending.eraseBelow source }).requestRescan now, []⟩
  | moved {catalog : Catalog} (taken : before.catalogRenamed? source target = some catalog) :
      PathRenamed world now before source target
        ⟨{ before with catalog := catalog, pending := before.pending.rename source target },
          Effect.publication catalog⟩
  /-- The module cannot move: its new path is not accepted, or not free. -/
  | replaced (known : before.catalog.contains source = true)
      (refused : before.catalogRenamed? source target = none) :
      PathRenamed world now before source target
        ⟨(before.remove source).value.touch world now target, (before.remove source).effects⟩
  | arrived (declared : source.isDeclarationFile = true ∨ target.isDeclarationFile = true)
      (unknown : before.catalog.contains source = false) :
      PathRenamed world now before source target
        ⟨({ before with pending := before.pending.erase source }).touch world now target, []⟩

/-- The news of a renaming has one of the outcomes. -/
theorem rename_renamed (target : Path) :
    PathRenamed world now session path target (session.rename world now path target) := by
  unfold rename
  split
  · next hplain =>
    simp only [Bool.and_eq_true, Bool.not_eq_true'] at hplain
    split
    · next hconcerns => exact .rescanned hplain (Bool.or_eq_true _ _ ▸ hconcerns)
    · next hignored =>
      rw [Bool.or_eq_true, not_or, Bool.not_eq_true, Bool.not_eq_true] at hignored
      exact .ignored hplain hignored.1 hignored.2
  · next hdeclared =>
    cases hknown : session.catalog.contains path with
    | false =>
      refine .arrived ?_ hknown
      simpa [Bool.and_eq_true, imp_iff_not_or] using hdeclared
    | true =>
      cases htaken : session.catalogRenamed? path target with
      | some catalog =>
        simp only [if_true]
        exact .moved htaken
      | none =>
        simp only [if_true]
        convert PathRenamed.replaced hknown htaken using 1
        simp [bind, pure]

end

section

variable {catalog after : Catalog} (consistent : catalog.Consistent) {path : Path}

include consistent

/-- A catalog stays consistent when what is at or below a path is taken out. -/
theorem catalogWithout?_consistent (h : catalogWithout? catalog path = some after) :
    after.Consistent := by
  unfold catalogWithout? at h
  split at h
  · obtain ⟨⟨taken, rest⟩, htaken, rfl⟩ := Option.map_eq_some_iff.mp h
    exact Catalog.erase?_consistent consistent htaken
  · split at h
    · obtain rfl := Option.some.inj h
      exact Catalog.eraseBelow_consistent consistent path
    · cases h

/-- Nothing comes in when what is at or below a path is taken out. -/
theorem mem_of_catalogWithout? (h : catalogWithout? catalog path = some after) {entry : Module}
    (hentry : entry ∈ after.modules) : entry ∈ catalog.modules := by
  unfold catalogWithout? at h
  split at h
  · obtain ⟨⟨taken, rest⟩, htaken, rfl⟩ := Option.map_eq_some_iff.mp h
    exact ((Catalog.mem_erase? consistent htaken).mp hentry).1
  · split at h
    · obtain rfl := Option.some.inj h
      exact (Catalog.mem_eraseBelow.mp hentry).1
    · cases h

/-- What is left when what is at or below a path is taken out, if the path of a module has no other
modules below it. -/
theorem mem_catalogWithout?
    (flat : catalog.contains path = true → ∀ entry ∈ catalog.modules,
      entry.file.isAtOrBelow path = true → entry.file.components = path.components)
    {entry : Module} :
    entry ∈ ((catalogWithout? catalog path).getD catalog).modules ↔
      entry ∈ catalog.modules ∧ entry.file.isAtOrBelow path = false := by
  unfold catalogWithout?
  split
  · next hknown =>
    cases htaken : catalog.erase? path with
    | none =>
      obtain ⟨known, hmem, hsame⟩ := (Catalog.contains_iff consistent).mp hknown
      exact absurd hsame (Catalog.erase?_eq_none consistent htaken known hmem)
    | some taken =>
      rw [Option.map_some, Option.getD_some, Catalog.mem_erase? consistent htaken]
      constructor
      · rintro ⟨hentry, hne⟩
        refine ⟨hentry, ?_⟩
        rw [← Bool.not_eq_true]
        exact fun hbelow => hne (flat hknown entry hentry hbelow)
      · rintro ⟨hentry, hout⟩
        refine ⟨hentry, fun hsame => ?_⟩
        rw [← Bool.not_eq_true, Path.isAtOrBelow_iff, hsame] at hout
        exact hout List.prefix_rfl
  · split
    · rw [Option.getD_some]
      exact Catalog.mem_eraseBelow
    · next hnone =>
      rw [Option.getD_none]
      refine ⟨fun hentry => ⟨hentry, ?_⟩, fun h => h.1⟩
      unfold Catalog.hasBelow at hnone
      rw [List.any_eq_true, not_exists] at hnone
      rw [← Bool.not_eq_true]
      exact fun hbelow => hnone entry ⟨hentry, hbelow⟩

end

end TypingsIndex.Session
