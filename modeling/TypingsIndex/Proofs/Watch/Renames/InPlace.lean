import TypingsIndex.Disk.Operations
import TypingsIndex.Proofs.Watch.Run

/-!
# What the news of a renamed declaration file comes to

A module moves with its file if its new path is one that could be tracked and is free (`Relocatable`). It then stays
where it stands in the catalog with all that was read of it, and a read of the file that was owed under the old name is
owed under the new one with its failures so far (`MovedInPlace`).

Where a module cannot move, or there is none, the news is that something is gone at the one path and new at the other.
The only difference between a renaming and the two pieces of news is that a renaming unmarks a file and a removal
everything at or below a path, so that they agree where nothing lies below the old name
(`rename_moves_or_replaces`).
-/

set_option autoImplicit false

namespace TypingsIndex

/-- The module of a path that moves to a free path keeps its position. The table leads there from the new path and no
longer from the old one. -/
theorem Catalog.exists_rename? {catalog : Catalog} (consistent : catalog.Consistent) {source target root : Path}
    {i : Nat} {entry : Module} {names : ModuleNames} (found : catalog.modules[i]? = some entry)
    (same : entry.file.components = source.components) (free : catalog.contains target = false)
    (named : ModuleNames.ofFile? target root = some names) :
    ∃ after, catalog.rename? source target root = some after
      ∧ after.modules = catalog.modules.set i { entry with file := target, names := names }
      ∧ ∀ other, after.position? other =
        if target.components = other.components then some i
        else if source.components = other.components then none
        else catalog.position? other := by
  have hposition : catalog.position? source = some i := (consistent.position_iff source i).mpr ⟨entry, found, same⟩
  refine ⟨⟨catalog.modules.set i { entry with file := target, names := names },
    (catalog.positions.erase source).insert target i⟩, ?_, rfl, fun other => ?_⟩
  · unfold rename?
    rw [free, if_neg Bool.false_ne_true]
    simp [hposition, found, Module.relocate?, named]
  · unfold position?
    simp only [Std.TreeMap.getElem?_insert, Std.TreeMap.getElem?_erase, Path.compare_eq_iff]

namespace Pending

variable {pending : Pending} {source target : Path}

/-- A mark that moves takes its failures along; if none moves, the mark of the target stays as it is. -/
theorem failures?_rename_target :
    (pending.rename source target).failures? target = (pending.failures? source).or (pending.failures? target) := by
  unfold rename
  cases pending.failures? source with
  | none => rfl
  | some failures => exact failures?_place_same

/-- Apart from the target, the marks are those from before without the one that has moved. -/
theorem erase_rename :
    (pending.rename source target).erase target = (pending.erase source).erase target := by
  unfold rename
  cases hsource : pending.failures? source with
  | none =>
    have hunmarked : pending.contains source = false := by
      unfold contains
      rw [hsource]
      rfl
    rw [erase_of_unmarked hunmarked]
  | some failures => exact erase_place_same rfl

end Pending

namespace Session

/-- The module of a file can move with it: there is one, and the new path is an accepted one strictly below the root at
which there is no module. -/
structure Relocatable (session : Session) (source target : Path) : Prop where
  known : session.catalog.contains source = true
  accepted : session.accepts target = true
  below : target.components ≠ session.root.components
  free : session.catalog.contains target = false

/-- What the news of a renaming does to a session if the module moves. -/
structure MovedInPlace (before : Session) (source target : Path) (turn : Turn Session) : Prop where
  /-- The module has its new path and the names that this path gives it, the functions and the digest that it had, and
  its position. All other modules are where they were. -/
  moved : ∃ i entry names, before.catalog.modules[i]? = some entry ∧ entry.file.components = source.components
    ∧ ModuleNames.ofFile? target before.root = some names
    ∧ turn.value.catalog.modules = before.catalog.modules.set i { entry with file := target, names := names }
    ∧ turn.value.catalog.position? target = some i
  /-- All other paths are looked up as before. -/
  positions : ∀ other, other.components ≠ source.components → other.components ≠ target.components →
    turn.value.catalog.position? other = before.catalog.position? other
  consistent : turn.value.catalog.isConsistent = true
  /-- The new path has the mark of the old one with its failures, or else keeps the one that it had. -/
  mark : turn.value.pending.failures? target =
    (before.pending.failures? source).or (before.pending.failures? target)
  /-- All other marks but that of the old path are there as before, in their order. -/
  marks : turn.value.pending.erase target = (before.pending.erase source).erase target
  rising : turn.value.pending.Rising
  /-- Nothing is left at the old path. -/
  gone : turn.value.catalog.contains source = false
  unmarked : turn.value.pending.contains source = false
  /-- The settings, the root and all deadlines stay. -/
  frame : turn.value = { before with pending := turn.value.pending, catalog := turn.value.catalog }
  /-- The new catalog is told, and nothing else is. -/
  told : turn.effects.filterMap Effect.event? = [.catalogChanged turn.value.catalog]

variable {session : Session} {source target : Path} {world : Surroundings} {now : Nat}

/-- An accepted path strictly below the root gives a module its names. -/
theorem exists_ofFile?_of_accepts (accepted : session.accepts target = true)
    (below : target.components ≠ session.root.components) :
    ∃ names, ModuleNames.ofFile? target session.root = some names := by
  unfold accepts at accepted
  rw [Bool.and_eq_true, Option.any_eq_true] at accepted
  obtain ⟨hdeclared, segments, hsegments, -⟩ := accepted
  rw [Path.namesBelow_iff] at hsegments
  refine ModuleNames.exists_ofFile? hdeclared ?_ hsegments
  rintro rfl
  exact below (by simpa using hsegments)

/-- The news of a renaming to a declaration file moves a module that the catalog can move. -/
theorem rename_eq_of_taken {catalog : Catalog} (declared : target.isDeclarationFile = true)
    (known : session.catalog.contains source = true) (taken : session.catalogRenamed? source target = some catalog) :
    session.rename world now source target =
      ⟨{ session with catalog := catalog, pending := session.pending.rename source target },
        Effect.publication catalog⟩ := by
  have hrenamed := rename_renamed world now session source target
  generalize session.rename world now source target = turn at hrenamed
  cases hrenamed with
  | ignored plain | rescanned plain =>
    rw [plain.2] at declared
    cases declared
  | moved moved =>
    rw [taken] at moved
    rw [Option.some.inj moved]
  | replaced _ refused =>
    rw [taken] at refused
    cases refused
  | arrived _ unknown =>
    rw [known] at unknown
    cases unknown

/-- The news of a renaming moves the module wherever it can. -/
theorem rename_moved (sound : session.Sound) (relocatable : session.Relocatable source target) :
    MovedInPlace session source target (session.rename world now source target) := by
  obtain ⟨entry, hentry, hsame⟩ := (Catalog.contains_iff sound.consistent).mp relocatable.known
  obtain ⟨i, hfound⟩ := List.mem_iff_getElem?.mp hentry
  obtain ⟨names, hnames⟩ := exists_ofFile?_of_accepts relocatable.accepted relocatable.below
  obtain ⟨catalog, hrename, hmodules, hposition⟩ :=
    Catalog.exists_rename? sound.consistent hfound hsame relocatable.free hnames
  have hconsistent := Catalog.rename?_consistent sound.consistent hrename
  -- the target is free and the source is not, so that the paths are different
  have hne : source.components ≠ target.components := by
    intro heq
    have hmodule := (Catalog.contains_iff sound.consistent).mpr ⟨entry, hentry, hsame.trans heq⟩
    rw [relocatable.free] at hmodule
    cases hmodule
  have htaken : session.catalogRenamed? source target = some catalog := by
    unfold catalogRenamed?
    rw [if_pos relocatable.accepted, hrename]
  rw [rename_eq_of_taken (ModuleNames.declared hnames) relocatable.known htaken]
  refine ⟨⟨i, entry, names, hfound, hsame, hnames, hmodules, ?_⟩, fun other hsource htarget => ?_,
    hconsistent.isConsistent, Pending.failures?_rename_target, Pending.erase_rename, sound.rising.rename, ?_, ?_,
    rfl, rfl⟩
  · rw [hposition target, if_pos rfl]
  · rw [hposition other, if_neg htarget.symm, if_neg hsource.symm]
  · have hgone : catalog.position? source = none := by rw [hposition source, if_neg hne.symm, if_pos rfl]
    unfold Catalog.contains
    exact congrArg Option.isSome hgone
  · have herased : ((session.pending.rename source target).erase target).failures? source =
        (session.pending.rename source target).failures? source := Pending.failures?_erase hne
    rw [Pending.erase_rename, Pending.failures?_erase hne, Pending.failures?_erase_same rfl] at herased
    unfold Pending.contains
    rw [← herased]
    rfl

/-- Nothing that a session knows of or waits for lies strictly below a path. -/
structure NothingBelow (session : Session) (path : Path) : Prop where
  modules : ∀ entry ∈ session.catalog.modules,
    entry.file.isAtOrBelow path = true → entry.file.components = path.components
  marks : ∀ marked ∈ session.pending.paths,
    marked.isAtOrBelow path = true → marked.components = path.components

/-- Where nothing lies below a path, to unmark everything at or below it is to unmark the path. -/
theorem NothingBelow.eraseBelow_eq (clear : session.NothingBelow source) :
    session.pending.eraseBelow source = session.pending.erase source := by
  unfold Pending.eraseBelow Pending.erase
  rw [Pending.mk.injEq]
  refine List.filter_congr fun entry hentry => congrArg (!·) ?_
  rw [Bool.eq_iff_iff, Path.same_iff]
  exact ⟨clear.marks entry.1 (List.mem_map_of_mem hentry), Path.isAtOrBelow_of_same⟩

/-- Where nothing lies below a path without a module, a removal leaves the catalog as it is. -/
theorem NothingBelow.catalogWithout?_eq (clear : session.NothingBelow source) (sound : session.Sound)
    (unknown : session.catalog.contains source = false) : catalogWithout? session.catalog source = none := by
  have hnone : session.catalog.hasBelow source = false := by
    unfold Catalog.hasBelow
    rw [List.any_eq_false]
    intro entry hentry hbelow
    have hknown := (Catalog.contains_iff sound.consistent).mpr ⟨entry, hentry, clear.modules entry hentry hbelow⟩
    rw [unknown] at hknown
    cases hknown
  unfold catalogWithout?
  rw [unknown, hnone]
  rfl

/-- A declaration file whose module cannot move is gone at the one path and new at the other. -/
theorem rename_replaced (sound : session.Sound)
    (declared : source.isDeclarationFile = true ∨ target.isDeclarationFile = true)
    (fixed : ¬session.Relocatable source target) (clear : session.NothingBelow source) :
    session.rename world now source target =
      ⟨(session.remove source).value.touch world now target, (session.remove source).effects⟩ := by
  have hrenamed := rename_renamed world now session source target
  generalize session.rename world now source target = turn at hrenamed
  cases hrenamed with
  | ignored plain | rescanned plain =>
    rw [plain.1, plain.2] at declared
    simp at declared
  | moved taken =>
    obtain ⟨haccepted, hrename⟩ := catalogRenamed?_eq_some session source taken
    obtain ⟨hknown, hfree, names, hnames, -⟩ := Catalog.mem_rename? sound.consistent hrename
    exact absurd ⟨hknown, haccepted, ModuleNames.below_of_ofFile? hnames, hfree⟩ fixed
  | replaced => rfl
  | arrived declared unknown =>
    rw [remove_value, remove_effects, clear.catalogWithout?_eq sound unknown, clear.eraseBelow_eq]
    rfl

/-- The news of a renamed declaration file, in every session that a run comes to. If the module can move, it keeps its
position and all that was read of it, and its mark goes with it; nothing else changes, and the new catalog is told
once. If it cannot, and nothing lies below the old name, everything is as after the news that the file was removed at
the one path and touched at the other. -/
theorem rename_moves_or_replaces (first : Surroundings) (base : Path) (settings : Settings) (timing : Timing)
    (deeds : List Deed) (world : Surroundings) (now : Nat) (source target : Path) :
    let session := ((Session.start first base settings timing).run deeds).value
    let renamed := session.act (.handle world now (.renamed source target))
    (session.Relocatable source target → MovedInPlace session source target renamed)
      ∧ (source.isDeclarationFile = true ∨ target.isDeclarationFile = true → ¬session.Relocatable source target →
          session.NothingBelow source →
          renamed = session.run [.handle world now (.removed source), .handle world now (.touched target)]) := by
  intro session renamed
  have hsound : session.Sound := (Sound.start first base settings timing).run deeds
  have hrenamed : renamed = session.rename world now source target := act_renamed session world now source target
  rw [hrenamed]
  refine ⟨rename_moved hsound, fun declared fixed clear => ?_⟩
  have hpair : session.run [.handle world now (.removed source), .handle world now (.touched target)] =
      ⟨(session.remove source).value.touch world now target, (session.remove source).effects⟩ := by
    rw [run_cons, act_removed, bind_congr fun next => run_singleton next _]
    simp [bind, pure]
  rw [hpair]
  exact rename_replaced hsound declared fixed clear

/-- Of two known files one is pending since a read of it has failed. It moves to a free name, at its position and with
that failure; the other one is renamed to the name of the first and is gone. -/
theorem rename_moves_or_replaces_locked :
    let disk : Disk :=
      ⟨[(["w"], .directory), (["w", "a.d.ts"], .file (.text "")), (["w", "b.d.ts"], .file (.text ""))], ["w"]⟩
    let world := disk.undisturbed
    let locked := disk.surroundings [(⟨"/w/a.d.ts"⟩, .failed ⟨.permissionDenied, ""⟩)] disk.watchFault
    let deeds : List Deed :=
      [.handle world 0 (.touched ⟨"/w/a.d.ts"⟩), .handle world 1 (.touched ⟨"/w/b.d.ts"⟩),
      .poll world world world 500, .handle world 600 (.touched ⟨"/w/a.d.ts"⟩), .poll locked locked locked 1100]
    let session := ((Session.start world ⟨"/w"⟩ .default {}).run deeds).value
    let moved := session.act (.handle world 1200 (.renamed ⟨"/w/a.d.ts"⟩ ⟨"/w/c.d.ts"⟩))
    session.catalog.modules.map Module.file = [⟨"/w/a.d.ts"⟩, ⟨"/w/b.d.ts"⟩]
      ∧ session.pending.entries = [(⟨"/w/a.d.ts"⟩, 1)]
      ∧ session.Relocatable ⟨"/w/a.d.ts"⟩ ⟨"/w/c.d.ts"⟩
      ∧ moved.value.catalog.position? ⟨"/w/c.d.ts"⟩ = some 0
      ∧ moved.value.pending.failures? ⟨"/w/c.d.ts"⟩ = some 1
      ∧ ¬session.Relocatable ⟨"/w/b.d.ts"⟩ ⟨"/w/a.d.ts"⟩
      ∧ session.NothingBelow ⟨"/w/b.d.ts"⟩
      ∧ session.act (.handle world 1200 (.renamed ⟨"/w/b.d.ts"⟩ ⟨"/w/a.d.ts"⟩)) =
          session.run [.handle world 1200 (.removed ⟨"/w/b.d.ts"⟩), .handle world 1200 (.touched ⟨"/w/a.d.ts"⟩)] := by
  intro disk world locked deeds session moved
  have hmodules : session.catalog.modules.map Module.file = [⟨"/w/a.d.ts"⟩, ⟨"/w/b.d.ts"⟩] := by decide +kernel
  have hentries : session.pending.entries = [(⟨"/w/a.d.ts"⟩, 1)] := by decide +kernel
  have hrelocatable : session.Relocatable ⟨"/w/a.d.ts"⟩ ⟨"/w/c.d.ts"⟩ :=
    ⟨by decide +kernel, by decide +kernel, by decide +kernel, by decide +kernel⟩
  have htaken : session.catalog.contains ⟨"/w/a.d.ts"⟩ = true := hrelocatable.known
  -- The second file cannot move because its new name is taken, and nothing lies below its old one.
  have hfixed : ¬session.Relocatable ⟨"/w/b.d.ts"⟩ ⟨"/w/a.d.ts"⟩ := fun relocatable => by
    have hfree := relocatable.free
    rw [htaken] at hfree
    cases hfree
  have hclear : session.NothingBelow ⟨"/w/b.d.ts"⟩ := by
    refine ⟨fun entry hentry => ?_, fun marked hmarked => ?_⟩
    · have hfile : entry.file ∈ session.catalog.modules.map Module.file := List.mem_map_of_mem hentry
      rw [hmodules] at hfile
      revert hfile
      generalize entry.file = file
      revert file
      decide
    · unfold Pending.paths at hmarked
      rw [hentries] at hmarked
      revert hmarked marked
      decide
  obtain ⟨hmoves, -⟩ :=
    rename_moves_or_replaces world ⟨"/w"⟩ .default {} deeds world 1200 ⟨"/w/a.d.ts"⟩ ⟨"/w/c.d.ts"⟩
  obtain ⟨-, hreplaces⟩ :=
    rename_moves_or_replaces world ⟨"/w"⟩ .default {} deeds world 1200 ⟨"/w/b.d.ts"⟩ ⟨"/w/a.d.ts"⟩
  -- The module that has moved stood at the front, since the other one has another name.
  obtain ⟨i, entry, -, hfound, hsame, -, -, hposition⟩ := (hmoves hrelocatable).moved
  have hat : (session.catalog.modules.map Module.file)[i]? = some entry.file := by
    simp only [session, List.getElem?_map]
    exact congrArg (Option.map Module.file) hfound
  rw [hmodules] at hat
  have hi : i = 0 := by
    rcases i with _ | _ | i
    · rfl
    · rw [← Option.some.inj hat] at hsame
      exact absurd hsame (by decide)
    · cases hat
  subst hi
  have hmark := (hmoves hrelocatable).mark
  have hfailures : (session.pending.failures? ⟨"/w/a.d.ts"⟩).or (session.pending.failures? ⟨"/w/c.d.ts"⟩) = some 1 := by
    unfold Pending.failures?
    rw [hentries]
    decide
  refine ⟨hmodules, hentries, hrelocatable, ?_, ?_, hfixed, hclear, ?_⟩
  · simp only [moved, session]
    exact hposition
  · rw [← hfailures]
    simp only [moved, session]
    exact hmark
  · simp only [session]
    exact hreplaces (.inr (by decide)) hfixed hclear

end Session

end TypingsIndex
