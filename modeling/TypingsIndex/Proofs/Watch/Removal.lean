import TypingsIndex.Disk.Operations
import TypingsIndex.Proofs.Catalog.Without
import TypingsIndex.Proofs.Watch.Publication

/-!
# What the news of a removal takes away

The news that a path was removed unmarks everything at or below it. From the catalog it takes the module of the path
if there is one, and only if there is none, all modules below (`goesWith`). Everything else stays as it is and where it
is, and followers are told exactly if a module has gone.

So nothing at or below the path is left, unless the path has a module and others lie strictly below it. This can
happen, since a directory may have the name of a declaration file: where a file takes the place of such a directory and
is read before the news that the directory is gone, that news takes the new module and leaves the old ones
(`removal_leaves_below`).
-/

set_option autoImplicit false

namespace TypingsIndex.Session

/-- Whether the module of a file goes when a path is removed: that of the path itself or, if the path has none, all
those below it. -/
def goesWith (catalog : Catalog) (path file : Path) : Bool :=
  if catalog.contains path then file.same path else file.isAtOrBelow path

/-- Whatever goes with a path lies at or below it. -/
theorem isAtOrBelow_of_goesWith {catalog : Catalog} {path file : Path} (h : goesWith catalog path file = true) :
    file.isAtOrBelow path = true := by
  unfold goesWith at h
  split at h
  · exact Path.isAtOrBelow_of_same (Path.same_iff.mp h)
  · exact h

/-- The modules after a removal are those that do not go with the path, in their order. -/
theorem catalogWithout?_modules {catalog : Catalog} (consistent : catalog.Consistent) (path : Path) :
    ((catalogWithout? catalog path).getD catalog).modules =
      catalog.modules.filter fun entry => !goesWith catalog path entry.file := by
  unfold catalogWithout? goesWith
  split
  · have herased := Catalog.erased_modules consistent path
    unfold Catalog.erased Listing.without at herased
    exact herased
  · split
    · have hbelow : (catalog.eraseBelow path).2.modules = (Listing.takeBelow catalog.modules path).2 :=
        congrArg Prod.snd (Catalog.eraseBelow_modules path)
      rw [Option.getD_some, hbelow]
      rfl
    · next hnone =>
      rw [Option.getD_none]
      refine (List.filter_eq_self.mpr fun entry hentry => ?_).symm
      rw [Bool.not_eq_true', ← Bool.not_eq_true]
      exact fun hat => hnone (List.any_eq_true.mpr ⟨entry, hentry, hat⟩)

/-- What the news that a path was removed does to a session. -/
structure PathRemoved (before : Session) (path : Path) (turn : Turn Session) : Prop where
  /-- No mark is left at or below the path; the others keep their failures and their order. -/
  marks : turn.value.pending.entries = before.pending.entries.filter fun entry => !entry.1.isAtOrBelow path
  /-- The modules that do not go are left with all their data, in their order. -/
  modules : turn.value.catalog.modules =
    before.catalog.modules.filter fun entry => !goesWith before.catalog path entry.file
  consistent : turn.value.catalog.isConsistent = true
  /-- The settings, the root and all deadlines stay. -/
  frame : turn.value = { before with pending := turn.value.pending, catalog := turn.value.catalog }
  /-- The new catalog is told once if a module has gone, and nothing is told if none has. -/
  told : turn.effects.filterMap Effect.event? =
    if ∃ entry ∈ before.catalog.modules, goesWith before.catalog path entry.file = true
    then [.catalogChanged turn.value.catalog] else []

variable {session : Session} {path : Path}

/-- A module goes exactly if there is something to take out. -/
theorem exists_goesWith_iff (consistent : session.catalog.Consistent) :
    (∃ entry ∈ session.catalog.modules, goesWith session.catalog path entry.file = true) ↔
      (catalogWithout? session.catalog path).isSome = true := by
  have hmodules := catalogWithout?_modules consistent path
  cases hwithout : catalogWithout? session.catalog path with
  | none =>
    rw [hwithout, Option.getD_none] at hmodules
    simp only [Option.isSome_none, Bool.false_eq_true, iff_false, not_exists, not_and]
    intro entry hentry
    rw [hmodules] at hentry
    simpa using (List.mem_filter.mp hentry).2
  | some after =>
    rw [hwithout, Option.getD_some] at hmodules
    have hchanged := catalogWithout?_changes consistent hwithout
    simp only [Option.isSome_some, iff_true]
    by_contra hnone
    refine hchanged (hmodules.trans (List.filter_eq_self.mpr fun entry hentry => ?_))
    rw [Bool.not_eq_true', ← Bool.not_eq_true]
    exact fun hgoes => hnone ⟨entry, hentry, hgoes⟩

/-- The news of a removal clear the marks at and below the path, and take out its module, or those below it if it has
none. -/
theorem remove_removed (sound : session.Sound) (path : Path) : PathRemoved session path (session.remove path) := by
  have hvalue := remove_value session path
  have hmodules := catalogWithout?_modules sound.consistent path
  refine ⟨?_, ?_, ?_, ?_, ?_⟩
  · rw [hvalue]
    rfl
  · rw [hvalue]
    exact hmodules
  · have hsound : (session.remove path).value.Sound := sound.remove path
    exact hsound.consistent.isConsistent
  · rw [hvalue]
  · have hiff := @exists_goesWith_iff session path sound.consistent
    rw [hvalue, remove_effects]
    cases hwithout : catalogWithout? session.catalog path with
    | none =>
      rw [hwithout] at hiff
      rw [if_neg fun h => Bool.false_ne_true (hiff.mp h)]
      rfl
    | some after =>
      rw [hwithout] at hiff
      rw [if_pos (hiff.mpr rfl)]
      rfl

/-- After the news that a path was removed, in every session that a run comes to, nothing at or below the path is
pending and no module is left there, provided that a path with a module of its own has none strictly below it. All
other modules and marks stay as they are, in their order, the table fits the modules, nothing else about the session
has changed, and the new catalog is told once exactly if a module has gone. -/
theorem removal_clears (first : Surroundings) (base : Path) (settings : Settings) (timing : Timing) (deeds : List Deed)
    (world : Surroundings) (now : Nat) (path : Path) :
    let session := ((Session.start first base settings timing).run deeds).value
    let turn := session.act (.handle world now (.removed path))
    PathRemoved session path turn
      ∧ (∀ marked ∈ turn.value.pending.paths, marked.isAtOrBelow path = false)
      ∧ (∀ entry ∈ turn.value.catalog.modules, entry.file.components ≠ path.components)
      ∧ ((session.catalog.contains path = true → ∀ entry ∈ session.catalog.modules,
            entry.file.isAtOrBelow path = true → entry.file.components = path.components) →
          turn.value.catalog.modules = session.catalog.modules.filter fun entry => !entry.file.isAtOrBelow path) := by
  intro session turn
  have hsound : session.Sound := (Sound.start first base settings timing).run deeds
  have hturn : turn = session.remove path := act_removed session world now path
  have hremoved : PathRemoved session path turn := by
    rw [hturn]
    exact remove_removed hsound path
  refine ⟨hremoved, fun marked hmarked => ?_, fun entry hentry hsame => ?_, fun alone => ?_⟩
  · obtain ⟨entry, hentry, rfl⟩ := List.mem_map.mp hmarked
    rw [hremoved.marks] at hentry
    simpa using (List.mem_filter.mp hentry).2
  · rw [hremoved.modules] at hentry
    obtain ⟨hbefore, hkept⟩ := List.mem_filter.mp hentry
    -- a module of the path itself goes in either case
    have hgoes : goesWith session.catalog path entry.file = true := by
      unfold goesWith
      split
      · exact Path.same_iff.mpr hsame
      · exact Path.isAtOrBelow_of_same hsame
    rw [hgoes] at hkept
    cases hkept
  · rw [hremoved.modules]
    refine List.filter_congr fun entry hentry => congrArg (!·) ?_
    rw [Bool.eq_iff_iff]
    refine ⟨isAtOrBelow_of_goesWith, fun hat => ?_⟩
    unfold goesWith
    split
    · next hknown => exact Path.same_iff.mpr (alone hknown entry hentry hat)
    · exact hat

/-- The news that a directory was removed takes its module and its mark, and none of those of a directory whose name
begins with the same letters. -/
theorem removal_clears_sub :
    let disk : Disk := ⟨[(["w"], .directory), (["w", "sub"], .directory), (["w", "sub", "a.d.ts"], .file (.text "")),
      (["w", "subway"], .directory), (["w", "subway", "b.d.ts"], .file (.text ""))], ["w"]⟩
    let world := disk.undisturbed
    let touches : List Deed :=
      [.handle world 0 (.touched ⟨"/w/sub/a.d.ts"⟩), .handle world 1 (.touched ⟨"/w/subway/b.d.ts"⟩)]
    let deeds := touches ++ .poll world world world 500 :: touches
    let session := ((Session.start world ⟨"/w"⟩ .default {}).run deeds).value
    let turn := session.act (.handle world 600 (.removed ⟨"/w/sub"⟩))
    session.catalog.modules.map Module.file = [⟨"/w/sub/a.d.ts"⟩, ⟨"/w/subway/b.d.ts"⟩]
      ∧ session.pending.paths = [⟨"/w/sub/a.d.ts"⟩, ⟨"/w/subway/b.d.ts"⟩]
      ∧ session.catalog.contains ⟨"/w/sub"⟩ = false
      ∧ turn.value.catalog.modules.map Module.file = [⟨"/w/subway/b.d.ts"⟩]
      ∧ turn.value.pending.paths = [⟨"/w/subway/b.d.ts"⟩] := by
  intro disk world touches deeds session turn
  have hmodules : session.catalog.modules.map Module.file = [⟨"/w/sub/a.d.ts"⟩, ⟨"/w/subway/b.d.ts"⟩] := by
    decide +kernel
  have hmarks : session.pending.paths = [⟨"/w/sub/a.d.ts"⟩, ⟨"/w/subway/b.d.ts"⟩] := by decide +kernel
  have hunknown : session.catalog.contains ⟨"/w/sub"⟩ = false := by decide +kernel
  obtain ⟨hremoved, -, -, hcleared⟩ := removal_clears world ⟨"/w"⟩ .default {} deeds world 600 ⟨"/w/sub"⟩
  have hleft := hcleared fun hknown => by
    rw [hunknown] at hknown
    cases hknown
  have hentries := hremoved.marks
  have hfiles : turn.value.catalog.modules.map Module.file =
      (session.catalog.modules.map Module.file).filter fun file => !file.isAtOrBelow ⟨"/w/sub"⟩ := by
    simp only [turn, session, List.filter_map]
    exact congrArg (List.map Module.file) hleft
  have hpaths : turn.value.pending.paths = session.pending.paths.filter fun file => !file.isAtOrBelow ⟨"/w/sub"⟩ := by
    simp only [turn, session, Pending.paths, List.filter_map]
    exact congrArg (List.map Prod.fst) hentries
  rw [hfiles, hpaths, hmodules, hmarks, hunknown]
  decide

/-- A directory with the name of a declaration file is replaced by such a file, which is read because the directory was
pending, before the news that the directory was removed. Of the two modules the news takes that of the path and leaves
the one below it, which lies nowhere any more and will not be read again. -/
theorem removal_leaves_below :
    let file : Disk.Node := .file (.text "export declare function one(): void;")
    let before : Disk :=
      ⟨[(["w"], .directory), (["w", "a.d.ts"], .directory), (["w", "a.d.ts", "b.d.ts"], file)], ["w"]⟩
    let after : Disk := ⟨[(["w"], .directory), (["w", "a.d.ts"], file)], ["w"]⟩
    let old := before.undisturbed
    let new := after.undisturbed
    let session := ((Session.start old ⟨"/w"⟩ .default {}).run [.handle old 0 .rebuild,
      .handle old 0 (.touched ⟨"/w/a.d.ts"⟩), .poll old old old 500, .poll new new new 1500]).value
    let left := (session.act (.handle new 1600 (.removed ⟨"/w/a.d.ts"⟩))).value
    session.catalog.modules.map Module.file = [⟨"/w/a.d.ts/b.d.ts"⟩, ⟨"/w/a.d.ts"⟩]
      ∧ left.catalog.modules.map Module.file = [⟨"/w/a.d.ts/b.d.ts"⟩]
      ∧ Path.isAtOrBelow ⟨"/w/a.d.ts/b.d.ts"⟩ ⟨"/w/a.d.ts"⟩ = true
      ∧ (new.read ⟨"/w/a.d.ts/b.d.ts"⟩).result = .error .notADirectory
      ∧ left.pending.paths = [] ∧ left.nextDeadline = none := by
  decide +kernel

end TypingsIndex.Session
