import TypingsIndex.Proofs.Watch.News

/-!
# Files that get other names

Others may also move a file below the root to another place there, over a file that may be there already. The news of it
tells both names in one command. After a move the target holds what the source held, nothing is left at the source,
and all other files are as they were (`Site.Move.outcome`).

A scene unfolds when changes, moves and the work of the session alternate in any order. How the disk and the
commands in flight have to be whenever the session works without taking a command, which is when it may read files,
is left open here.
-/

set_option autoImplicit false

namespace TypingsIndex

/-- A file below the root gets another name there, which was free or that of a file, and both names are told. -/
inductive Site.Move (site : Site) : Disk → Command → Disk → Prop where
  | moved {disk : Disk} {source target : List String} {content : Disk.Content}
      (there : disk.node? (site.locate source) = some (.file content))
      (free : disk.hasDirectory (site.locate target) = false) (apart : ¬ source <+: target) :
      Move site disk (.renamed (site.file source) (site.file target))
        ((disk.clear (site.locate target)).transfer (site.locate source) (site.locate target))

/-- The names of a file below the root and other names that it can get there: on the way to it no directory has the name
of a declaration file. -/
structure Movable (source target : List String) : Prop where
  source_ne_nil : source ≠ []
  source_valid : ∀ name ∈ source, Path.IsName name
  target_ne_nil : target ≠ []
  target_valid : ∀ name ∈ target, Path.IsName name
  target_flat : ∀ name ∈ target.dropLast, ¬ IsDeclarationName name

/-- A command tells of a move below the root. -/
def Site.LocalMove (site : Site) (command : Command) : Prop :=
  ∃ source target, Movable source target ∧ command = .renamed (site.file source) (site.file target)

section

variable {site : Site} {disk after : Disk} {command : Command}

/-- The root is no file. -/
theorem Disk.Plain.ne_nil (plain : disk.Plain site) {names : List String}
    (h : disk.hasDirectory (site.locate names) = false) : names ≠ [] := by
  rintro rfl
  have hroot : site.locate [] = site.location := List.append_nil _
  rw [hroot, plain.root] at h
  cases h

/-- Where a file lies there is no directory. -/
theorem Disk.hasDirectory_of_file {location : Disk.Location} {content : Disk.Content}
    (there : disk.node? location = some (.file content)) : disk.hasDirectory location = false := by
  rw [← Bool.not_eq_true, Disk.hasDirectory_iff, there]
  simp

/-- Nothing lies below a file. -/
theorem Disk.Plain.not_below_file (plain : disk.Plain site) {above names : List String} {content : Disk.Content}
    (file : disk.node? (site.locate above) = some (.file content))
    (there : (disk.node? (site.locate names)).isSome = true) (below : above <+: names) : names = above := by
  obtain ⟨rest, rfl⟩ := below
  by_contra hne
  have hrest : rest ≠ [] := by
    rintro rfl
    exact hne (List.append_nil above)
  have hdirectory := plain.directory_above there hrest
  rw [Disk.hasDirectory_of_file file] at hdirectory
  cases hdirectory

/-- After a move the target holds what the source held, and of all other files none is at the source and none is
new. -/
theorem Site.Move.outcome (move : site.Move disk command after) (plain : disk.Plain site)
    (afterPlain : after.Plain site) :
    ∃ source target, Movable source target ∧ command = .renamed (site.file source) (site.file target)
      ∧ after.node? (site.locate target) = disk.node? (site.locate source)
      ∧ ∀ names content, after.node? (site.locate names) = some (.file content) →
        names = target ∨ (names ≠ source ∧ disk.node? (site.locate names) = some (.file content)) := by
  cases move with
  | @moved source target content there free apart =>
    have hsource : source ≠ [] := plain.ne_nil (Disk.hasDirectory_of_file there)
    have htarget : target ≠ [] := plain.ne_nil free
    have hnotAbove : ¬ target <+: source := by
      rintro ⟨rest, rfl⟩
      by_cases hrest : rest = []
      · rw [hrest, List.append_nil] at apart
        exact apart List.prefix_rfl
      · have hdirectory := plain.directory_above (by rw [there]; rfl) hrest
        rw [free] at hdirectory
        cases hdirectory
    have hnode : ((disk.clear (site.locate target)).transfer (site.locate source) (site.locate target)).node?
        (site.locate target) = disk.node? (site.locate source) := by
      rw [Disk.node?_transfer_target (fun _ => Disk.not_prefix_of_mem_clear) (site.locate_ne_nil htarget)
        (site.locate_ne_nil hsource), Disk.node?_clear_of_not_prefix (site.locate_prefix.not.mpr hnotAbove)]
    have hthere := hnode.trans there
    refine ⟨source, target, ⟨hsource, plain.proper source (by rw [there]; rfl), htarget,
      afterPlain.proper target (by rw [hthere]; rfl), afterPlain.no_declaration_above (by rw [hthere]; rfl)⟩,
      rfl, hnode, fun names found hfound => ?_⟩
    by_cases hbelowTarget : target <+: names
    · exact .inl (afterPlain.not_below_file hthere (by rw [hfound]; rfl) hbelowTarget)
    · right
      by_cases hbelowSource : source <+: names
      · rw [Disk.node?_transfer_source (site.locate_ne_nil hsource) (site.locate_prefix.mpr hbelowSource)
          (site.locate_prefix.not.mpr hbelowTarget)] at hfound
        cases hfound
      · rw [Disk.node?_transfer_of_apart (site.locate_prefix.not.mpr hbelowSource)
          (site.locate_prefix.not.mpr hbelowTarget),
          Disk.node?_clear_of_not_prefix (site.locate_prefix.not.mpr hbelowTarget)] at hfound
        refine ⟨?_, hfound⟩
        rintro rfl
        exact hbelowSource List.prefix_rfl

end

/-! ## Scenes with moves -/

/-- No file lies where a file was that has moved to a place of a declaration file, as long as the session has not been
told of the move. -/
def Site.Vacated (site : Site) (disk : Disk) (inFlight : List Command) : Prop :=
  ∀ source target, .renamed (site.file source) (site.file target) ∈ inFlight → Trackable target →
    ∀ content, disk.node? (site.locate source) ≠ some (.file content)

/-- Nothing is vacated when nothing is told any more. -/
theorem Site.vacated_nil {site : Site} {disk : Disk} : site.Vacated disk [] :=
  fun _ _ h => absurd h List.not_mem_nil

/-- The scenes that can come about from a session that has not begun to work, without a limit of attempts, and a plain
disk. The disk and the commands in flight are calm whenever the session works without taking a command. -/
inductive Scene.Unfolds (texts : String → Prop) (site : Site) (calm : Disk → List Command → Prop) : Scene → Prop where
  | start {disk : Disk} {world : Surroundings} {base : Path} {settings : Settings} {timing : Timing}
      (plain : disk.Plain site) (holds : disk.HoldsOnly site texts)
      (root : Session.resolveRoot world base settings = site.path) (unlimited : timing.maxAttempts = none) :
      Unfolds texts site calm ⟨disk, [], Session.start world base settings timing⟩
  | changed {scene after : Scene} (before : Unfolds texts site calm scene)
      (step : Scene.DiskStep texts site scene after) : Unfolds texts site calm after
  | moved {disk after : Disk} {command : Command} {inFlight : List Command} {session : Session}
      (before : Unfolds texts site calm ⟨disk, inFlight, session⟩) (move : site.Move disk command after)
      (plain : after.Plain site) (holds : after.HoldsOnly site texts) :
      Unfolds texts site calm ⟨after, inFlight ++ [command], session⟩
  | worked {scene after : Scene} (before : Unfolds texts site calm scene)
      (step : Scene.SessionStep site scene after)
      (calmly : after.inFlight = scene.inFlight → calm scene.disk scene.inFlight) : Unfolds texts site calm after

/-- Nothing is asked of the disk when a command is taken. -/
theorem Scene.Unfolds.delivered {texts : String → Prop} {site : Site} {calm : Disk → List Command → Prop} {disk : Disk}
    {command : Command} {rest : List Command} {session : Session} {world : Surroundings}
    (before : Unfolds texts site calm ⟨disk, command :: rest, session⟩) (shows : world.Shows site disk) (now : Nat) :
    Unfolds texts site calm ⟨disk, rest, (session.handle world now command).value.session⟩ :=
  before.worked (.delivered shows) fun h => absurd h.symm (List.cons_ne_self command rest)

end TypingsIndex
