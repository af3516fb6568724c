import TypingsIndex.Proofs.Watch.Agreement
import TypingsIndex.Proofs.Watch.Renames.Told

/-!
# No module is stale when files have moved

A session that reads only while no other file lies where a file has moved away, unless it was told of the move, has no
stale module when nothing is left to do (`Scene.Unfolds.modules_fresh`). Without this condition it may have one: a
module that was read from the new file at an old name goes to the new name of the old file when the move is told, and
nothing makes the session read that file again (`Scene.Unfolds.module_stale`).
-/

set_option autoImplicit false

namespace TypingsIndex

namespace Scene

/-- A scene in which every module is read again or follows its file. -/
structure Followed (texts : String → Prop) (site : Site) (scene : Scene) : Prop where
  plain : scene.disk.Plain site
  holds : scene.disk.HoldsOnly site texts
  news : ∀ command ∈ scene.inFlight, site.News command
  tracks : scene.session.Tracks site texts
  follows : scene.session.Follows site scene.disk scene.inFlight
  scheduled : scene.session.Scheduled

section

variable {texts : String → Prop} {site : Site} {disk after : Disk} {command : Command}
  {inFlight rest : List Command} {session : Session} {world : Surroundings} {now : Nat} {scene : Scene}

/-- More news of the site come last. -/
theorem news_concat (news : ∀ command ∈ inFlight, site.News command) (last : site.News command) :
    ∀ other ∈ inFlight ++ [command], site.News other := by
  intro other hother
  rcases List.mem_append.mp hother with hold | hlast
  · exact news other hold
  · rw [List.mem_singleton.mp hlast]
    exact last

namespace Followed

/-- A change of the disk leaves every module followed. -/
theorem changed (followed : Followed texts site ⟨disk, inFlight, session⟩) (change : site.Change disk command after)
    (plain : after.Plain site) (holds : after.HoldsOnly site texts) :
    Followed texts site ⟨after, inFlight ++ [command], session⟩ where
  plain := plain
  holds := holds
  news := news_concat followed.news (.inl (change.is_local followed.plain plain))
  tracks := followed.tracks
  follows names tracked entry hentry hfile :=
    (followed.follows names tracked entry hentry hfile).imp_right fun hcurrent =>
      hcurrent.changed tracked change followed.plain plain
  scheduled := followed.scheduled

/-- A move on the disk leaves every module followed. -/
theorem moved (followed : Followed texts site ⟨disk, inFlight, session⟩) (move : site.Move disk command after)
    (plain : after.Plain site) (holds : after.HoldsOnly site texts) :
    Followed texts site ⟨after, inFlight ++ [command], session⟩ := by
  obtain ⟨source, target, movable, hcommand, -⟩ := move.outcome followed.plain plain
  exact {
    plain := plain
    holds := holds
    news := news_concat followed.news (.inr ⟨source, target, movable, hcommand⟩)
    tracks := followed.tracks
    follows := fun names tracked entry hentry hfile =>
      (followed.follows names tracked entry hentry hfile).imp_right fun hcurrent =>
        hcurrent.moved_on tracked move followed.plain plain
    scheduled := followed.scheduled }

/-- Handled news leave every module followed. -/
theorem delivered (followed : Followed texts site ⟨disk, command :: rest, session⟩) :
    Followed texts site ⟨disk, rest, (session.handle world now command).value.session⟩ := by
  obtain ⟨plain, holds, news, tracks, follows, scheduled⟩ := followed
  have hrest : ∀ other ∈ rest, site.News other := fun other hother => news other (List.mem_cons_of_mem _ hother)
  rcases news command List.mem_cons_self with ⟨names, nonempty, valid, rfl | rfl⟩ | ⟨source, target, movable, rfl⟩
  · exact ⟨plain, holds, hrest, tracks.touched valid nonempty, follows.touched tracks valid nonempty,
      scheduled.touched _⟩
  · exact ⟨plain, holds, hrest, tracks.removed valid, follows.removed tracks valid, scheduled.removed _⟩
  · exact ⟨plain, holds, hrest, tracks.renamed movable, follows.renamed tracks movable, scheduled.renamed _ _⟩

variable (followed : Followed texts site ⟨disk, inFlight, session⟩) (vacated : site.Vacated disk inFlight)

include followed vacated

/-- A scan of the root leaves every module followed. -/
theorem rebuilt (shows : world.Shows site disk) :
    Followed texts site ⟨disk, inFlight, (session.rebuild world now).value.1⟩ := by
  obtain ⟨plain, holds, news, tracks, -, -⟩ := followed
  obtain ⟨_, _, -, -, hscheduled⟩ := tracks.rebuild_value now plain shows
  exact ⟨plain, holds, news, tracks.rebuilt plain holds shows, tracks.follows_rebuilt news vacated plain shows,
    hscheduled⟩

/-- A poll leaves every module followed. -/
theorem polled {atReload atRescan atDrain : Surroundings} (rescanShows : atRescan.Shows site disk)
    (drainShows : atDrain.Shows site disk) :
    Followed texts site ⟨disk, inFlight, (session.pollIn atReload atRescan atDrain now).value⟩ := by
  refine Session.pollIn_invariant (P := fun working => Followed texts site ⟨disk, inFlight, working⟩)
    followed.tracks.no_reload followed (fun before hbefore => ?_) fun before hbefore => ?_
  · exact hbefore.rebuilt vacated rescanShows
  · obtain ⟨plain, holds, news, tracks, follows, -⟩ := hbefore
    obtain ⟨htracks, hfollows, hscheduled⟩ := follows.drain news vacated tracks plain holds drainShows now
    exact ⟨plain, holds, news, htracks, hfollows, hscheduled⟩

end Followed

/-- In every scene that unfolds, every module is read again or follows its file. -/
theorem Unfolds.followed (unfolds : Unfolds texts site site.Vacated scene) : scene.Followed texts site := by
  induction unfolds with
  | start plain holds root unlimited =>
    exact ⟨plain, holds, fun _ h => absurd h List.not_mem_nil, .start root unlimited,
      fun _ _ _ h => absurd h List.not_mem_nil, fun h => absurd rfl h⟩
  | changed before step ih =>
    cases step with
    | change change plain holds => exact ih.changed change plain holds
  | moved before move plain holds ih => exact ih.moved move plain holds
  | worked before step calmly ih =>
    cases step with
    | delivered shows => exact ih.delivered
    | polled reloadShows rescanShows drainShows => exact ih.polled (calmly rfl) rescanShows drainShows
    | rebuilt shows => exact ih.rebuilt (calmly rfl) shows

/-- When no command is in flight and nothing is due, every module whose file has a text that keeps to the grammar has
the digest of this text, and its functions, unless another text with the same digest can occur; provided that
the session worked only while no file lay where another one had moved away, except to be told. -/
theorem Unfolds.modules_fresh (unfolds : Unfolds texts site site.Vacated scene) (quiet : scene.inFlight = [])
    (idle : scene.session.nextDeadline = none) :
    ∀ entry ∈ scene.session.catalog.modules, ∃ names, Trackable names ∧ entry.file = site.file names
      ∧ ∀ text functions, scene.disk.node? (site.locate names) = some (.file (.text text)) →
        functionsOf entry.file text = .ok functions → entry.digest = some (Digest.ofText text)
          ∧ ((∀ other, texts other → Digest.ofText other = Digest.ofText text → other = text) →
            entry.functions = functions) := by
  have followed := unfolds.followed
  intro entry hentry
  obtain ⟨names, source, tracked, -, hfile, hsource, hsourceParsed, hsourceDigest⟩ :=
    followed.tracks.modules entry hentry
  refine ⟨names, tracked, hfile, fun text functions there hfunctions => ?_⟩
  have hparsed := functionsOf_eq_ok.mp hfunctions
  have hcurrent := (followed.follows names tracked entry hentry hfile).resolve_left
    (not_awaits followed.scheduled idle _)
  rw [quiet] at hcurrent
  have hdigest := hcurrent.same_of_nil there hparsed
  refine ⟨hdigest, fun hunique => ?_⟩
  obtain rfl := hunique source hsource (Option.some.inj (hsourceDigest.symm.trans hdigest))
  exact Except.ok.inj (hsourceParsed.symm.trans hparsed)

end

/-! ## A file that moves while another comes to its place -/

/-- A text that declares a function of this name. -/
def declaring (name : String) : String :=
  "export declare function " ++ name ++ "(): void;"

/-- The text of the file that moves, and that of the one that comes to its place. -/
def CrossingText (text : String) : Prop :=
  text = declaring "one" ∨ text = declaring "two"

/-- The name that the file had. -/
def firstName : Path := Disk.flatSite.file ["a.d.ts"]

/-- The name that the file gets. -/
def secondName : Path := Disk.flatSite.file ["b.d.ts"]

/-- The disk before the file moves. -/
def oldDisk : Disk := Disk.flat [("a.d.ts", declaring "one")]

/-- The disk with the other file in its place. -/
def newDisk : Disk := Disk.flat [("b.d.ts", declaring "one"), ("a.d.ts", declaring "two")]

/-- A session that has scanned the empty root and was told of the file. -/
def openedSession : Session :=
  let bare := (Disk.flat []).undisturbed
  let opened := ((Session.start bare Disk.flatSite.path .default {}).handle bare 0 .rebuild).value.session
  (opened.handle oldDisk.undisturbed 0 (.touched firstName)).value.session

/-- The session does what is due. -/
def pollOn (disk : Disk) (now : Nat) (session : Session) : Session :=
  (session.pollIn disk.undisturbed disk.undisturbed disk.undisturbed now).value

/-- The session is told of the move and of the other file. -/
def tellCrossing (now : Nat) (session : Session) : Session :=
  let moved := (session.handle newDisk.undisturbed now (.renamed firstName secondName)).value.session
  (moved.handle newDisk.undisturbed now (.touched firstName)).value.session

/-- Both are names of a path. -/
theorem crossing_names : Path.IsName "a.d.ts" ∧ Path.IsName "b.d.ts" :=
  ⟨⟨by decide, by decide, by decide, by decide⟩, ⟨by decide, by decide, by decide, by decide⟩⟩

/-- The disk is in order before the file moves. -/
theorem oldDisk_plain : oldDisk.Plain Disk.flatSite :=
  Disk.flat_plain (by decide) (by simpa using crossing_names.1)

/-- The disk is in order with the other file in its place. -/
theorem newDisk_plain : newDisk.Plain Disk.flatSite :=
  Disk.flat_plain (by decide) (by simpa using crossing_names.symm)

/-- What is read before the file moves is what is on the disk then. -/
theorem oldDisk_shows : oldDisk.undisturbed.Shows Disk.flatSite oldDisk :=
  (Disk.flat_anchored (by decide)).shows_undisturbed oldDisk_plain

/-- What is read with the other file in its place is what is on the disk then. -/
theorem newDisk_shows : newDisk.undisturbed.Shows Disk.flatSite newDisk :=
  (Disk.flat_anchored (by decide)).shows_undisturbed newDisk_plain

/-- The file that has moved holds what it held. -/
theorem newDisk_moved :
    newDisk.node? (Disk.flatSite.locate ["b.d.ts"]) = some (.file (.text (declaring "one"))) := by
  decide +kernel

/-- What the file that moves declares. -/
def crossingFunctions : List Signature :=
  [⟨"one", [], ⟨"void", false, false, false⟩, false⟩]

/-- The text of the file that moves keeps to the grammar. -/
theorem functionsOf_moved : functionsOf secondName (declaring "one") = .ok crossingFunctions := by
  decide +kernel

section

variable {calm : Disk → List Command → Prop} {disk : Disk} {session : Session} {queue : List Command}

/-- A poll at a disk that allows it goes on. -/
theorem Unfolds.polled (unfolds : Unfolds CrossingText Disk.flatSite calm ⟨disk, queue, session⟩)
    (shows : disk.undisturbed.Shows Disk.flatSite disk) (calmly : calm disk queue) (now : Nat) :
    Unfolds CrossingText Disk.flatSite calm ⟨disk, queue, pollOn disk now session⟩ :=
  unfolds.worked (.polled shows shows shows) fun _ => calmly

/-- The scan and the first news make a scene that may go on. -/
theorem opened_unfolds (still : ∀ disk, calm disk []) :
    Unfolds CrossingText Disk.flatSite calm ⟨oldDisk, [], openedSession⟩ := by
  have hplain : (Disk.flat []).Plain Disk.flatSite := Disk.flat_plain (by decide) (by simp)
  have hshows := (@Disk.flat_anchored [] (by decide)).shows_undisturbed hplain
  have hstart : Unfolds CrossingText Disk.flatSite calm
      ⟨Disk.flat [], [], Session.start (Disk.flat []).undisturbed Disk.flatSite.path .default {}⟩ :=
    .start hplain (Disk.flat_holds (by decide) (by simp)) (by decide +kernel) rfl
  have hscanned := hstart.worked (@SessionStep.rebuilt _ _ _ _ _ 0 hshows) fun _ => still _
  have hwritten : Disk.flatSite.Change (Disk.flat []) (.touched firstName) oldDisk :=
    .written (by decide) (by decide +kernel)
  have hholds : oldDisk.HoldsOnly Disk.flatSite CrossingText := Disk.flat_holds (by decide) (by simp [CrossingText])
  exact (hscanned.changed (.change hwritten oldDisk_plain hholds)).delivered oldDisk_shows 0

/-- The file moves, and another comes to its place. -/
theorem Unfolds.crossed (unfolds : Unfolds CrossingText Disk.flatSite calm ⟨oldDisk, [], session⟩) :
    Unfolds CrossingText Disk.flatSite calm ⟨newDisk, [.renamed firstName secondName, .touched firstName],
      session⟩ := by
  have hthere : oldDisk.node? (Disk.flatSite.locate ["a.d.ts"]) = some (.file (.text (declaring "one"))) := by
    decide +kernel
  have hmove : Disk.flatSite.Move oldDisk (.renamed firstName secondName) (Disk.flat [("b.d.ts", declaring "one")]) :=
    .moved hthere (by decide +kernel) (by decide)
  have hplain : (Disk.flat [("b.d.ts", declaring "one")]).Plain Disk.flatSite :=
    Disk.flat_plain (by decide) (by simpa using crossing_names.2)
  have hwritten : Disk.flatSite.Change (Disk.flat [("b.d.ts", declaring "one")]) (.touched firstName) newDisk :=
    .written (by decide) (by decide +kernel)
  have hmoved := unfolds.moved hmove hplain (Disk.flat_holds (by decide) (by simp [CrossingText]))
  exact hmoved.changed (.change hwritten newDisk_plain (Disk.flat_holds (by decide) (by simp [CrossingText])))

/-- The session is told of the move and of the other file. -/
theorem Unfolds.told (unfolds : Unfolds CrossingText Disk.flatSite calm
      ⟨newDisk, [.renamed firstName secondName, .touched firstName], session⟩) (now : Nat) :
    Unfolds CrossingText Disk.flatSite calm ⟨newDisk, [], tellCrossing now session⟩ :=
  (unfolds.delivered newDisk_shows now).delivered newDisk_shows now

end

/-- If the session reads the file before it moves, and then not before it is told, the module goes with the file. -/
theorem Unfolds.modules_fresh_crossing :
    ∃ entry, (pollOn newDisk 1100 (tellCrossing 600 (pollOn oldDisk 500 openedSession))).catalog.find? secondName
        = some entry
      ∧ entry.functions = crossingFunctions := by
  have hopened : Unfolds CrossingText Disk.flatSite Disk.flatSite.Vacated ⟨oldDisk, [], openedSession⟩ :=
    opened_unfolds fun _ => Site.vacated_nil
  have hread := hopened.polled oldDisk_shows Site.vacated_nil 500
  have hunfolds := (hread.crossed.told 600).polled newDisk_shows Site.vacated_nil 1100
  have hdone : (pollOn newDisk 1100 (tellCrossing 600 (pollOn oldDisk 500 openedSession))).nextDeadline = none
      ∧ ((pollOn newDisk 1100 (tellCrossing 600 (pollOn oldDisk 500 openedSession))).catalog.find? secondName).isSome
        = true := by decide +kernel
  obtain ⟨hidle, hknown⟩ := hdone
  obtain ⟨entry, hentry⟩ := Option.isSome_iff_exists.mp hknown
  obtain ⟨hmem, hsame⟩ := (Catalog.find?_eq_some_iff hunfolds.followed.tracks.consistent).mp hentry
  obtain ⟨names, tracked, hfile, hfresh⟩ := hunfolds.modules_fresh rfl hidle entry hmem
  have hvalid : ∀ name ∈ ["b.d.ts"], Path.IsName name := by simpa using crossing_names.2
  rw [hfile] at hsame hfresh
  obtain rfl := (Site.components_inj tracked.valid hvalid).mp hsame
  obtain ⟨-, hfunctions⟩ := hfresh _ _ newDisk_moved functionsOf_moved
  refine ⟨entry, hentry, hfunctions fun other hother hdigest => ?_⟩
  rcases hother with rfl | rfl
  · rfl
  · exact absurd hdigest (by decide +kernel)

/-- If the session reads only after the file has moved, but before it is told, the module that goes with the file is
that of the other file, and it stays so when nothing is left to do. -/
theorem Unfolds.module_stale :
    ∃ scene, Unfolds CrossingText Disk.flatSite (fun _ _ => True) scene ∧ scene.inFlight = []
      ∧ scene.session.nextDeadline = none ∧ ∃ entry ∈ scene.session.catalog.modules, entry.file = secondName
        ∧ scene.disk.node? (Disk.flatSite.locate ["b.d.ts"]) = some (.file (.text (declaring "one")))
        ∧ functionsOf secondName (declaring "one") = .ok crossingFunctions
        ∧ entry.functions ≠ crossingFunctions := by
  have hopened : Unfolds CrossingText Disk.flatSite (fun _ _ => True) ⟨oldDisk, [], openedSession⟩ :=
    opened_unfolds fun _ => trivial
  have hread := hopened.crossed.polled newDisk_shows trivial 500
  have hunfolds := (hread.told 600).polled newDisk_shows trivial 1100
  have hstale : (pollOn newDisk 1100 (tellCrossing 600 (pollOn newDisk 500 openedSession))).nextDeadline = none
      ∧ ∃ entry ∈ (pollOn newDisk 1100 (tellCrossing 600 (pollOn newDisk 500 openedSession))).catalog.modules,
        entry.file = secondName ∧ entry.functions ≠ crossingFunctions := by decide +kernel
  obtain ⟨hidle, entry, hentry, hfile, hfunctions⟩ := hstale
  exact ⟨_, hunfolds, rfl, hidle, entry, hentry, hfile, newDisk_moved, functionsOf_moved, hfunctions⟩

end Scene

end TypingsIndex
