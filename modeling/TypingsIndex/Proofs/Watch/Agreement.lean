import TypingsIndex.Proofs.Watch.Coverage.Drain
import TypingsIndex.Proofs.Watch.Coverage.Rebuild
import TypingsIndex.Proofs.Watch.Coverage.Tracking
import TypingsIndex.Proofs.Watch.Deadlines
import TypingsIndex.Proofs.Watch.Shown

/-!
# Catalog and disk agree when nothing is left to do

In every scene that can come about, every difference between the catalog and the disk is covered
(`Scene.Reached.covered`). A difference that is covered has a command in flight or something that is due. So when
there is neither, the catalog has exactly the modules of the files on the disk that keep to the grammar,
and possibly old ones of files that do not (`Scene.Reached.agreement`).
-/

set_option autoImplicit false

namespace TypingsIndex

namespace Scene

/-- A scene in which every difference between the catalog and the disk is covered. -/
structure Covered (texts : String → Prop) (site : Site) (scene : Scene) : Prop where
  told : scene.disk.Told site texts scene.inFlight
  tracks : scene.session.Tracks site texts
  covers : scene.session.Covers site scene.disk scene.inFlight
  scheduled : scene.session.Scheduled

variable {texts : String → Prop} {site : Site} {scene after : Scene}

/-- A change of the disk leaves every difference covered. -/
theorem DiskStep.covered (step : DiskStep texts site scene after) (covered : scene.Covered texts site) :
    after.Covered texts site := by
  cases step with
  | change change plain holds =>
    exact ⟨covered.told.changed change plain holds, covered.tracks,
      covered.covers.changed change covered.told.plain plain, covered.scheduled⟩

/-- Handled news leaves every difference covered. -/
theorem Covered.delivered {disk : Disk} {command : Command} {rest : List Command} {session : Session}
    {world : Surroundings} {now : Nat} (covered : Covered texts site ⟨disk, command :: rest, session⟩)
    (shows : world.Shows site disk) :
    Covered texts site ⟨disk, rest, (session.handle world now command).value.session⟩ := by
  obtain ⟨told, tracks, covers, scheduled⟩ := covered
  obtain ⟨names, nonempty, valid, rfl | rfl⟩ := told.is_local command List.mem_cons_self
  · exact ⟨told.delivered, tracks.touched valid nonempty,
      covers.touched tracks told.plain shows valid nonempty, scheduled.touched _⟩
  · exact ⟨told.delivered, tracks.removed valid, covers.removed tracks told valid,
      scheduled.removed _⟩

/-- A scan of the root covers every difference. -/
theorem covered_rebuilt {disk : Disk} {queue : List Command} {session : Session} {world : Surroundings}
    {now : Nat} (told : disk.Told site texts queue) (tracks : session.Tracks site texts)
    (shows : world.Shows site disk) :
    Covered texts site ⟨disk, queue, (session.rebuild world now).value.1⟩ := by
  obtain ⟨_, _, -, -, hscheduled⟩ := tracks.rebuild_value now told.plain shows
  exact ⟨told, tracks.rebuilt told.plain told.holds shows, tracks.covers_rebuilt told.plain shows queue,
    hscheduled⟩

/-- A poll leaves every difference covered. -/
theorem Covered.polled {disk : Disk} {queue : List Command} {session : Session}
    {atReload atRescan atDrain : Surroundings} {now : Nat} (covered : Covered texts site ⟨disk, queue, session⟩)
    (rescanShows : atRescan.Shows site disk) (drainShows : atDrain.Shows site disk) :
    Covered texts site ⟨disk, queue, (session.pollIn atReload atRescan atDrain now).value⟩ := by
  refine Session.pollIn_invariant (P := fun working => Covered texts site ⟨disk, queue, working⟩)
    covered.tracks.no_reload covered (fun before hbefore => ?_) fun before hbefore => ?_
  · exact covered_rebuilt hbefore.told hbefore.tracks rescanShows
  · obtain ⟨htracks, hcovers, hscheduled⟩ :=
      hbefore.covers.drain now hbefore.tracks hbefore.told.plain hbefore.told.holds drainShows
    exact ⟨hbefore.told, htracks, hcovers, hscheduled⟩

/-- The work of a session leaves every difference covered. -/
theorem SessionStep.covered (step : SessionStep site scene after) (covered : scene.Covered texts site) :
    after.Covered texts site := by
  cases step with
  | delivered shows => exact covered.delivered shows
  | polled reloadShows rescanShows drainShows => exact covered.polled rescanShows drainShows
  | rebuilt shows => exact covered_rebuilt covered.told covered.tracks shows

/-- Before its first work a session knows nothing, and the news that waits for it is in order. -/
theorem Waiting.told_tracks (waiting : Waiting texts site scene) :
    scene.disk.Told site texts scene.inFlight ∧ scene.session.Tracks site texts := by
  induction waiting with
  | start plain holds root unlimited =>
    exact ⟨⟨plain, holds, fun _ h => absurd h List.not_mem_nil, fun _ _ _ => trivial⟩, .start root unlimited⟩
  | disk waiting step ih =>
    cases step with
    | change change plain holds => exact ⟨ih.1.changed change plain holds, ih.2⟩

/-- In every scene that can come about, every difference between the catalog and the disk is covered. -/
theorem Reached.covered (reached : Reached texts site scene) : scene.Covered texts site := by
  induction reached with
  | opened waiting shows =>
    obtain ⟨told, tracks⟩ := waiting.told_tracks
    exact covered_rebuilt told tracks shows
  | disk reached step ih => exact step.covered ih
  | session reached step ih => exact step.covered ih

/-- A session that reads its pending files in time and has nothing due awaits nothing. -/
theorem not_awaits {session : Session} (scheduled : session.Scheduled) (idle : session.nextDeadline = none)
    (path : Path) : ¬ session.Awaits path := by
  obtain ⟨-, hrescan, hdrain⟩ := Session.nextDeadline_eq_none_iff.mp idle
  rintro (hpending | hdue)
  · obtain ⟨marked, hmarked, -⟩ := Pending.contains_iff.mp hpending
    have hdue := scheduled (List.ne_nil_of_mem hmarked)
    rw [hdrain] at hdue
    cases hdue
  · rw [hrescan] at hdue
    cases hdue

/-- When no command is in flight and nothing is due, every module is that of a tracked file that is on the
disk, and every tracked file on the disk whose text keeps to the grammar has a module with the digest
of this text. Its functions are those of the text, unless another text with the same digest can occur. -/
theorem Reached.agreement (reached : Reached texts site scene) (quiet : scene.inFlight = [])
    (idle : scene.session.nextDeadline = none) :
    (∀ entry ∈ scene.session.catalog.modules, ∃ names content, Trackable names
        ∧ entry.file = site.file names ∧ scene.disk.node? (site.locate names) = some (.file content))
      ∧ ∀ names text functions, Trackable names →
        scene.disk.node? (site.locate names) = some (.file (.text text)) →
        functionsOf (site.file names) text = .ok functions →
          ∃ entry, scene.session.catalog.find? (site.file names) = some entry
            ∧ entry.digest = some (Digest.ofText text)
            ∧ ((∀ other, texts other → Digest.ofText other = Digest.ofText text → other = text) →
              entry.functions = functions) := by
  have covered := reached.covered
  have hnews : ∀ path, ¬ Heralded path scene.inFlight ∧ ¬ Revoked path scene.inFlight := by
    rw [quiet]
    simp [Heralded, Revoked]
  refine ⟨fun entry hentry => ?_, fun names text functions tracked there hfunctions => ?_⟩
  · obtain ⟨names, _, tracked, -, hfile, -⟩ := covered.tracks.modules entry hentry
    rcases covered.covers.gone names tracked entry hentry hfile with ⟨content, there⟩ | h | h
    · exact ⟨names, content, tracked, hfile, there⟩
    · exact absurd h (hnews _).2
    · exact absurd h (not_awaits covered.scheduled idle _)
  · have hparsed := functionsOf_eq_ok.mp hfunctions
    rcases covered.covers.fresh names _ tracked there with h | h | h
    · exact absurd h (hnews _).1
    · exact absurd h (not_awaits covered.scheduled idle _)
    · obtain ⟨entry, hentry, hfile, hdigest⟩ := h text functions rfl hparsed
      refine ⟨entry, (Catalog.find?_eq_some_iff covered.tracks.consistent).mpr ⟨hentry, hfile⟩,
        hdigest, fun hunique => ?_⟩
      obtain ⟨_, source, -, -, -, hsource, hsourceParsed, hsourceDigest⟩ :=
        covered.tracks.modules entry hentry
      obtain rfl := hunique source hsource (Option.some.inj (hsourceDigest.symm.trans hdigest))
      exact Except.ok.inj (hsourceParsed.symm.trans hparsed)

/-- The session of a scan of an empty root, after it was told of a file and has read it. -/
def sampleSession : Session :=
  let bare := (Disk.flat []).undisturbed
  let written := (Disk.flat [("a.d.ts", "")]).undisturbed
  let opened := ((Session.start bare Disk.flatSite.path .default {}).handle bare 0 .rebuild).value.session
  let told := (opened.handle written 0 (.touched (Disk.flatSite.file ["a.d.ts"]))).value.session
  (told.pollIn written written written 500).value

/-- The scene of the sample is reached from the start, since the file is only touched there. -/
theorem sample_reached : Reached (· = "") Disk.flatSite
    ⟨Disk.flat [("a.d.ts", "")], [], sampleSession⟩ := by
  have hname : Path.IsName "a.d.ts" := ⟨by decide, by decide, by decide, by decide⟩
  have hbare : (Disk.flat []).Plain Disk.flatSite := Disk.flat_plain (by decide) (by simp)
  have hwritten : (Disk.flat [("a.d.ts", "")]).Plain Disk.flatSite :=
    Disk.flat_plain (by decide) (by simpa using hname)
  have hbareShows := (@Disk.flat_anchored [] (by decide)).shows_undisturbed hbare
  have hwrittenShows := (Disk.flat_anchored (by decide)).shows_undisturbed hwritten
  have hstart : Waiting (· = "") Disk.flatSite
      ⟨Disk.flat [], [], Session.start (Disk.flat []).undisturbed Disk.flatSite.path .default {}⟩ :=
    .start hbare (Disk.flat_holds (by decide) (by simp)) (by decide +kernel) rfl
  have hchange : Disk.flatSite.Change (Disk.flat []) (.touched (Disk.flatSite.file ["a.d.ts"]))
      (Disk.flat [("a.d.ts", "")]) :=
    .written (by decide) (by decide +kernel)
  have hholds : (Disk.flat [("a.d.ts", "")]).HoldsOnly Disk.flatSite (· = "") :=
    Disk.flat_holds (by decide) (by simp)
  exact .session (.session (.disk (.opened hstart hbareShows) (.change hchange hwritten hholds))
    (.delivered hwrittenShows)) (.polled hwrittenShows hwrittenShows hwrittenShows)

/-- An empty file that was written after the first scan has a module without functions once the session
has nothing to do. -/
theorem Reached.agreement_written :
    ∃ entry, sampleSession.catalog.find? (Disk.flatSite.file ["a.d.ts"]) = some entry
      ∧ entry.functions = [] := by
  have hname : Path.IsName "a.d.ts" := ⟨by decide, by decide, by decide, by decide⟩
  have htracked : Trackable ["a.d.ts"] :=
    ⟨by simpa using hname, by decide, _, rfl, by decide, by decide⟩
  have hthere : (Disk.flat [("a.d.ts", "")]).node? (Disk.flatSite.locate ["a.d.ts"]) =
      some (.file (.text "")) := by decide +kernel
  obtain ⟨-, hmodules⟩ := sample_reached.agreement rfl (by decide +kernel)
  obtain ⟨entry, hfind, -, hfunctions⟩ := hmodules ["a.d.ts"] "" [] htracked hthere (by decide +kernel)
  exact ⟨entry, hfind, hfunctions fun other hother _ => hother⟩

end Scene

end TypingsIndex
