import TypingsIndex.Proofs.Watch.Coverage.Basic
import TypingsIndex.Proofs.Watch.Rebuilt

/-!
# A scan of the root covers every difference

Whatever a session has missed, a scan of its root makes good: every file that is there agrees with the catalog
afterwards or is marked, and every module is that of a file that is there.
-/

set_option autoImplicit false

namespace TypingsIndex

section

variable {site : Site} {texts : String → Prop} {disk : Disk} {session : Session} {world : Surroundings}
  {now : Nat}

/-- A scan lists the tracked files that are there. -/
theorem Surroundings.Shows.mem_listed (shows : world.Shows site disk) (plain : disk.Plain site)
    {path : Path} :
    path ∈ Scan.listed world site.path ↔
      ∃ names content, Trackable names ∧ path = site.file names
        ∧ disk.node? (site.locate names) = some (.file content) := by
  unfold Scan.listed
  rw [List.mem_filter, shows.walk]
  constructor
  · rintro ⟨⟨names, content, rfl, shown, there⟩, hdeclaration⟩
    have valid := plain.proper names (by rw [there]; rfl)
    have nonempty : names ≠ [] := by
      rintro rfl
      have hroot : site.locate [] = site.location := List.append_nil _
      rw [hroot, Disk.hasDirectory_iff.mp plain.root] at there
      cases there
    exact ⟨names, content, ⟨valid, shown, (isDeclarationFile_descend valid nonempty).mp hdeclaration⟩,
      rfl, there⟩
  · rintro ⟨names, content, tracked, rfl, there⟩
    exact ⟨⟨names, content, rfl, tracked.shown, there⟩,
      (isDeclarationFile_descend tracked.valid tracked.ne_nil).mpr tracked.declared⟩

section

variable (plain : disk.Plain site) (shows : world.Shows site disk) {scan : ScanReport}
  {previous : Catalog} (report : Scan.directory world site.path previous = .ok scan)

include plain shows

/-- The root of a site is a directory for a session. -/
theorem Surroundings.Shows.root : world.isDirectory site.path = true := by
  have hroot := shows.isDirectory [] (by simp)
  have hlocation : site.locate [] = site.location := List.append_nil _
  rw [hlocation, plain.root] at hroot
  exact hroot

include report

/-- A module after a scan is that of a tracked file that is there. -/
theorem Surroundings.Shows.mem_scanned {entry : Module} (hentry : entry ∈ scan.catalog.modules) :
    ∃ names content, Trackable names ∧ entry.file = site.file names
      ∧ disk.node? (site.locate names) = some (.file content)
      ∧ Scan.moduleOf? world site.path previous (site.file names) = some entry := by
  obtain ⟨file, hlisted, hmodule⟩ := Session.mem_scanned (shows.root plain) report hentry
  obtain ⟨names, content, tracked, rfl, there⟩ := (shows.mem_listed plain).mp hlisted
  exact ⟨names, content, tracked, (Scan.moduleOf?_cases hmodule).1, there, hmodule⟩

/-- Modules after a scan are made from texts of the kind that is on the disk, if those before it were. -/
theorem Surroundings.Shows.scanned_owns (holds : disk.HoldsOnly site texts)
    (previousOwns : ∀ old, ∀ file, previous.find? file = some old → site.Owns texts old) :
    ∀ entry ∈ scan.catalog.modules, site.Owns texts entry := by
  intro entry hentry
  obtain ⟨names, content, tracked, hfile, there, hmodule⟩ := shows.mem_scanned plain report hentry
  have hflat : ∀ name ∈ names.dropLast, ¬ IsDeclarationName name :=
    plain.no_declaration_above (by rw [there]; rfl)
  rcases (Scan.moduleOf?_cases hmodule).2 with ⟨text, hread, hfunctions, hdigest⟩ | ⟨old, hold, hkept⟩
  · have htext := (shows.read names tracked).of_text hread
    exact ⟨names, text, tracked, hflat, hfile, holds names text htext,
      functionsOf_eq_ok.mp hfunctions, hdigest⟩
  · obtain ⟨-, text, -, -, -, htext, hparsed, hdigest⟩ := previousOwns old _ hold
    exact ⟨names, text, tracked, hflat, hfile, htext, hkept.1 ▸ hparsed, hkept.2.trans hdigest⟩

/-- After a scan a file that is there agrees with the catalog, unless its read failed in a way that may
pass. -/
theorem Surroundings.Shows.scanned_agrees {names : List String} {content : Disk.Content}
    (tracked : Trackable names) (there : disk.node? (site.locate names) = some (.file content))
    {fresh : Module} (named : Module.empty? (site.file names) site.path = some fresh) :
    (Session.pendingAfter scan.failures).contains (site.file names) = true
      ∨ scan.catalog.Agrees (site.file names) content := by
  have hroot := shows.root plain
  have hlisted := (shows.mem_listed plain).mpr ⟨names, content, tracked, rfl, there⟩
  have htells := shows.read names tracked
  rw [there] at htells
  rcases htells.outcome with ⟨text, hread, -⟩ | ⟨fault, hread, htransient | hlasting⟩
  · refine .inr fun other functions hcontent hparsed => ?_
    cases hcontent.symm.trans (htells.content_eq hread)
    have hmodule := Scan.moduleOf?_of_content previous named hread
      (functionsOf_eq_ok.mpr hparsed)
    have hpath := (Scan.moduleOf?_cases hmodule).1
    obtain ⟨last, hlast, hsame⟩ := Session.exists_scanned hroot report hlisted hmodule
    obtain ⟨others, _, hothers, hfile, -, hlastModule⟩ := shows.mem_scanned plain report hlast
    rw [hpath] at hsame
    refine ⟨last, hlast, hsame, ?_⟩
    rw [hfile, Site.file, Site.file, Path.components_descend_inj hothers.valid tracked.valid] at hsame
    rw [hsame, hmodule] at hlastModule
    rw [← Option.some.inj hlastModule]
    rfl
  · exact .inl (Session.contains_pendingAfter hroot report hlisted named hread htransient)
  · refine .inr fun text functions hcontent _ => ?_
    rcases hlasting with ⟨-, hbinary⟩ | ⟨-, hnone⟩
    · cases hcontent.symm.trans (Disk.Node.file.inj (Option.some.inj hbinary))
    · exact absurd rfl (hnone content)

end

/-- The session after a scan of the root of a site. -/
theorem Session.Tracks.rebuild_value (tracks : session.Tracks site texts) (now : Nat)
    (plain : disk.Plain site)
    (shows : world.Shows site disk) :
    ∃ scan due, Scan.directory world site.path session.catalog = .ok scan
      ∧ (session.rebuild world now).value.1 =
        { session with
          catalog := scan.catalog
          pending := Session.pendingAfter scan.failures
          drainDue := due
          rescanDue := none }
      ∧ (session.rebuild world now).value.1.Scheduled := by
  have hroot : world.isDirectory session.root = true := by
    rw [tracks.root]
    exact shows.root plain
  obtain ⟨scan, report, hvalue⟩ := Session.rebuild_value now hroot
  rw [tracks.root] at report
  rw [hvalue]
  obtain ⟨due, hdue⟩ := Session.scheduleRetry_frame _ now
  exact ⟨scan, due, report, hdue, Session.scheduleRetry_scheduled _ now⟩

/-- A scan of the root leaves everything known of a session in place. -/
theorem Session.Tracks.rebuilt (tracks : session.Tracks site texts) (plain : disk.Plain site)
    (holds : disk.HoldsOnly site texts) (shows : world.Shows site disk) :
    (session.rebuild world now).value.1.Tracks site texts := by
  have hroot := shows.root plain
  obtain ⟨scan, due, report, hvalue, -⟩ := tracks.rebuild_value now plain shows
  rw [hvalue]
  refine ⟨tracks.root, tracks.unlimited, tracks.no_reload, Session.scanned_consistent hroot report,
    fun path hpath => ?_, shows.scanned_owns plain report holds fun old file hold => ?_⟩
  · have hlisted := Session.mem_pendingAfter hroot report hpath
    obtain ⟨names, _, tracked, hfile, -⟩ := (shows.mem_listed plain).mp hlisted
    exact ⟨names, tracked, hfile⟩
  · exact tracks.modules old ((Catalog.find?_eq_some_iff tracks.consistent).mp hold).1

/-- After a scan of the root every difference is covered, whatever was covered before. -/
theorem Session.Tracks.covers_rebuilt (tracks : session.Tracks site texts) (plain : disk.Plain site)
    (shows : world.Shows site disk) (queue : List Command) :
    (session.rebuild world now).value.1.Covers site disk queue := by
  obtain ⟨scan, due, report, hvalue, -⟩ := tracks.rebuild_value now plain shows
  rw [hvalue]
  refine ⟨fun names content tracked there => ?_, fun names tracked entry hentry hfile => ?_⟩
  · obtain ⟨fresh, hfresh⟩ := tracks.empty?_isSome tracked
    rw [tracks.root] at hfresh
    rcases shows.scanned_agrees plain report tracked there hfresh with hpending | hagrees
    · exact .inr (.inl (.inl hpending))
    · exact .inr (.inr hagrees)
  · obtain ⟨others, content, hothers, hotherFile, there, -⟩ := shows.mem_scanned plain report hentry
    have hsame := congrArg Path.components (hotherFile.symm.trans hfile)
    rw [Site.file, Site.file, Path.components_descend_inj hothers.valid tracked.valid] at hsame
    exact .inl ⟨content, hsame ▸ there⟩

end

end TypingsIndex
