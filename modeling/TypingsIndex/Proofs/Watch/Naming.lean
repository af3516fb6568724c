import TypingsIndex.Proofs.Watch.Provenance

/-!
# Names and marks under a root that moves

The names of a module say where its file lies below the declaration root, and a file is marked only if it could be
found below the root. New settings move the root while catalog and marks are still those of the old one, so that
neither holds in the middle of such a move. The marks are dropped with the old root. The modules are those of the
scan that follows, which has made or renamed each of them for the new root; and if there is no directory at the new
root there are no modules.
-/

set_option autoImplicit false

namespace TypingsIndex

/-- The walk through a directory lists only paths below it, and none with a hidden name on the way. -/
def Surroundings.WalksBelow (world : Surroundings) : Prop :=
  ∀ directory, ∀ path ∈ (world.walk directory).1,
    ∃ names : List String, path.components = directory.components ++ names.map .name
      ∧ ∀ name ∈ names, Session.isHidden name = false

/-- A file that a scan leaves with a module has the names that it has below the root of the scan. -/
theorem Scan.moduleOf?_named {world : Surroundings} {root file : Path} {previous : Catalog} {entry : Module}
    (h : moduleOf? world root previous file = some entry) :
    ModuleNames.ofFile? file root = some entry.names := by
  have hloaded := loadModule_loaded world root file
  unfold moduleOf? keptModule? at h
  cases hresult : (loadModule world root file).result with
  | ok loaded =>
    rw [hresult] at h hloaded
    obtain rfl := Option.some.inj h
    cases hloaded with
    | parsed named =>
      obtain ⟨names, hnames, rfl⟩ := Option.map_eq_some_iff.mp named
      exact hnames
  | error failure =>
    rw [hresult] at h
    obtain ⟨old, -, hmoved⟩ := Option.bind_eq_some_iff.mp h
    obtain ⟨names, hnames, rfl⟩ := Option.map_eq_some_iff.mp hmoved
    exact hnames

namespace Session

variable {world : Surroundings} {now : Nat} {session : Session}

/-- What a walk lists under the root is accepted if it is a declaration file. -/
theorem accepts_listed (below : world.WalksBelow) {file : Path}
    (listed : file ∈ Scan.listed world session.root) : session.accepts file = true := by
  obtain ⟨hwalked, hdeclared⟩ := List.mem_filter.mp listed
  obtain ⟨names, hcomponents, hshown⟩ := below session.root file hwalked
  unfold accepts
  rw [hdeclared, Path.namesBelow_iff.mpr hcomponents, Bool.true_and, Option.any_some, Bool.not_eq_true']
  rw [List.any_eq_false]
  intro name hname
  simp [hshown name hname]

/-- A scan of a root that is no directory leaves no modules. -/
theorem rebuild_missing (now : Nat) (missing : world.isDirectory session.root = false) :
    (session.rebuild world now).value.1 = { session with
      catalog := (session.rebuild world now).value.1.catalog
      rescanDue := none }
      ∧ (session.rebuild world now).value.1.catalog.modules = [] := by
  have hscan : Scan.directory world session.root session.catalog = .error (.directoryMissing session.root) := by
    unfold Scan.directory Scan.findFiles
    simp [missing, bind, Except.bind]
  unfold rebuild
  simp only [hscan, lose]
  cases hempty : session.catalog.isEmpty with
  | true => exact ⟨rfl, List.isEmpty_iff.mp hempty⟩
  | false => exact ⟨rfl, rfl⟩

/-- A module is named for the root, and a marked file is one that is accepted below it. -/
structure Named (session : Session) : Prop where
  named : ∀ entry ∈ session.catalog.modules,
    ModuleNames.ofFile? entry.file session.root = some entry.names
  accepted : ∀ path ∈ session.pending.paths, session.accepts path = true

namespace Named

/-- A session that starts has no modules and no marks to be named. -/
theorem start (world : Surroundings) (base : Path) (settings : Settings) (timing : Timing) :
    (Session.start world base settings timing).Named := by
  constructor
  · intro entry hentry
    cases hentry
  · intro path hpath
    cases hpath

/-- Modules may be taken out, and marks as well. -/
theorem of_subset {other : Session} (named : session.Named) (root : other.root = session.root)
    (modules : ∀ entry ∈ other.catalog.modules, entry ∈ session.catalog.modules)
    (paths : ∀ path ∈ other.pending.paths, path ∈ session.pending.paths) : other.Named := by
  constructor
  · intro entry hentry
    rw [root]
    exact named.named entry (modules entry hentry)
  · intro path hpath
    have haccepted := named.accepted path (paths path hpath)
    unfold accepts at haccepted ⊢
    rwa [root]

/-- A touch marks only a path that is accepted below the root. -/
theorem touch (named : session.Named) (path : Path) : (session.touch world now path).Named := by
  have htouched := touch_touched world now session path
  generalize session.touch world now path = after at htouched
  cases htouched with
  | marked accepted =>
    refine ⟨named.named, ?_⟩
    intro other hother
    rcases Pending.paths_insert hother with rfl | hold
    · exact accepted
    · exact named.accepted other hold
  | rescanned => exact ⟨named.named, named.accepted⟩
  | ignored => exact named

/-- What a removal leaves has the names that it had. -/
theorem remove (named : session.Named) (sound : session.Sound) (path : Path) :
    (session.remove path).value.Named := by
  rw [remove_value]
  refine named.of_subset rfl ?_ (session.pending.eraseBelow_subset path)
  intro entry hentry
  cases hwithout : catalogWithout? session.catalog path with
  | none =>
    rw [hwithout] at hentry
    exact hentry
  | some after =>
    rw [hwithout] at hentry
    exact mem_of_catalogWithout? sound.consistent hwithout hentry

/-- A module that moves gets its names from the target, and what is marked is accepted. -/
theorem rename (named : session.Named) (sound : session.Sound) (source target : Path) :
    (session.rename world now source target).value.Named := by
  have hrenamed := rename_renamed world now session source target
  generalize session.rename world now source target = turn at hrenamed
  cases hrenamed with
  | ignored => exact named
  | rescanned => exact named.of_subset rfl (fun _ h => h) (session.pending.eraseBelow_subset source)
  | moved taken =>
    obtain ⟨haccepted, hrename⟩ := catalogRenamed?_eq_some session source taken
    obtain ⟨-, -, names, hnames, hmem⟩ := Catalog.mem_rename? sound.consistent hrename
    constructor
    · intro entry hentry
      rcases (hmem entry).mp hentry with ⟨hold, -⟩ | ⟨old, -, -, rfl⟩
      · exact named.named entry hold
      · exact hnames
    · intro path hpath
      rcases Pending.paths_rename hpath with rfl | hold
      · exact haccepted
      · exact named.accepted path hold
  | replaced => exact (named.remove sound source).touch target
  | arrived =>
    have herased : ({ session with pending := session.pending.erase source } : Session).Named :=
      named.of_subset rfl (fun _ h => h) (session.pending.erase_subset source)
    exact herased.touch target

end Named

/-- The module that takes in the functions of a file keeps its names, or gets those that the file has below the
root. -/
theorem catalogWith?_named_below (consistent : session.catalog.Consistent) {file : Path}
    {functions : List Signature} {content : String} {catalog : Catalog}
    (h : session.catalogWith? file functions content = some catalog) {entry : Module}
    (hentry : entry ∈ catalog.modules) :
    (∃ old ∈ session.catalog.modules, old.file = entry.file ∧ old.names = entry.names)
      ∨ ModuleNames.ofFile? entry.file session.root = some entry.names := by
  unfold catalogWith? at h
  split at h
  · next replaced hreplaced =>
    obtain rfl := Option.some.inj h
    rcases (Catalog.mem_replaceFunctions? consistent hreplaced).mp hentry with ⟨hold, -⟩ | ⟨old, hold, -, rfl⟩
    · exact .inl ⟨entry, hold, rfl, rfl⟩
    · exact .inl ⟨old, hold, rfl, rfl⟩
  · obtain ⟨fresh, hfresh, rfl⟩ := Option.map_eq_some_iff.mp h
    obtain ⟨names, hnames, rfl⟩ := Option.map_eq_some_iff.mp hfresh
    rcases (Catalog.mem_insert consistent).mp hentry with rfl | ⟨hold, -⟩
    · exact .inr hnames
    · exact .inl ⟨entry, hold, rfl, rfl⟩

namespace Named

/-- A file that is read gets its names from the root, and the other modules keep theirs. -/
theorem drained {file : Path} {after : Session} (named : session.Named) (sound : session.Sound)
    (drained : FileDrained world file session after) : after.Named := by
  have hsettled : (session.settled file).Named :=
    named.of_subset rfl (fun _ h => h) (session.pending.erase_subset file)
  cases drained with
  | parsed reading accepted taken =>
    have hconsistent : (session.settled file).catalog.Consistent := sound.consistent
    refine ⟨?_, hsettled.accepted⟩
    intro entry hentry
    rcases catalogWith?_named_below hconsistent taken hentry with ⟨old, hold, hfile, hnames⟩ | hnames
    · rw [← hfile, ← hnames]
      exact named.named old hold
    · exact hnames
  | vanished reading verdict taken =>
    refine hsettled.of_subset rfl ?_ (fun _ h => h)
    intro entry hentry
    exact ((Catalog.mem_erase? sound.consistent taken).mp hentry).1
  | retried =>
    refine named.of_subset rfl (fun _ h => h) ?_
    intro path hpath
    exact Pending.paths_countFailure ▸ hpath
  | _ => exact hsettled

/-- A drain keeps modules named for the root, since the reading of each file does. -/
theorem drain (named : session.Named) (sound : session.Sound) : (session.drain world now).value.Named := by
  have hbegun : ({ session with drainDue := none } : Session).Named := ⟨named.named, named.accepted⟩
  have hsound : ({ session with drainDue := none } : Session).Sound := sound.of_same rfl rfl
  obtain ⟨last, ⟨hnamed, -⟩, hvalue⟩ := drain_invariant (P := fun before => before.Named ∧ before.Sound) now
    (fun file _ before after hbefore hdrained =>
      ⟨hbefore.1.drained hbefore.2 hdrained, hbefore.2.drained hdrained⟩) ⟨hbegun, hsound⟩
  rw [hvalue]
  refine hnamed.of_subset (scheduleRetry_root last now) ?_ ?_
  · rw [scheduleRetry_catalog]
    exact fun _ h => h
  · rw [scheduleRetry_pending]
    exact fun _ h => h

/-- A scan names every module for the root, whatever the names were before. Only the marks have to belong to the
root already, since they stay if the root cannot be scanned. -/
theorem rebuild (below : world.WalksBelow)
    (accepted : ∀ path ∈ session.pending.paths, session.accepts path = true) :
    (session.rebuild world now).value.1.Named := by
  cases hroot : world.isDirectory session.root with
  | false =>
    obtain ⟨hvalue, hnone⟩ := rebuild_missing now hroot
    constructor
    · rw [hnone]
      intro entry hentry
      cases hentry
    · rw [hvalue]
      exact accepted
  | true =>
    obtain ⟨scan, hscan, hvalue⟩ := rebuild_value now hroot
    rw [hvalue]
    constructor
    · rw [scheduleRetry_catalog, scheduleRetry_root]
      intro entry hentry
      obtain ⟨file, -, hmodule⟩ := mem_scanned hroot hscan hentry
      rw [(Scan.moduleOf?_cases hmodule).1]
      exact Scan.moduleOf?_named hmodule
    · rw [scheduleRetry_pending]
      intro path hpath
      have haccepted := accepts_listed below (mem_pendingAfter hroot hscan hpath)
      unfold accepts at haccepted ⊢
      rwa [scheduleRetry_root]

/-- Settings that are put in effect leave modules and marks that fit the root that they lead to. -/
theorem applied {settings : Settings} {turn : Turn Session} (named : session.Named) (below : world.WalksBelow)
    (applied : SettingsApplied world now session settings turn) : turn.value.Named := by
  cases applied with
  | same => exact named
  | announced => exact ⟨named.named, named.accepted⟩
  | rebuilt =>
    -- the modules still have their old names here, but no mark of the old root is left
    refine rebuild below ?_
    unfold Session.underSettings
    split
    · exact named.accepted
    · intro path hpath
      cases hpath

/-- The settings file leaves modules and marks that fit the root, whatever it has come to. -/
theorem loaded {attempts : Nat} {turn : Turn Session} (named : session.Named) (below : world.WalksBelow)
    (loaded : SettingsLoaded world now session attempts turn) : turn.value.Named := by
  have hforgotten : ({ session with reload := none } : Session).Named := ⟨named.named, named.accepted⟩
  cases loaded with
  | applied outcome =>
    have hafter := hforgotten.applied below outcome
    exact hafter
  | refused => exact hforgotten
  | postponed => exact ⟨named.named, named.accepted⟩

/-- The reload of a poll leaves modules and marks that fit the root. -/
theorem reloadIfDue (named : session.Named) (below : world.WalksBelow) :
    (session.reloadIfDue world now).value.Named := by
  unfold Session.reloadIfDue
  split
  · split
    · exact named.loaded below (reloadSettings_loaded world now session _)
    · exact named
  · exact named

/-- The scan of a poll leaves modules and marks that fit the root. -/
theorem rescanIfDue (named : session.Named) (below : world.WalksBelow) :
    (session.rescanIfDue world now).value.Named := by
  unfold Session.rescanIfDue
  split
  · exact rebuild below named.accepted
  · exact named

/-- The drain of a poll leaves modules and marks that fit the root. -/
theorem drainIfDue (named : session.Named) (sound : session.Sound) :
    (session.drainIfDue world now).value.Named := by
  unfold Session.drainIfDue
  split
  · exact named.drain sound
  · exact named

/-- Every deed leaves modules and marks that fit the root. -/
theorem act (named : session.Named) (sound : session.Sound) (deed : Deed)
    (below : ∀ world ∈ deed.worlds, world.WalksBelow) : (session.act deed).value.Named := by
  have hforgotten : ({ session with reload := none } : Session).Named := ⟨named.named, named.accepted⟩
  cases deed with
  | handle world now command =>
    have hbelow : world.WalksBelow := below world List.mem_cons_self
    cases command with
    | touched path => exact named.touch path
    | removed path =>
      rw [act_removed]
      exact named.remove sound path
    | renamed source target =>
      rw [act_renamed]
      exact named.rename sound source target
    | settingsTouched => exact ⟨named.named, named.accepted⟩
    | settingsRemoved =>
      rw [act_settingsRemoved]
      exact hforgotten.applied hbelow (applySettings_applied world now _ .default)
    | rebuild =>
      rw [act_rebuild]
      exact rebuild hbelow named.accepted
    | shutdown => exact named
  | poll atReload atRescan atDrain now =>
    have hreload : atReload.WalksBelow := below atReload (by simp [Deed.worlds])
    have hrescan : atRescan.WalksBelow := below atRescan (by simp [Deed.worlds])
    have hreloaded : (session.reloadIfDue atReload now).value.Named := named.reloadIfDue hreload
    have hrescanned : ((session.reloadIfDue atReload now).value.rescanIfDue atRescan now).value.Named :=
      hreloaded.rescanIfDue hrescan
    exact hrescanned.drainIfDue sound.reloadIfDue.rescanIfDue

/-- Every run leaves modules and marks that fit the root. -/
theorem run (named : session.Named) (sound : session.Sound) (deeds : List Deed)
    (below : ∀ deed ∈ deeds, ∀ world ∈ deed.worlds, world.WalksBelow) : (session.run deeds).value.Named := by
  have hboth := run_invariant (P := fun before => before.Named ∧ before.Sound) deeds ⟨named, sound⟩
    (fun before deed hdeed hbefore => ⟨hbefore.1.act hbefore.2 deed (below deed hdeed), hbefore.2.act deed⟩)
  exact hboth.1

end Named

/-- After any run, however often new settings have moved the root, whether there was a directory at it or not: every
module has the names that its file has below the root of now, and every marked file is one that is accepted there. -/
theorem run_named (world : Surroundings) (base : Path) (settings : Settings) (timing : Timing) (deeds : List Deed)
    (below : ∀ deed ∈ deeds, ∀ world ∈ deed.worlds, world.WalksBelow) :
    let session := ((Session.start world base settings timing).run deeds).value
    (∀ entry ∈ session.catalog.modules,
        (Module.empty? entry.file session.root).map Module.names = some entry.names)
      ∧ ∀ path ∈ session.pending.paths, session.accepts path = true := by
  intro session
  have hstart : (Session.start world base settings timing).Named := .start world base settings timing
  have hnamed : session.Named := hstart.run (.start world base settings timing) deeds below
  refine ⟨?_, hnamed.accepted⟩
  intro entry hentry
  rw [← hnamed.named entry hentry]
  unfold Module.empty?
  rw [Option.map_map]
  exact Option.map_id'

end Session

/-- Surroundings with one file, and directories at all paths above it. -/
def Surroundings.around (file : Path) (read : Path → Reading) : Surroundings where
  read := read
  isDirectory := fun path => file.isAtOrBelow path && !file.same path
  canonical := fun _ => none
  walk := fun directory =>
    if ((file.below? directory).bind Path.names?).any fun names => !names.any Session.isHidden then ([file], [])
    else ([], [])
  watchFault := fun _ => none

/-- In surroundings with one file the walk lists what is below the directory, and nothing hidden. -/
theorem Surroundings.around_walksBelow (file : Path) (read : Path → Reading) : (around file read).WalksBelow := by
  intro directory path hpath
  unfold around at hpath
  dsimp only at hpath
  split at hpath
  · next hbelow =>
    obtain rfl := List.mem_singleton.mp hpath
    rw [Option.any_eq_true] at hbelow
    obtain ⟨names, hnames, hshown⟩ := hbelow
    refine ⟨names, Path.namesBelow_iff.mp hnames, ?_⟩
    intro name hname
    rw [Bool.not_eq_true', List.any_eq_false] at hshown
    exact Bool.not_eq_true _ ▸ hshown name hname
  · cases hpath

namespace Session

/-- A file that could be read before the root was moved to its directory, and not afterwards, keeps its module under
a shorter name. -/
theorem run_named_moved :
    let file : Path := ⟨"/w/a/m.d.ts"⟩
    let first := Surroundings.around file fun _ => .content "export declare function f(): void;"
    let second := Surroundings.around file fun path =>
      if path.isDeclarationFile then .failed .notText else .content "\x7b\"declaration path\": \"a\"\x7d"
    let deeds : List Deed :=
      [.handle first 0 .rebuild, .handle second 1 .settingsTouched, .poll second second second 501]
    let session := ((Session.start first ⟨"/w"⟩ .default {}).run deeds).value
    (∀ deed ∈ deeds, ∀ world ∈ deed.worlds, world.WalksBelow)
      ∧ session.root = ⟨"/w/a"⟩ ∧ session.catalog.modules.map (·.names.relativePath) = ["m.d.ts"] := by
  intro file first second deeds session
  have below : ∀ deed ∈ deeds, ∀ world ∈ deed.worlds, world.WalksBelow := by
    simp [deeds, Deed.worlds, first, second, Surroundings.around_walksBelow]
  have hroot : session.root = ⟨"/w/a"⟩ := by decide +kernel
  have hfiles : session.catalog.modules.map Module.file = [file] := by decide +kernel
  refine ⟨below, hroot, ?_⟩
  obtain ⟨hnames, -⟩ := run_named first ⟨"/w"⟩ .default {} deeds below
  obtain ⟨entry, hmodules, hfile⟩ := List.map_eq_singleton_iff.mp hfiles
  have hentry := hnames entry (by rw [hmodules]; exact List.mem_singleton_self entry)
  have hempty : (Module.empty? file ⟨"/w/a"⟩).map (·.names.relativePath) = some "m.d.ts" := by decide +kernel
  rw [hmodules, List.map_singleton]
  change (Module.empty? entry.file session.root).map Module.names = some entry.names at hentry
  rw [hfile, hroot] at hentry
  obtain ⟨fresh, hfresh, hsame⟩ := Option.map_eq_some_iff.mp hentry
  rw [hfresh, Option.map_some, hsame] at hempty
  rw [Option.some.inj hempty]

end Session

end TypingsIndex
