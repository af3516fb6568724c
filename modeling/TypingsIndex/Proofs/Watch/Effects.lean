import TypingsIndex.Proofs.Watch.Drained
import TypingsIndex.Proofs.Watch.Rebuilt
import TypingsIndex.Watch.Reload

/-!
# What the work of a session does to the world outside

Each piece of work is told by its turn: the session that it ends with, and the effects in order. Most effects
are asides, from which nothing can be looked up and no catalog be learned: failures that are reported, files
that have moved, the watch on the root. What is left are readings and publications, and these are told in full
(`drainFile_effects`, `rebuild_scanned`, `applySettings_applied`, `reloadSettings_loaded`), so that no later
proof has to follow the work again.
-/

set_option autoImplicit false

namespace TypingsIndex

namespace Effect

/-- The catalog that an effect tells of. -/
def toldCatalog? : Effect → Option Catalog
  | .emit (.catalogChanged catalog) => some catalog
  | _ => none

/-- The file that was read, and what the reading gave. -/
def reading? : Effect → Option (Path × Reading)
  | .read file reading => some (file, reading)
  | _ => none

/-- An effect that reads nothing, publishes nothing and tells of no catalog. -/
def IsAside : Effect → Prop
  | .read .. | .publishCatalog _ | .publishSettings _ | .emit (.catalogChanged _) => False
  | _ => True

/-- The effects of publishing a catalog. -/
def publication (catalog : Catalog) : List Effect :=
  [.publishCatalog catalog, .emit (.catalogChanged catalog)]

/-- What happens aside tells of no catalog. -/
theorem IsAside.toldCatalog? {effect : Effect} (h : effect.IsAside) : effect.toldCatalog? = none := by
  unfold Effect.toldCatalog?
  split
  · exact absurd h (by simp [IsAside])
  · rfl

/-- What happens aside reads nothing. -/
theorem IsAside.reading? {effect : Effect} (h : effect.IsAside) : effect.reading? = none := by
  unfold Effect.reading?
  split
  · exact absurd h (by simp [IsAside])
  · rfl

/-- What happens aside does not change what is published. -/
theorem IsAside.step {effect : Effect} (h : effect.IsAside) (published : Published) :
    published.step effect = published := by
  unfold Published.step
  split
  · exact absurd h (by simp [IsAside])
  · exact absurd h (by simp [IsAside])
  · rfl

end Effect

/-- A failure is reported in asides. -/
theorem Turn.report_asides (failure : Failure) : ∀ effect ∈ (Turn.report failure).effects, effect.IsAside := by
  intro effect heffect
  unfold Turn.report at heffect
  split at heffect <;> rw [List.mem_singleton.mp heffect] <;> trivial

/-- Failures that are reported are told aside. -/
theorem Turn.forM_report_asides (failures : List Failure) :
    ∀ effect ∈ (failures.forM Turn.report).effects, effect.IsAside := by
  induction failures with
  | nil =>
    intro effect heffect
    cases heffect
  | cons failure rest ih =>
    intro effect heffect
    change effect ∈ (Turn.report failure).effects ++ (rest.forM Turn.report).effects at heffect
    rcases List.mem_append.mp heffect with h | h
    · exact Turn.report_asides failure effect h
    · exact ih effect h

/-- Settings that differ in the output files at most. -/
def Settings.AlikeBesidesOutput (old new : Settings) : Prop :=
  { old with output := new.output } = new

/-- The comparison field by field forgets no field: the catalog is built anew exactly if something but the output files
is different. -/
theorem SettingsChange.needsRebuild_iff {old new : Settings} :
    (between old new).needsRebuild = true ↔ ¬old.AlikeBesidesOutput new := by
  rw [← not_iff_not, Bool.not_eq_true, not_not]
  unfold Settings.AlikeBesidesOutput
  cases old
  cases new
  simp [between, and_assoc]

namespace Session

/-- What publishing does. -/
@[simp] theorem publish_effects (session : Session) :
    session.publish.effects = Effect.publication session.catalog := rfl

/-! ## Reading the pending files -/

section

variable (world : Surroundings) (draining : Draining) (file : Path)

/-- A pending file is read once. All else that its drain does are asides. -/
theorem drainFile_effects :
    ∃ asides, (drainFile world draining file).effects = .read file (world.read file) :: asides
      ∧ ∀ effect ∈ asides, effect.IsAside := by
  unfold drainFile
  rw [Turn.effects_bind]
  refine ⟨_, rfl, ?_⟩
  cases (world.read file).result with
  | ok text =>
    unfold absorb
    simp only
    split
    · simp
    · cases functionsOf file text with
      | error failure => simpa using Turn.report_asides failure
      | ok functions =>
        cases htaken : (settle draining file).session.catalogWith? file functions text <;> simp [htaken]
  | error fault =>
    cases hverdict : fault.verdict with
    | missing => simp [hverdict]
    | undecodable => simpa [hverdict] using Turn.report_asides (.unreadable file fault)
    | transient =>
      simp only [hverdict, postpone]
      split
      · simpa using Turn.report_asides _
      · simp

/-- A drain reads its files in order. All else that it does before it publishes are asides. -/
theorem foldlM_drainFile_effects (files : List Path) :
    (∀ effect ∈ (files.foldlM (drainFile world) draining).effects,
        effect.IsAside ∨ ∃ file ∈ files, effect = .read file (world.read file))
      ∧ ∀ file ∈ files, .read file (world.read file) ∈ (files.foldlM (drainFile world) draining).effects := by
  induction files generalizing draining with
  | nil => simp
  | cons first rest ih =>
    obtain ⟨asides, heffects, hasides⟩ := drainFile_effects world draining first
    obtain ⟨hall, hreads⟩ := ih (drainFile world draining first).value
    rw [List.foldlM_cons, Turn.effects_bind, heffects]
    constructor
    · intro effect heffect
      rcases List.mem_append.mp heffect with h | h
      · rcases List.mem_cons.mp h with rfl | haside
        · exact .inr ⟨first, List.mem_cons_self, rfl⟩
        · exact .inl (hasides effect haside)
      · rcases hall effect h with haside | ⟨file, hfile, heq⟩
        · exact .inl haside
        · exact .inr ⟨file, List.mem_cons_of_mem _ hfile, heq⟩
    · intro file hfile
      rcases List.mem_cons.mp hfile with rfl | hrest
      · exact List.mem_append_left _ List.mem_cons_self
      · exact List.mem_append_right _ (hreads file hrest)

end

/-- A drain reads the pending files, publishes the catalog if one of them has changed it, and sets the
time of the next try. -/
theorem drain_eq (world : Surroundings) (now : Nat) (session : Session) :
    ∃ read : Turn Draining,
      read = session.pending.paths.foldlM (drainFile world) ⟨{ session with drainDue := none }, false⟩
        ∧ session.drain world now = ⟨read.value.session.scheduleRetry now,
          read.effects ++ if read.value.changed then Effect.publication read.value.session.catalog else []⟩ := by
  refine ⟨_, rfl, ?_⟩
  unfold drain
  simp only [bind, pure]
  split <;> simp

/-! ## Scanning the root -/

/-- The outcomes of a scan of the root, each with what it does. -/
inductive RootScanned (world : Surroundings) (now : Nat) (before : Session) :
    Turn (Session × Except Failure RebuildReport) → Prop where
  | scanned {scan : ScanReport} {reports : List Effect}
      (found : Scan.directory world before.root before.catalog = .ok scan)
      (asides : ∀ effect ∈ reports, effect.IsAside) :
      RootScanned world now before
        ⟨({ before with
            catalog := scan.catalog
            pending := pendingAfter scan.failures
            drainDue := none
            rescanDue := none }.scheduleRetry now, .ok ⟨scan.catalog.size, scan.failures⟩),
          scan.readings.map (fun entry => .read entry.1 entry.2) ++ reports
            ++ Effect.publication scan.catalog⟩
  /-- There was a catalog, and its root is gone. -/
  | emptied {failure : Failure} (lost : Scan.directory world before.root before.catalog = .error failure)
      (some : before.catalog.isEmpty = false) :
      RootScanned world now before
        ⟨({ before with catalog := .empty, rescanDue := none }, .error failure),
          Effect.publication .empty ++ [.emit (.fault failure.message)]⟩
  | failed {failure : Failure} (lost : Scan.directory world before.root before.catalog = .error failure) :
      RootScanned world now before
        ⟨({ before with rescanDue := none }, .error failure), [.emit (.fault failure.message)]⟩

/-- Setting the time of the next try does not change the catalog. -/
@[simp] theorem scheduleRetry_catalog (session : Session) (now : Nat) :
    (session.scheduleRetry now).catalog = session.catalog := by
  unfold scheduleRetry
  split <;> rfl

/-- Setting the time of the next try marks and unmarks nothing. -/
@[simp] theorem scheduleRetry_pending (session : Session) (now : Nat) :
    (session.scheduleRetry now).pending = session.pending := by
  unfold scheduleRetry
  split <;> rfl

/-- Setting the time of the next try does not move the root. -/
@[simp] theorem scheduleRetry_root (session : Session) (now : Nat) :
    (session.scheduleRetry now).root = session.root := by
  unfold scheduleRetry
  split <;> rfl

/-- A scan that succeeds is taken over as it is. -/
theorem rebuild_eq_of_ok {world : Surroundings} {session : Session} {scan : ScanReport} (now : Nat)
    (h : Scan.directory world session.root session.catalog = .ok scan) :
    session.rebuild world now =
      ⟨({ session with
          catalog := scan.catalog
          pending := pendingAfter scan.failures
          drainDue := none
          rescanDue := none }.scheduleRetry now, .ok ⟨scan.catalog.size, scan.failures⟩),
        scan.readings.map (fun entry => .read entry.1 entry.2) ++ ((reportedOf scan.failures).forM Turn.report).effects
          ++ Effect.publication scan.catalog⟩ := by
  unfold rebuild
  simp only [h, adopt, bind, pure, Turn.performAll, publish_effects, publish_value, scheduleRetry_catalog]
  simp

/-- A scan of the root has one of the outcomes. -/
theorem rebuild_scanned (world : Surroundings) (now : Nat) (session : Session) :
    RootScanned world now session (session.rebuild world now) := by
  cases hscan : Scan.directory world session.root session.catalog with
  | error failure =>
    unfold rebuild
    cases failure with
    | directoryMissing directory =>
      cases hempty : session.catalog.isEmpty with
      | true =>
        simp only [hscan, lose, hempty]
        exact .failed hscan
      | false =>
        simp only [hscan, lose, hempty]
        exact .emptied hscan hempty
    | _ =>
      simp only [hscan, lose]
      exact .failed hscan
  | ok scan =>
    rw [rebuild_eq_of_ok now hscan]
    exact .scanned hscan (Turn.forM_report_asides (reportedOf scan.failures))

/-! ## Loading the settings -/

/-- The session that scans its root because of new settings: it has moved to the root that they give, with nothing
pending, or it is where it was. -/
def underSettings (world : Surroundings) (before : Session) (settings : Settings) : Session :=
  if before.settings.declarationPath = settings.declarationPath then { before with settings := settings }
  else { before with
    settings := settings
    root := resolveRoot world before.base settings
    pending := .empty
    drainDue := none }

/-- A session under new settings has these settings. -/
@[simp] theorem underSettings_settings (world : Surroundings) (session : Session) (settings : Settings) :
    (session.underSettings world settings).settings = settings := by
  unfold underSettings
  split <;> rfl

/-- New settings alone leave the modules as they are. -/
@[simp] theorem underSettings_catalog (world : Surroundings) (session : Session) (settings : Settings) :
    (session.underSettings world settings).catalog = session.catalog := by
  unfold underSettings
  split <;> rfl

/-- The outcomes of putting settings in effect, each with what it does. -/
inductive SettingsApplied (world : Surroundings) (now : Nat) (before : Session) (settings : Settings) :
    Turn Session → Prop where
  | same (alike : (SettingsChange.between before.settings settings).needsRebuild = false) :
      SettingsApplied world now before settings ⟨before, []⟩
  | announced {told : List Effect} (asides : ∀ effect ∈ told, effect.IsAside)
      (here : before.settings.declarationPath = settings.declarationPath)
      (alike : (SettingsChange.between before.settings settings).needsRebuild = false) :
      SettingsApplied world now before settings
        ⟨{ before with settings := settings }, .publishSettings settings :: told⟩
  | rebuilt {told : List Effect} (asides : ∀ effect ∈ told, effect.IsAside)
      (moved : before.settings.declarationPath ≠ settings.declarationPath → ∃ root, .watch root ∈ told)
      (different : (SettingsChange.between before.settings settings).needsRebuild = true) :
      SettingsApplied world now before settings
        ⟨((before.underSettings world settings).rebuild world now).value.1,
          .publishSettings settings :: told
            ++ ((before.underSettings world settings).rebuild world now).effects⟩

/-- Pointing the watch at the root is an aside. -/
theorem watchRoot_asides (world : Surroundings) (session : Session) :
    .watch session.root ∈ (session.watchRoot world).effects
      ∧ ∀ effect ∈ (session.watchRoot world).effects, effect.IsAside := by
  unfold watchRoot
  cases world.watchFault session.root with
  | none => simp [Turn.perform, Effect.IsAside]
  | some failure => simp [Turn.perform, Turn.fault, Turn.emit, Effect.IsAside]

/-- What is done under new settings once the output files were announced. -/
def adjust (world : Surroundings) (now : Nat) (before : Session) (settings : Settings) : Turn Session := do
  let change := SettingsChange.between before.settings settings
  let session := { before with settings := settings }
  let session ← if change.declarationPathMoved then session.moveRoot world else pure session
  Turn.emit (.settingsReloaded change.needsRebuild)
  if change.needsRebuild then
    let (session, _) ← session.rebuild world now
    return session
  else
    return session

/-- Settings that ask for nothing leave the session as it is. Any others are published first; then comes what is told
aside, and then the scan that they ask for. -/
theorem applySettings_announces (world : Surroundings) (now : Nat) (session : Session) (settings : Settings) :
    (session.applySettings world now settings = ⟨session, []⟩
        ∧ (SettingsChange.between session.settings settings).needsRebuild = false)
      ∨ ∃ told, (∀ effect ∈ told, effect.IsAside) ∧ session.applySettings world now settings =
          ⟨(session.adjust world now settings).value,
            .publishSettings settings :: (told ++ (session.adjust world now settings).effects)⟩ := by
  unfold applySettings
  dsimp only
  split
  · next hempty =>
    simp only [SettingsChange.isEmpty, Bool.and_eq_true, Bool.not_eq_true'] at hempty
    exact .inl ⟨rfl, hempty.2⟩
  · right
    split <;> split
    · exact ⟨[.emit (.classMoved _), .emit (.interfaceMoved _)], by simp [Effect.IsAside], rfl⟩
    · exact ⟨[.emit (.classMoved _)], by simp [Effect.IsAside], rfl⟩
    · exact ⟨[.emit (.interfaceMoved _)], by simp [Effect.IsAside], rfl⟩
    · exact ⟨[], by simp, rfl⟩

/-- A move of the root asks for a scan. -/
theorem needsRebuild_of_moved {old new : Settings} (h : old.declarationPath ≠ new.declarationPath) :
    (SettingsChange.between old new).needsRebuild = true := by
  rw [SettingsChange.needsRebuild_iff]
  intro halike
  have hpath := congrArg Settings.declarationPath halike
  exact h hpath

/-- Putting settings in effect has one of the outcomes. -/
theorem applySettings_applied (world : Surroundings) (now : Nat) (session : Session) (settings : Settings) :
    SettingsApplied world now session settings (session.applySettings world now settings) := by
  rcases applySettings_announces world now session settings with ⟨hsame, halike⟩ | ⟨told, hasides, hturn⟩
  · rw [hsame]
    exact .same halike
  · have hsettled : ∀ reload, Effect.IsAside (.emit (.settingsReloaded reload)) := fun _ => trivial
    rw [hturn]
    by_cases hpath : session.settings.declarationPath = settings.declarationPath
    · have hmoved : (SettingsChange.between session.settings settings).declarationPathMoved = false :=
        bne_eq_false_iff_eq.mpr hpath
      have hunder : session.underSettings world settings = { session with settings := settings } := if_pos hpath
      cases hneeds : (SettingsChange.between session.settings settings).needsRebuild with
      | true =>
        have houtcome := @SettingsApplied.rebuilt world now session settings
          (told ++ [.emit (.settingsReloaded true)])
          (by simpa [or_imp, forall_and, hsettled] using hasides) (fun h => absurd hpath h) hneeds
        convert houtcome using 2
        · simp [adjust, hmoved, hneeds, hunder]
        · simp [adjust, hmoved, hneeds, hunder, Turn.emit, Turn.perform]
      | false =>
        have houtcome := @SettingsApplied.announced world now session settings
          (told ++ [.emit (.settingsReloaded false)])
          (by simpa [or_imp, forall_and, hsettled] using hasides) hpath hneeds
        convert houtcome using 2
        · simp [adjust, hmoved, hneeds]
        · simp [adjust, hmoved, hneeds, Turn.emit, Turn.perform]
    · have hmoved : (SettingsChange.between session.settings settings).declarationPathMoved = true :=
        bne_iff_ne.mpr hpath
      have hneeds := needsRebuild_of_moved hpath
      have hunder : session.underSettings world settings = { session with
          settings := settings
          root := resolveRoot world session.base settings
          pending := .empty
          drainDue := none } := if_neg hpath
      obtain ⟨hwatch, hwatchAsides⟩ := watchRoot_asides world (session.underSettings world settings)
      have houtcome := @SettingsApplied.rebuilt world now session settings
        (told ++ ((session.underSettings world settings).watchRoot world).effects
          ++ [.emit (.settingsReloaded true)])
        (by simpa [or_imp, forall_and, hsettled] using ⟨hasides, hwatchAsides⟩)
        (fun _ => ⟨(session.underSettings world settings).root, by simp [hwatch]⟩) hneeds
      convert houtcome using 2
      · simp [adjust, moveRoot, hmoved, hneeds, hunder]
      · simp [adjust, moveRoot, hmoved, hneeds, hunder, Turn.emit, Turn.perform]

/-- The outcomes of reading the settings file, each with what it does. -/
inductive SettingsLoaded (world : Surroundings) (now : Nat) (before : Session) (attempts : Nat) :
    Turn Session → Prop where
  | applied {settings : Settings} {turn : Turn Session}
      (outcome : SettingsApplied world now { before with reload := none } settings turn) :
      SettingsLoaded world now before attempts
        ⟨turn.value, .read before.settingsFile (world.read before.settingsFile) :: turn.effects⟩
  /-- The file is not text or not understood, or it was given up. -/
  | refused {told : List Effect} (asides : ∀ effect ∈ told, effect.IsAside) :
      SettingsLoaded world now before attempts
        ⟨{ before with reload := none }, .read before.settingsFile (world.read before.settingsFile) :: told⟩
  | postponed :
      SettingsLoaded world now before attempts
        ⟨{ before with reload := some ⟨now + before.timing.retry, attempts + 1⟩ },
          [.read before.settingsFile (world.read before.settingsFile)]⟩

/-- Reading the settings file has one of the outcomes. -/
theorem reloadSettings_loaded (world : Surroundings) (now : Nat) (session : Session) (attempts : Nat) :
    SettingsLoaded world now session attempts (session.reloadSettings world now attempts) := by
  have happlied := fun settings =>
    applySettings_applied world now { session with reload := none } settings
  have hrefused : ∀ failure : Failure, SettingsLoaded world now session attempts
      ⟨{ session with reload := none },
        .read session.settingsFile (world.read session.settingsFile) :: (Turn.fault failure).effects⟩ :=
    fun failure => .refused (by simp [Turn.fault, Turn.emit, Turn.perform, Effect.IsAside])
  have hfile : ({ session with reload := none } : Session).settingsFile = session.settingsFile := rfl
  unfold reloadSettings
  dsimp only
  rw [hfile]
  cases hreading : (world.read session.settingsFile).result with
  | ok text =>
    cases hload : Settings.load text session.settingsFile with
    | ok loaded =>
      simp only [hload]
      exact .applied (happlied loaded.1)
    | error failure =>
      simp only [hload]
      exact hrefused failure
  | error fault =>
    cases hverdict : fault.verdict with
    | missing =>
      simp only [hverdict]
      exact .applied (happlied .default)
    | undecodable =>
      simp only [hverdict]
      exact hrefused _
    | transient =>
      simp only [hverdict, postponeReload]
      split
      · exact hrefused _
      · exact .postponed

end Session

end TypingsIndex
