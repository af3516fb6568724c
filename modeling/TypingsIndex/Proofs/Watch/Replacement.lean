import TypingsIndex.Disk.Operations
import TypingsIndex.Proofs.Scan.Accounts
import TypingsIndex.Proofs.Watch.Publication
import TypingsIndex.Proofs.Watch.SettingsInEffect

/-!
# What it means to put settings in effect

Settings that are in effect already change nothing and are told to nobody. Any others take effect and are published,
and followers hear of them in one order (`SettingsReplaced`): the output files that have moved, that the settings were
loaded and whether the catalog is built anew, and then what the one scan has to tell, if there is one. There is one
exactly if something but the output files is different.

The declaration root is looked up again only if the declaration path is different. A scan for any other reason takes
the root from before, even where the same path would lead elsewhere by now (`rescan_takes_root_in_effect`): the
settings say where the declarations are, and a path that has not changed is not a move.
-/

set_option autoImplicit false

namespace TypingsIndex.Session

/-- What followers are told of output files that have moved. -/
def outputMoves (old new : Settings) : List Event :=
  (if old.output.classFile ≠ new.output.classFile then [.classMoved new.output.classFile] else [])
    ++ (if old.output.interfaceFile ≠ new.output.interfaceFile then [.interfaceMoved new.output.interfaceFile] else [])

/-- What is done to watch another root, with what followers are told if it cannot be watched. -/
def rootMove (world : Surroundings) (root : Path) : List Effect :=
  .watch root :: ((world.watchFault root).toList.map fun failure => Event.fault failure.message).map .emit

/-- What a session does that puts other settings in effect. -/
structure SettingsReplaced (world : Surroundings) (now : Nat) (before : Session) (settings : Settings)
    (turn : Turn Session) : Prop where
  inEffect : turn.value.settings = settings
  published : (before.shown.after turn.effects).settings = settings
  /-- If something but the output files is different, one scan ends the work. -/
  rebuilt : ¬before.settings.AlikeBesidesOutput settings →
    turn.value = ((before.underSettings world settings).rebuild world now).value.1
      ∧ turn.effects = .publishSettings settings ::
        ((outputMoves before.settings settings).map .emit
          ++ (if before.settings.declarationPath = settings.declarationPath then []
            else rootMove world (resolveRoot world before.base settings))
          ++ [.emit (.settingsReloaded true)]
          ++ ((before.underSettings world settings).rebuild world now).effects)
  /-- If only output files are, the settings are all that changes, and nothing is read or watched. -/
  announced : before.settings.AlikeBesidesOutput settings →
    turn.value = { before with settings := settings }
      ∧ turn.effects = .publishSettings settings ::
        ((outputMoves before.settings settings).map .emit ++ [.emit (.settingsReloaded false)])
  /-- The watch is pointed at the root of the settings exactly if the declaration path is different. -/
  watched : turn.effects.filterMap Effect.watched? =
    if before.settings.declarationPath = settings.declarationPath then []
    else [resolveRoot world before.base settings]
  /-- A scan is made at the root of the settings if the declaration path is different, or else at the root in effect. -/
  root : (before.underSettings world settings).root =
    if before.settings.declarationPath = settings.declarationPath then before.root
    else resolveRoot world before.base settings

variable (world : Surroundings) (now : Nat) (session : Session) (settings : Settings)

/-- To tell something points no watch anywhere. -/
theorem watched_emitted (events : List Event) : (events.map Effect.emit).filterMap Effect.watched? = [] := by
  rw [List.filterMap_map]
  exact List.filterMap_eq_nil_iff.mpr fun _ _ => rfl

/-- Watching a root is told in full. -/
theorem watchRoot_effects : (session.watchRoot world).effects = rootMove world session.root := by
  unfold watchRoot rootMove
  cases world.watchFault session.root <;> rfl

/-- Putting other settings in effect begins with their publication and the output files that have moved. -/
theorem applySettings_adjusts (changed : session.settings ≠ settings) :
    session.applySettings world now settings =
      ⟨(session.adjust world now settings).value,
        .publishSettings settings ::
          ((outputMoves session.settings settings).map .emit ++ (session.adjust world now settings).effects)⟩ := by
  have hchanged : ¬ (SettingsChange.between session.settings settings).isEmpty = true :=
    fun h => changed (SettingsChange.isEmpty_iff.mp h)
  unfold applySettings outputMoves
  dsimp only
  rw [if_neg hchanged]
  by_cases hclass : session.settings.output.classFile = settings.output.classFile <;>
    by_cases hinterface : session.settings.output.interfaceFile = settings.output.interfaceFile <;>
    simp [SettingsChange.between, hclass, hinterface, adjust, Turn.emit, Turn.perform, bind, pure]

variable {settings} in
/-- Settings that differ in the output files at most do not move the root. -/
theorem declarationPath_of_alike (alike : session.settings.AlikeBesidesOutput settings) :
    session.settings.declarationPath = settings.declarationPath := by
  have hpath := congrArg Settings.declarationPath alike
  exact hpath

variable {settings} in
/-- With other output files only, nothing is left to do. -/
theorem adjust_of_alike (alike : session.settings.AlikeBesidesOutput settings) :
    session.adjust world now settings =
      ⟨{ session with settings := settings }, [.emit (.settingsReloaded false)]⟩ := by
  have hneeds : (SettingsChange.between session.settings settings).needsRebuild = false := by
    rw [← Bool.not_eq_true, SettingsChange.needsRebuild_iff, not_not]
    exact alike
  have hmoved : (SettingsChange.between session.settings settings).declarationPathMoved = false :=
    bne_eq_false_iff_eq.mpr (declarationPath_of_alike session alike)
  unfold adjust
  dsimp only
  rw [hneeds, hmoved]
  rfl

variable {settings} in
/-- With anything else different, the root moves if it has to and is scanned. -/
theorem adjust_of_different (different : ¬session.settings.AlikeBesidesOutput settings) :
    session.adjust world now settings =
      ⟨((session.underSettings world settings).rebuild world now).value.1,
        (if session.settings.declarationPath = settings.declarationPath then []
          else rootMove world (resolveRoot world session.base settings))
          ++ [.emit (.settingsReloaded true)]
          ++ ((session.underSettings world settings).rebuild world now).effects⟩ := by
  have hneeds : (SettingsChange.between session.settings settings).needsRebuild = true :=
    SettingsChange.needsRebuild_iff.mpr different
  unfold adjust underSettings
  dsimp only
  rw [hneeds]
  by_cases hpath : session.settings.declarationPath = settings.declarationPath
  · have hmoved : (SettingsChange.between session.settings settings).declarationPathMoved = false :=
      bne_eq_false_iff_eq.mpr hpath
    rw [hmoved, if_pos hpath, if_pos hpath]
    simp [Turn.emit, Turn.perform, bind, pure]
  · have hmoved : (SettingsChange.between session.settings settings).declarationPathMoved = true :=
      bne_iff_ne.mpr hpath
    have hwatch := watchRoot_effects world
      { session with
        settings := settings
        root := resolveRoot world session.base settings
        pending := .empty
        drainDue := none }
    rw [hmoved, if_neg hpath, if_neg hpath]
    simp [moveRoot, hwatch, Turn.emit, Turn.perform, bind, pure]

/-- Nothing of a scan of the root points the watch elsewhere. -/
theorem rebuild_watched : (session.rebuild world now).effects.filterMap Effect.watched? = [] := by
  cases hscan : Scan.directory world session.root session.catalog with
  | ok scan =>
    have hreports : ((reportedOf scan.failures).forM Turn.report).effects.filterMap Effect.watched? = [] := by
      have hemitted := watched_emitted ((reportedOf scan.failures).map Failure.event)
      rw [List.map_map] at hemitted
      rw [Turn.forM_report_effects]
      exact hemitted
    have hreads : (scan.readings.map fun entry => Effect.read entry.1 entry.2).filterMap Effect.watched? = [] := by
      rw [List.filterMap_map]
      exact List.filterMap_eq_nil_iff.mpr fun _ _ => rfl
    rw [rebuild_eq_of_ok now hscan]
    simp only [List.filterMap_append, hreads, hreports]
    rfl
  | error failure =>
    have hscanned := rebuild_scanned world now session
    generalize session.rebuild world now = turn at hscanned
    cases hscanned with
    | scanned found =>
      rw [hscan] at found
      cases found
    | emptied => rfl
    | failed => rfl

variable {settings} in
/-- Settings other than those in effect are put in effect and told in order. -/
theorem applySettings_replaced (changed : settings ≠ session.settings) :
    SettingsReplaced world now session settings (session.applySettings world now settings) := by
  have hturn := applySettings_adjusts world now session settings changed.symm
  have hroot : (session.underSettings world settings).root =
      if session.settings.declarationPath = settings.declarationPath then session.root
      else resolveRoot world session.base settings := by
    unfold underSettings
    split <;> rfl
  have hkeeps := applySettings_keeps world now session settings
  have hrelays := applied_relays (applySettings_applied world now session settings)
  refine ⟨hkeeps.settings, ?_, fun different => ?_, fun alike => ?_, ?_, hroot⟩
  · rw [hrelays.after_eq]
    exact hkeeps.settings
  · rw [hturn, adjust_of_different world now session different]
    simp only [List.append_assoc, and_self]
  · rw [hturn, adjust_of_alike world now session alike]
    exact ⟨rfl, rfl⟩
  · rw [hturn]
    by_cases halike : session.settings.AlikeBesidesOutput settings
    · rw [adjust_of_alike world now session halike, if_pos (declarationPath_of_alike session halike)]
      simp only [List.filterMap_cons, List.filterMap_append, watched_emitted]
      rfl
    · rw [adjust_of_different world now session halike]
      by_cases hpath : session.settings.declarationPath = settings.declarationPath
      · rw [if_pos hpath, if_pos hpath]
        simp only [List.filterMap_cons, List.filterMap_append, watched_emitted, rebuild_watched]
        rfl
      · rw [if_neg hpath, if_neg hpath]
        simp only [rootMove, List.filterMap_cons, List.filterMap_append, watched_emitted, rebuild_watched]
        rfl

/-- What putting settings in effect comes to, for every session and all settings. Nothing changes and nothing is done
exactly if they are in effect already. Any others are in effect and published afterwards; followers are told of the
output files that have moved, then that the settings were loaded, and if something but the output files is different,
the rest is one scan, at the root of the new settings if the declaration path is different and at the root in effect
if it is not. If only output files are different, the settings are all that changes. -/
theorem settings_replaced :
    (session.applySettings world now settings = ⟨session, []⟩ ↔ settings = session.settings)
      ∧ (settings ≠ session.settings →
          SettingsReplaced world now session settings (session.applySettings world now settings)) := by
  refine ⟨⟨fun hturn => ?_, fun hsame => ?_⟩, applySettings_replaced world now session⟩
  · by_contra hchanged
    rw [applySettings_adjusts world now session settings (Ne.symm hchanged), Turn.mk.injEq] at hturn
    cases hturn.2
  · have hempty : (SettingsChange.between session.settings settings).isEmpty = true :=
      SettingsChange.isEmpty_iff.mpr hsame.symm
    unfold applySettings
    dsimp only
    rw [if_pos hempty]
    rfl

/-- Settings with another declaration path and another output file are put in effect while a file is pending. The mark
is gone, followers hear of the output file and of the settings, and then of the modules below the new root. -/
theorem settings_replaced_moved :
    let disk : Disk :=
      ⟨[(["w"], .directory), (["w", "types"], .directory), (["w", "types", "a.d.ts"], .file (.text ""))], ["w"]⟩
    let world := disk.undisturbed
    let session := ((Session.start world ⟨"/w"⟩ .default {}).run [.handle world 0 (.touched ⟨"/w/b.d.ts"⟩)]).value
    let settings : Settings := { declarationPath := "types", output := { classFile := "Modules.cs" } }
    let turn := session.applySettings world 100 settings
    session.pending.paths = [⟨"/w/b.d.ts"⟩]
      ∧ settings ≠ session.settings
      ∧ ¬session.settings.AlikeBesidesOutput settings
      ∧ turn.value.settings = settings
      ∧ turn.value.root = ⟨"/w/types"⟩
      ∧ turn.value.pending.paths = []
      ∧ turn.value.catalog.modules.map Module.file = [⟨"/w/types/a.d.ts"⟩]
      ∧ turn.effects.filterMap Effect.watched? = [⟨"/w/types"⟩] := by
  intro disk world session settings turn
  have hpending : session.pending.paths = [⟨"/w/b.d.ts"⟩] := by decide +kernel
  have hchanged : settings ≠ session.settings := by decide +kernel
  have hdifferent : ¬session.settings.AlikeBesidesOutput settings := by
    unfold Settings.AlikeBesidesOutput
    decide +kernel
  have hreplaced := (settings_replaced world 100 session settings).2 hchanged
  have hpath : ¬session.settings.declarationPath = settings.declarationPath := by decide +kernel
  have hroot : resolveRoot world session.base settings = ⟨"/w/types"⟩ := by decide +kernel
  have hwatched := hreplaced.watched
  rw [if_neg hpath, hroot] at hwatched
  refine ⟨hpending, hchanged, hdifferent, hreplaced.inEffect, ?_, ?_, ?_, hwatched⟩
  · decide +kernel
  · decide +kernel
  · decide +kernel

/-- The declaration path leads through a link to a directory that is missing when the session takes it up, so that the
root is kept as it is spelled, and that exists when other settings with the same declaration path are put in effect.
The scan takes the root in effect; at the root that the new settings give by now, its modules would be others. -/
theorem rescan_takes_root_in_effect :
    let before : Disk := ⟨[(["w"], .directory), (["w", "link"], .link "/w/real"), (["w", "real"], .directory)], ["w"]⟩
    let after : Disk := ⟨[(["w"], .directory), (["w", "link"], .link "/w/real"), (["w", "real"], .directory),
      (["w", "real", "types"], .directory), (["w", "real", "types", "a.d.ts"], .file (.text ""))], ["w"]⟩
    let world := after.undisturbed
    let old : Settings := { declarationPath := "link/types" }
    let new : Settings := { declarationPath := "link/types", preloadAllName := "LoadAll" }
    let session := Session.start before.undisturbed ⟨"/w"⟩ old {}
    let files := fun effects => (Effect.told effects).map fun catalog => catalog.modules.map Module.file
    let resolved : Session := { session with settings := new, root := resolveRoot world session.base new }
    ¬session.settings.AlikeBesidesOutput new
      ∧ resolved.root = ⟨"/w/real/types"⟩
      ∧ files (session.applySettings world 500 new).effects = [[⟨"/w/link/types/a.d.ts"⟩]]
      ∧ files (resolved.rebuild world 500).effects = [[⟨"/w/real/types/a.d.ts"⟩]] := by
  intro before after world old new session files resolved
  refine ⟨?_, ?_, ?_, ?_⟩
  · unfold Settings.AlikeBesidesOutput
    decide +kernel
  · decide +kernel
  · decide +kernel
  · decide +kernel

end TypingsIndex.Session
