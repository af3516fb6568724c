import TypingsIndex.Proofs.Watch.Coverage.Basic
import TypingsIndex.Proofs.Watch.Deadlines

/-!
# Which settings are in effect after a step of work

Only three things change the settings in effect or the time at which they are loaded: the news that the settings file
was touched or is gone, and the reading of the file at a poll. All other work leaves both alone (`KeepsSettings`), and
what a reading does is told by what lies in the file (`Reread`), unless the reading fails in a way that may pass.
-/

set_option autoImplicit false

namespace TypingsIndex

/-- Nothing has changed exactly if the settings are equal. -/
theorem SettingsChange.isEmpty_iff {old new : Settings} : (between old new).isEmpty = true ↔ old = new := by
  constructor
  · intro h
    simp only [isEmpty, Bool.and_eq_true, Bool.not_eq_true'] at h
    obtain ⟨⟨⟨hclass, hinterface⟩, -⟩, hrest⟩ := h
    have houtput : old.output = new.output := by
      cases hold : old.output
      cases hnew : new.output
      simp only [between, bne_eq_false_iff_eq, hold, hnew] at hclass hinterface
      rw [hclass, hinterface]
    have halike : old.AlikeBesidesOutput new := by
      by_contra hdiffer
      rw [needsRebuild_iff.mpr hdiffer] at hrest
      cases hrest
    unfold Settings.AlikeBesidesOutput at halike
    rwa [← houtput] at halike
  · rintro rfl
    simp [isEmpty, between]

namespace Session

/-- Work that leaves alone the settings, the time at which they are loaded, and what is fixed from the start. -/
structure KeepsSettings (before after : Session) : Prop where
  base : after.base = before.base
  timing : after.timing = before.timing
  settings : after.settings = before.settings
  reload : after.reload = before.reload

namespace KeepsSettings

variable {session after last : Session} {world : Surroundings} {now : Nat}

/-- A session keeps its own settings. -/
theorem refl (session : Session) : session.KeepsSettings session :=
  ⟨rfl, rfl, rfl, rfl⟩

/-- Settings that are kept by one step and then by another are kept by both. -/
theorem trans (first : session.KeepsSettings after) (second : after.KeepsSettings last) : session.KeepsSettings last :=
  ⟨second.base.trans first.base, second.timing.trans first.timing, second.settings.trans first.settings,
    second.reload.trans first.reload⟩

/-- A touch keeps the settings and the reload. -/
theorem touch (world : Surroundings) (now : Nat) (session : Session) (path : Path) :
    session.KeepsSettings (session.touch world now path) := by
  have htouched := touch_touched world now session path
  generalize session.touch world now path = after at htouched
  cases htouched <;> exact ⟨rfl, rfl, rfl, rfl⟩

/-- The news of a removal keep the settings and the reload. -/
theorem remove (session : Session) (path : Path) : session.KeepsSettings (session.remove path).value := by
  rw [remove_value]
  exact ⟨rfl, rfl, rfl, rfl⟩

/-- The news of a renaming keep the settings and the reload. -/
theorem rename (world : Surroundings) (now : Nat) (session : Session) (source target : Path) :
    session.KeepsSettings (session.rename world now source target).value := by
  have hrenamed := rename_renamed world now session source target
  generalize session.rename world now source target = turn at hrenamed
  cases hrenamed with
  | ignored => exact refl session
  | rescanned => exact ⟨rfl, rfl, rfl, rfl⟩
  | moved => exact ⟨rfl, rfl, rfl, rfl⟩
  | replaced => exact (remove session source).trans (touch world now _ target)
  | arrived =>
    have herased : session.KeepsSettings { session with pending := session.pending.erase source } :=
      ⟨rfl, rfl, rfl, rfl⟩
    exact herased.trans (touch world now _ target)

/-- A scan keeps the settings and the reload. -/
theorem rebuild (world : Surroundings) (now : Nat) (session : Session) :
    session.KeepsSettings (session.rebuild world now).value.1 := by
  obtain ⟨_, _, _, hvalue, -⟩ := rebuild_frame world now session
  rw [hvalue]
  exact ⟨rfl, rfl, rfl, rfl⟩

/-- The scan of a poll keeps the settings and the reload. -/
theorem rescanIfDue (world : Surroundings) (now : Nat) (session : Session) :
    session.KeepsSettings (session.rescanIfDue world now).value := by
  unfold Session.rescanIfDue
  split
  · exact rebuild world now session
  · exact refl session

/-- The drain of a poll keeps the settings and the reload. -/
theorem drainIfDue (world : Surroundings) (now : Nat) (session : Session) :
    session.KeepsSettings (session.drainIfDue world now).value := by
  unfold Session.drainIfDue
  split
  · obtain ⟨_, _, hvalue⟩ := drain_frame world now session
    rw [hvalue]
    exact ⟨rfl, rfl, rfl, rfl⟩
  · exact refl session

/-- What a poll does after it has looked at the settings. -/
theorem polled (atReload atRescan atDrain : Surroundings) (now : Nat) (session : Session) :
    (session.reloadIfDue atReload now).value.KeepsSettings
      (session.act (.poll atReload atRescan atDrain now)).value :=
  (rescanIfDue atRescan now _).trans (drainIfDue atDrain now _)

/-- News of anything but the settings file. -/
theorem handled (world : Surroundings) (now : Nat) (session : Session) {command : Command}
    (touched : command ≠ .settingsTouched) (removed : command ≠ .settingsRemoved) :
    session.KeepsSettings (session.act (.handle world now command)).value := by
  cases command with
  | touched path => exact touch world now session path
  | removed path =>
    rw [act_removed]
    exact remove session path
  | renamed source target =>
    rw [act_renamed]
    exact rename world now session source target
  | settingsTouched => exact absurd rfl touched
  | settingsRemoved => exact absurd rfl removed
  | rebuild =>
    rw [act_rebuild]
    exact rebuild world now session
  | shutdown => exact refl session

/-- While settings are kept, the settings file stays where it is. -/
theorem settingsFile (keeps : session.KeepsSettings after) : after.settingsFile = session.settingsFile := by
  unfold Session.settingsFile
  rw [keeps.base]

end KeepsSettings

/-! ## New settings -/

/-- What settings ask for once they are in effect keeps them. -/
theorem adjust_keeps (world : Surroundings) (now : Nat) (session : Session) (settings : Settings) :
    { session with settings := settings }.KeepsSettings (session.adjust world now settings).value := by
  have hmove : { session with settings := settings }.KeepsSettings
      (({ session with settings := settings } : Session).moveRoot world).value := ⟨rfl, rfl, rfl, rfl⟩
  unfold adjust
  dsimp only
  cases (SettingsChange.between session.settings settings).declarationPathMoved with
  | true =>
    cases (SettingsChange.between session.settings settings).needsRebuild with
    | true => exact hmove.trans (.rebuild world now _)
    | false => exact hmove
  | false =>
    cases (SettingsChange.between session.settings settings).needsRebuild with
    | true => exact .rebuild world now _
    | false => exact .refl _

/-- Settings that were put in effect are in effect. Nothing else about the settings changes. -/
theorem applySettings_keeps (world : Surroundings) (now : Nat) (session : Session) (settings : Settings) :
    { session with settings := settings }.KeepsSettings (session.applySettings world now settings).value := by
  by_cases hsame : session.settings = settings
  · have hempty := SettingsChange.isEmpty_iff.mpr hsame
    unfold applySettings
    dsimp only
    rw [if_pos hempty]
    exact ⟨rfl, rfl, hsame, rfl⟩
  · have hchanged : ¬ (SettingsChange.between session.settings settings).isEmpty = true :=
      fun h => hsame (SettingsChange.isEmpty_iff.mp h)
    have hvalue : (session.applySettings world now settings).value = (session.adjust world now settings).value := by
      unfold applySettings
      dsimp only
      rw [if_neg hchanged]
      split <;> split <;> rfl
    rw [hvalue]
    exact adjust_keeps world now session settings

/-- What a settings file holds that cannot be put in effect. -/
def Refuses (path : Path) (content : Option Disk.Content) : Prop :=
  content = some .binary
    ∨ ∃ text failure, content = some (.text text) ∧ Settings.load text path = .error failure

/-- What the reading of a settings file comes to: the settings that it holds are in effect, or the default ones if there
is no file; and if they cannot be understood those from before. -/
structure Reread (content : Option Disk.Content) (before after : Session) : Prop where
  base : after.base = before.base
  timing : after.timing = before.timing
  absent : content = none → after.settings = .default
  accepted : ∀ text settings warnings, content = some (.text text) →
    Settings.load text before.settingsFile = .ok (settings, warnings) → after.settings = settings
  refused : Refuses before.settingsFile content → after.settings = before.settings

namespace Reread

variable {before after : Session}

/-- A text that loads puts its settings in effect. -/
theorem of_text {text : String} {settings : Settings} {warnings : List Settings.Warning}
    (loaded : Settings.load text before.settingsFile = .ok (settings, warnings))
    (keeps : { before with reload := none, settings := settings }.KeepsSettings after) :
    Reread (some (.text text)) before after := by
  refine ⟨keeps.base, keeps.timing, nofun, ?_, ?_⟩
  · rintro other asked told hother hasked
    cases hother
    rw [loaded] at hasked
    cases hasked
    exact keeps.settings
  · rintro (hbinary | ⟨other, failure, hother, hfailure⟩)
    · cases hbinary
    · cases hother
      rw [loaded] at hfailure
      cases hfailure

/-- A file that holds what cannot be put in effect leaves the settings as they were. -/
theorem of_refused {content : Option Disk.Content} (refused : Refuses before.settingsFile content) :
    Reread content before { before with reload := none } := by
  refine ⟨rfl, rfl, ?_, ?_, fun _ => rfl⟩
  · rintro rfl
    rcases refused with hbinary | ⟨text, failure, htext, -⟩
    · cases hbinary
    · cases htext
  · rintro text settings warnings rfl hsettings
    rcases refused with hbinary | ⟨other, failure, hother, hfailure⟩
    · cases hbinary
    · cases hother
      rw [hsettings] at hfailure
      cases hfailure

/-- A missing file puts the defaults in effect. -/
theorem of_absent (keeps : { before with reload := none, settings := .default }.KeepsSettings after) :
    Reread none before after := by
  refine ⟨keeps.base, keeps.timing, fun _ => keeps.settings, ?_, ?_⟩
  · intro text settings warnings htext
    cases htext
  · rintro (hbinary | ⟨text, failure, htext, -⟩)
    · cases hbinary
    · cases htext

end Reread

/-- The reading of a settings file that tells its content puts the content in effect. If it fails in a way that may
pass, it will be done again. -/
theorem reloadSettings_reread {world : Surroundings} {session : Session} {content : Option Disk.Content}
    (unlimited : session.timing.maxAttempts = none)
    (tells : (world.read session.settingsFile).Tells (content.map .file)) (now attempts : Nat) :
    (Reread content session (session.reloadSettings world now attempts).value
        ∧ (session.reloadSettings world now attempts).value.reload = none)
      ∨ (∃ due, (session.reloadSettings world now attempts).value = { session with reload := some due })
        ∧ ∃ fault, (world.read session.settingsFile).result = .error fault ∧ fault.verdict = .transient := by
  have hfile : ({ session with reload := none } : Session).settingsFile = session.settingsFile := rfl
  have happlied := fun settings => applySettings_keeps world now { session with reload := none } settings
  unfold reloadSettings
  rw [Turn.value_bind, hfile]
  -- The text or the fault tells what the file holds, so that in each case it is known which settings belong to it.
  cases hreading : (world.read session.settingsFile).result with
  | ok text =>
    have hcontent : content = some (.text text) := by
      obtain ⟨held, hheld, heq⟩ := Option.map_eq_some_iff.mp (tells.of_text hreading)
      rw [hheld, Disk.Node.file.inj heq]
    left
    rw [hcontent]
    cases hload : Settings.load text session.settingsFile with
    | ok loaded =>
      simp only [hload]
      exact ⟨.of_text hload (happlied loaded.1), (happlied loaded.1).reload⟩
    | error failure =>
      simp only [hload]
      exact ⟨.of_refused (.inr ⟨text, failure, rfl, hload⟩), rfl⟩
  | error fault =>
    cases hverdict : fault.verdict with
    | transient =>
      right
      simp only [hverdict, postponeReload, Timing.exhausted, unlimited]
      exact ⟨⟨_, rfl⟩, fault, rfl, hverdict⟩
    | undecodable =>
      have hcontent : content = some .binary := by
        rcases tells.of_fault hreading (by rw [hverdict]; decide) with ⟨-, hnode⟩ | ⟨hmissing, -⟩
        · obtain ⟨held, hheld, heq⟩ := Option.map_eq_some_iff.mp hnode
          rw [hheld, Disk.Node.file.inj heq]
        · rw [hverdict] at hmissing
          cases hmissing
      left
      simp only [hverdict]
      exact ⟨.of_refused (.inl hcontent), rfl⟩
    | missing =>
      have hcontent : content = none := by
        rcases tells.of_fault hreading (by rw [hverdict]; decide) with ⟨hundecodable, -⟩ | ⟨-, hnone⟩
        · rw [hverdict] at hundecodable
          cases hundecodable
        · cases content with
          | none => rfl
          | some held => exact absurd rfl (hnone held)
      left
      simp only [hverdict]
      rw [hcontent]
      exact ⟨.of_absent (happlied .default), (happlied .default).reload⟩

/-! ## A poll -/

/-- After a reload was asked for, one is due. -/
theorem requestReload_due (now : Nat) (session : Session) : (session.requestReload now).reload.isSome = true := by
  unfold requestReload
  cases session.reload <;> rfl

/-- What was read of the settings file stays in effect while settings are kept. -/
theorem Reread.keeps {content : Option Disk.Content} {before loaded after : Session}
    (reread : Reread content before loaded) (keeps : loaded.KeepsSettings after) : Reread content before after := by
  refine ⟨?_, ?_, ?_, ?_, ?_⟩
  · rw [keeps.base, reread.base]
  · rw [keeps.timing, reread.timing]
  · intro habsent
    rw [keeps.settings]
    exact reread.absent habsent
  · intro text settings warnings htext hloaded
    rw [keeps.settings]
    exact reread.accepted text settings warnings htext hloaded
  · intro hrefused
    rw [keeps.settings]
    exact reread.refused hrefused

section

variable {session : Session} (atReload atRescan atDrain : Surroundings) (now : Nat)

/-- A poll at which the settings are not due leaves them alone. -/
theorem poll_early (early : ∀ reload, session.reload = some reload → ¬ reload.due ≤ now) :
    session.KeepsSettings (session.act (.poll atReload atRescan atDrain now)).value := by
  have hreload : (session.reloadIfDue atReload now).value = session := by
    unfold reloadIfDue
    split
    · next reload hsome => rw [if_neg (early reload hsome), Turn.value_pure]
    · rfl
  have hpolled := KeepsSettings.polled atReload atRescan atDrain now session
  rwa [hreload] at hpolled

/-- A poll at which a reload is due loads the settings file, and keeps the settings from then on. -/
theorem poll_due {reload : Reload} (hsome : session.reload = some reload) (due : reload.due ≤ now) :
    (session.reloadSettings atReload now reload.attempts).value.KeepsSettings
      (session.act (.poll atReload atRescan atDrain now)).value := by
  have hreload : session.reloadIfDue atReload now = session.reloadSettings atReload now reload.attempts := by
    unfold reloadIfDue
    rw [hsome]
    exact if_pos due
  have hpolled := KeepsSettings.polled atReload atRescan atDrain now session
  rwa [hreload] at hpolled

/-- With no limit of attempts, a reading that fails in a way that may pass leaves the settings to be loaded. -/
theorem reloadSettings_again {fault : ReadFault} (unlimited : session.timing.maxAttempts = none)
    (reading : (atReload.read session.settingsFile).result = .error fault) (transient : fault.verdict = .transient)
    (attempts : Nat) :
    (session.reloadSettings atReload now attempts).value =
      { session with reload := some ⟨now + session.timing.retry, attempts + 1⟩ } := by
  have hfile : ({ session with reload := none } : Session).settingsFile = session.settingsFile := rfl
  unfold reloadSettings
  rw [Turn.value_bind, hfile, reading]
  simp only [transient, postponeReload, Timing.exhausted, unlimited]
  rfl

end

end Session

end TypingsIndex
