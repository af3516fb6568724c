import TypingsIndex.Proofs.Scan.Listed
import TypingsIndex.Proofs.Watch.OneFile

/-!
# The parts of a run

A poll looks after three things, the settings, the scan and the pending files, one after the other. What is counted
between any two steps of work has to be right in the middle of a poll as well, so that runs are told here by their
parts: a command that is handled, or one of the three things that a poll looks after. The deeds of a run come to the
same as their parts.
-/

set_option autoImplicit false

namespace TypingsIndex.Session

/-- A step of work at a time, with the three things that a poll looks after apart. -/
inductive Part where
  | handle (world : Surroundings) (now : Nat) (command : Command)
  | reload (world : Surroundings) (now : Nat)
  | rescan (world : Surroundings) (now : Nat)
  | drain (world : Surroundings) (now : Nat)

/-- Do a step of work. -/
def work (session : Session) : Part → Turn Session
  | .handle world now command => Handled.session <$> session.handle world now command
  | .reload world now => session.reloadIfDue world now
  | .rescan world now => session.rescanIfDue world now
  | .drain world now => session.drainIfDue world now

/-- Do steps of work one after the other. -/
def workAll (session : Session) (parts : List Part) : Turn Session :=
  parts.foldlM work session

/-- The parts of a deed. -/
def Deed.parts : Deed → List Part
  | .handle world now command => [.handle world now command]
  | .poll atReload atRescan atDrain now => [.reload atReload now, .rescan atRescan now, .drain atDrain now]

section

variable (session : Session)

/-- To handle a command is a step of work and a deed. -/
theorem work_handle (world : Surroundings) (now : Nat) (command : Command) :
    session.work (.handle world now command) = session.act (.handle world now command) := rfl

/-- The first step of work is done, and then the others. -/
theorem workAll_cons (part : Part) (rest : List Part) :
    session.workAll (part :: rest) = session.work part >>= fun next => next.workAll rest :=
  List.foldlM_cons

/-- Some steps of work are done, and then more. -/
theorem workAll_append (parts more : List Part) :
    session.workAll (parts ++ more) = session.workAll parts >>= fun next => next.workAll more :=
  List.foldlM_append

/-- A deed is done part by part. -/
theorem act_eq_workAll (deed : Deed) : session.act deed = session.workAll deed.parts := by
  cases deed with
  | handle world now command =>
    unfold Deed.parts
    rw [workAll_cons]
    exact (bind_pure _).symm
  | poll atReload atRescan atDrain now =>
    unfold Deed.parts
    rw [workAll_cons, act_poll, pollIn]
    refine bind_congr fun reloaded => ?_
    rw [workAll_cons]
    refine bind_congr fun rescanned => ?_
    rw [workAll_cons]
    exact (bind_pure _).symm

/-- The deeds of a run come to the same as their parts. -/
theorem run_eq_workAll (deeds : List Deed) : session.run deeds = session.workAll (deeds.flatMap Deed.parts) := by
  induction deeds generalizing session with
  | nil => rfl
  | cons deed rest ih =>
    rw [run_cons, List.flatMap_cons, workAll_append, act_eq_workAll]
    exact bind_congr fun next => ih next

end

/-- A step of work leaves a session sound. -/
theorem Sound.work {session : Session} (sound : session.Sound) (part : Part) : (session.work part).value.Sound := by
  cases part with
  | handle world now command => exact sound.act (.handle world now command)
  | reload => exact sound.reloadIfDue
  | rescan => exact sound.rescanIfDue
  | drain => exact sound.drainIfDue

/-- A step of work that is no news of the settings file and does not load it. -/
def Part.SparesSettings : Part → Prop
  | .handle _ _ .settingsTouched | .handle _ _ .settingsRemoved | .reload .. => False
  | _ => True

/-- A step of work that has nothing to do with the settings file keeps the settings. -/
theorem KeepsSettings.work {session : Session} {part : Part} (spares : part.SparesSettings) :
    session.KeepsSettings (session.work part).value := by
  cases part with
  | handle world now command =>
    refine handled world now session ?_ ?_
    · rintro rfl
      exact spares
    · rintro rfl
      exact spares
  | reload => exact absurd spares id
  | rescan world now => exact rescanIfDue world now session
  | drain world now => exact drainIfDue world now session

/-- No step of work changes the timing. -/
theorem work_timing (session : Session) (part : Part) : (session.work part).value.timing = session.timing := by
  cases part with
  | handle world now command => exact act_timing (.handle world now command)
  | reload => exact reloadIfDue_timing
  | rescan world now => exact (KeepsSettings.rescanIfDue world now session).timing
  | drain world now => exact (KeepsSettings.drainIfDue world now session).timing

/-- No steps of work change the timing. -/
theorem workAll_timing (session : Session) (parts : List Part) :
    (session.workAll parts).value.timing = session.timing := by
  induction parts generalizing session with
  | nil => rfl
  | cons part rest ih =>
    rw [workAll_cons]
    calc ((session.work part).value.workAll rest).value.timing = (session.work part).value.timing := ih _
      _ = session.timing := work_timing session part

/-- All that others see of news is another catalog. -/
theorem news_effects (world : Surroundings) (now : Nat) (session : Session) {command : Command}
    (news : command.IsNews) :
    (session.act (.handle world now command)).effects = []
      ∨ ∃ catalog, (session.act (.handle world now command)).effects = Effect.publication catalog := by
  have hremoved : ∀ path, (session.remove path).effects = []
      ∨ ∃ catalog, (session.remove path).effects = Effect.publication catalog := by
    intro path
    rw [remove_effects]
    cases catalogWithout? session.catalog path with
    | none => exact .inl rfl
    | some catalog => exact .inr ⟨catalog, rfl⟩
  cases command with
  | touched path => exact .inl rfl
  | removed path =>
    rw [act_removed]
    exact hremoved path
  | renamed source target =>
    rw [act_renamed]
    have hrenamed := rename_renamed world now session source target
    generalize session.rename world now source target = turn at hrenamed
    cases hrenamed with
    | moved => exact .inr ⟨_, rfl⟩
    | replaced => exact hremoved source
    | _ => exact .inl rfl
  | settingsTouched => exact .inl rfl
  | settingsRemoved | rebuild | shutdown => cases news

/-! ## Reading the settings file -/

section

variable (world : Surroundings) (now : Nat) (session : Session)

/-- A settings file whose read fails in a way that may pass is read again later, or given up. -/
theorem reloadSettings_of_transient (attempts : Nat)
    (transient : (world.read session.settingsFile).isTransient = true) :
    session.reloadSettings world now attempts =
      if session.timing.exhausted (attempts + 1) then
        ⟨{ session with reload := none }, [.read session.settingsFile (world.read session.settingsFile),
          .emit (.fault (Failure.retriesExhausted session.settingsFile (attempts + 1)).message)]⟩
      else
        ⟨{ session with reload := some ⟨now + session.timing.retry, attempts + 1⟩ },
          [.read session.settingsFile (world.read session.settingsFile)]⟩ := by
  have hfile : ({ session with reload := none } : Session).settingsFile = session.settingsFile := rfl
  unfold Reading.isTransient at transient
  unfold reloadSettings
  dsimp only
  rw [hfile]
  cases hresult : (world.read session.settingsFile).result with
  | ok text => simp [hresult] at transient
  | error fault =>
    simp only [hresult, decide_eq_true_eq] at transient
    simp only [transient, postponeReload]
    split <;> rfl

/-- After any other read of the settings file there are settings to put in effect, or what it holds is refused. -/
theorem reloadSettings_of_settled (attempts : Nat) (settled : (world.read session.settingsFile).isTransient = false) :
    (∃ settings, session.reloadSettings world now attempts =
        ⟨(({ session with reload := none } : Session).applySettings world now settings).value,
          .read session.settingsFile (world.read session.settingsFile)
            :: (({ session with reload := none } : Session).applySettings world now settings).effects⟩)
      ∨ ∃ fault, session.reloadSettings world now attempts =
        ⟨{ session with reload := none }, [.read session.settingsFile (world.read session.settingsFile),
          .emit (.fault (Failure.settings session.settingsFile fault).message)]⟩ := by
  have hfile : ({ session with reload := none } : Session).settingsFile = session.settingsFile := rfl
  unfold Reading.isTransient at settled
  unfold reloadSettings
  dsimp only
  rw [hfile]
  cases hresult : (world.read session.settingsFile).result with
  | ok text =>
    cases hload : Settings.load text session.settingsFile with
    | ok loaded =>
      simp only [hload]
      exact .inl ⟨loaded.1, rfl⟩
    | error failure =>
      simp only [hload]
      unfold Settings.load at hload
      split at hload <;> cases hload
      exact .inr ⟨_, rfl⟩
  | error fault =>
    cases hverdict : fault.verdict with
    | missing =>
      simp only [hverdict]
      exact .inl ⟨.default, rfl⟩
    | undecodable =>
      simp only [hverdict]
      exact .inr ⟨_, rfl⟩
    | transient => simp [hresult, hverdict] at settled

end

end TypingsIndex.Session
