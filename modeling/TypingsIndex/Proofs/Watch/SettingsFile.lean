import Mathlib.Logic.Relation
import TypingsIndex.Proofs.Watch.SettingsInEffect

/-!
# The settings in effect and the settings file

The settings file is written and deleted while a session works, and the session hears of it later, in order. Between
the two anything may happen: the news are not handled yet, a reading is put off, the file changes again before it is
read, and a deletion is told when there is a file again. Still, once no news are on the way and no load is due, the
settings in effect are those of the file, or those from before if the file cannot be understood.

What carries the proof is the last piece of news on the way: it says whether there is a file now. If there is none on
the way, a load is due or the settings in effect are the right ones already (`Follows`).
-/

set_option autoImplicit false

namespace TypingsIndex

/-- News of the settings file. -/
def Command.isSettingsNews : Command → Bool
  | .settingsTouched | .settingsRemoved => true
  | _ => false

/-- The last news of the settings file among commands. -/
def Command.lastNews (commands : List Command) : Option Command :=
  (commands.filter isSettingsNews).getLast?

namespace Command

variable {command : Command}

/-- News of the settings file that come last are the last news. -/
theorem lastNews_append (commands : List Command) (news : command.isSettingsNews = true) :
    lastNews (commands ++ [command]) = some command := by
  unfold lastNews
  rw [List.filter_append, List.filter_cons_of_pos news, List.filter_nil, List.getLast?_concat]

/-- Other commands that come last leave the last news as they were. -/
theorem lastNews_append_other (commands : List Command) (other : command.isSettingsNews = false) :
    lastNews (commands ++ [command]) = lastNews commands := by
  unfold lastNews
  rw [List.filter_append, List.filter_cons_of_neg (by rw [other]; exact Bool.false_ne_true), List.filter_nil,
    List.append_nil]

/-- The first command counts only if no news come after it. -/
theorem lastNews_cons (command : Command) (rest : List Command) :
    lastNews (command :: rest) = (lastNews rest).or (if command.isSettingsNews then some command else none) := by
  unfold lastNews
  rw [List.filter_cons]
  split
  · rw [List.getLast?_cons]
    cases (rest.filter isSettingsNews).getLast? <;> rfl
  · rw [Option.or_none]

end Command

/-- What a settings file holds, if there is one, the commands in flight with the oldest first, and a session. -/
structure SettingsScene where
  file : Option Disk.Content
  inFlight : List Command
  session : Session

namespace SettingsScene

/-- Others write the settings file or delete it, and the session will be told. -/
inductive DiskStep : SettingsScene → SettingsScene → Prop where
  | written {file : Option Disk.Content} {inFlight : List Command} {session : Session} (content : Disk.Content) :
      DiskStep ⟨file, inFlight, session⟩ ⟨some content, inFlight ++ [.settingsTouched], session⟩
  | deleted {file : Option Disk.Content} {inFlight : List Command} {session : Session} :
      DiskStep ⟨file, inFlight, session⟩ ⟨none, inFlight ++ [.settingsRemoved], session⟩

/-- What may happen: the settings file changes, the session is told of something else, it handles the oldest command, or
it does what is due. A reading of the settings file tells what is in it or fails in a way that may pass; nothing else is
assumed of the surroundings, nor of the times. -/
inductive Step : SettingsScene → SettingsScene → Prop where
  | disk {scene after : SettingsScene} (step : DiskStep scene after) : Step scene after
  | told {file : Option Disk.Content} {inFlight : List Command} {session : Session} {command : Command}
      (other : command.isSettingsNews = false) :
      Step ⟨file, inFlight, session⟩ ⟨file, inFlight ++ [command], session⟩
  | delivered {file : Option Disk.Content} {command : Command} {rest : List Command} {session : Session}
      {world : Surroundings} {now : Nat} :
      Step ⟨file, command :: rest, session⟩ ⟨file, rest, (session.act (.handle world now command)).value⟩
  | polled {file : Option Disk.Content} {inFlight : List Command} {session : Session}
      {atReload atRescan atDrain : Surroundings} {now : Nat}
      (tells : (atReload.read session.settingsFile).Tells (file.map .file)) :
      Step ⟨file, inFlight, session⟩
        ⟨file, inFlight, (session.act (.poll atReload atRescan atDrain now)).value⟩

/-- The settings in effect agree with the file. If there is something in the file that cannot be put in effect, they are
those that were in effect before, when this content was to be loaded. -/
structure Agrees (first last : SettingsScene) : Prop where
  absent : last.file = none → last.session.settings = .default
  accepted : ∀ text settings warnings, last.file = some (.text text) →
    Settings.load text last.session.settingsFile = .ok (settings, warnings) → last.session.settings = settings
  refused : Session.Refuses last.session.settingsFile last.file →
    ∃ earlier, Relation.ReflTransGen Step first earlier ∧ Relation.TransGen Step earlier last
      ∧ earlier.file = last.file ∧ earlier.session.reload.isSome = true
      ∧ earlier.session.settings = last.session.settings

/-- What is known of a scene that has come of another. -/
structure Follows (first scene : SettingsScene) : Prop where
  reached : Relation.ReflTransGen Step first scene
  unlimited : scene.session.timing.maxAttempts = none
  removed : Command.lastNews scene.inFlight = some .settingsRemoved → scene.file = none
  touched : Command.lastNews scene.inFlight = some .settingsTouched → scene.file.isSome = true
  settled : Command.lastNews scene.inFlight = none → scene.session.reload.isSome = true ∨ Agrees first scene

variable {first scene after : SettingsScene}

/-- Work that leaves settings and file alone leaves them in agreement. -/
theorem Agrees.kept (agrees : Agrees first scene) (step : Step scene after) (file : after.file = scene.file)
    (keeps : scene.session.KeepsSettings after.session) : Agrees first after := by
  refine ⟨?_, ?_, ?_⟩
  · intro habsent
    rw [keeps.settings]
    exact agrees.absent (file ▸ habsent)
  · intro text settings warnings htext hload
    rw [keeps.settings]
    exact agrees.accepted text settings warnings (file ▸ htext) (keeps.settingsFile ▸ hload)
  · intro hrefused
    rw [keeps.settingsFile, file] at hrefused
    obtain ⟨earlier, hreached, hlater, hfile, hreload, hsettings⟩ := agrees.refused hrefused
    refine ⟨earlier, hreached, hlater.tail step, ?_, hreload, ?_⟩
    · rw [hfile, file]
    · rw [hsettings, keeps.settings]

namespace Follows

/-- Whatever was known, the news of a change of the file say how it ended. -/
theorem changed (reached : Relation.ReflTransGen Step first after)
    (unlimited : scene.session.timing.maxAttempts = none) (step : DiskStep scene after) : Follows first after := by
  cases step with
  | @written file inFlight session content =>
    have hlast : Command.lastNews (inFlight ++ [.settingsTouched]) = some .settingsTouched :=
      Command.lastNews_append inFlight rfl
    refine ⟨reached, unlimited, ?_, fun _ => rfl, ?_⟩ <;>
    · intro h
      cases hlast.symm.trans h
  | @deleted file inFlight session =>
    have hlast : Command.lastNews (inFlight ++ [.settingsRemoved]) = some .settingsRemoved :=
      Command.lastNews_append inFlight rfl
    refine ⟨reached, unlimited, fun _ => rfl, ?_, ?_⟩ <;>
    · intro h
      cases hlast.symm.trans h

/-- Work that leaves the settings alone, with the same news on the way. -/
theorem kept (follows : Follows first scene) (step : Step scene after) (file : after.file = scene.file)
    (news : Command.lastNews after.inFlight = Command.lastNews scene.inFlight)
    (keeps : scene.session.KeepsSettings after.session) : Follows first after := by
  refine ⟨follows.reached.tail step, ?_, ?_, ?_, ?_⟩
  · rw [keeps.timing]
    exact follows.unlimited
  · rw [file, news]
    exact follows.removed
  · rw [file, news]
    exact follows.touched
  · intro hnone
    rw [news] at hnone
    rw [keeps.reload]
    rcases follows.settled hnone with hreload | hagrees
    · exact .inl hreload
    · exact .inr (hagrees.kept step file keeps)

section

variable {file : Option Disk.Content} {command : Command} {inFlight rest : List Command} {session after : Session}

/-- News that come after the oldest command say as much about the file without it. -/
theorem behind (follows : Follows first ⟨file, command :: rest, session⟩)
    (reached : Relation.ReflTransGen Step first ⟨file, rest, after⟩) (unlimited : after.timing.maxAttempts = none)
    (settled : Command.lastNews rest = none → after.reload.isSome = true ∨ Agrees first ⟨file, rest, after⟩) :
    Follows first ⟨file, rest, after⟩ := by
  have hlast : ∀ news, Command.lastNews rest = some news → Command.lastNews (command :: rest) = some news := by
    intro news hnews
    rw [Command.lastNews_cons, hnews, Option.some_or]
  exact ⟨reached, unlimited, fun h => follows.removed (hlast _ h), fun h => follows.touched (hlast _ h), settled⟩

/-- What is known of a scene is known after the oldest command was handled. -/
theorem delivered {world : Surroundings} {now : Nat} (follows : Follows first ⟨file, command :: rest, session⟩) :
    Follows first ⟨file, rest, (session.act (.handle world now command)).value⟩ := by
  have hreached : Relation.ReflTransGen Step first ⟨file, rest, (session.act (.handle world now command)).value⟩ :=
    follows.reached.tail .delivered
  have hcons := Command.lastNews_cons command rest
  by_cases htouched : command = .settingsTouched
  · subst htouched
    exact follows.behind hreached follows.unlimited fun _ => .inl (Session.requestReload_due now session)
  · by_cases hremoved : command = .settingsRemoved
    · subst hremoved
      rw [Session.act_settingsRemoved] at hreached ⊢
      have hkeeps := Session.applySettings_keeps world now { session with reload := none } .default
      refine follows.behind hreached ?_ fun hnone => .inr ?_
      · rw [hkeeps.timing]
        exact follows.unlimited
      · -- there is no file, since these were the last news of it
        have hfile : file = none := by
          apply follows.removed
          rw [hcons, hnone]
          rfl
        subst hfile
        refine ⟨fun _ => hkeeps.settings, ?_, ?_⟩
        · intro text settings warnings htext
          cases htext
        · rintro (hbinary | ⟨text, failure, htext, -⟩)
          · cases hbinary
          · cases htext
    · have hother : command.isSettingsNews = false := by
        cases command <;> first | rfl | contradiction
      refine follows.kept .delivered rfl ?_ (.handled world now session htouched hremoved)
      rw [hcons, hother, if_neg Bool.false_ne_true, Option.or_none]

/-- What is known of a scene is known after a poll, at which the file is read as it is or not at all. -/
theorem polled {atReload atRescan atDrain : Surroundings} {now : Nat}
    (follows : Follows first ⟨file, inFlight, session⟩)
    (tells : (atReload.read session.settingsFile).Tells (file.map .file)) :
    Follows first ⟨file, inFlight, (session.act (.poll atReload atRescan atDrain now)).value⟩ := by
  have hstep : Step ⟨file, inFlight, session⟩
      ⟨file, inFlight, (session.act (.poll atReload atRescan atDrain now)).value⟩ := .polled tells
  by_cases hdue : ∃ reload, session.reload = some reload ∧ reload.due ≤ now
  · obtain ⟨reload, hreload, hdue⟩ := hdue
    have hpolled := Session.poll_due atReload atRescan atDrain now hreload hdue
    have hunlimited := follows.unlimited
    rcases Session.reloadSettings_reread hunlimited tells now reload.attempts with
      ⟨hreread, hloaded⟩ | ⟨⟨due, hagain⟩, -⟩
    · have hafter := hreread.keeps hpolled
      refine ⟨follows.reached.tail hstep, ?_, follows.removed, follows.touched, fun _ => .inr ?_⟩
      · rw [hafter.timing]
        exact hunlimited
      · have hfile : (session.act (.poll atReload atRescan atDrain now)).value.settingsFile = session.settingsFile := by
          unfold Session.settingsFile
          rw [hafter.base]
        refine ⟨hafter.absent, ?_, ?_⟩
        · intro text settings warnings htext hload
          exact hafter.accepted text settings warnings htext (hfile ▸ hload)
        · intro hrefused
          refine ⟨⟨file, inFlight, session⟩, follows.reached, .single hstep, rfl, ?_, ?_⟩
          · rw [hreload]
            rfl
          · exact (hafter.refused (hfile ▸ hrefused)).symm
    · rw [hagain] at hpolled
      refine ⟨follows.reached.tail hstep, ?_, follows.removed, follows.touched, fun _ => .inl ?_⟩
      · rw [hpolled.timing]
        exact hunlimited
      · rw [hpolled.reload]
        rfl
  · refine follows.kept hstep rfl rfl (Session.poll_early atReload atRescan atDrain now ?_)
    intro reload hreload hnow
    exact hdue ⟨reload, hreload, hnow⟩

end

/-- Whatever happens, it stays known what the news on the way say about the file. -/
theorem step (follows : Follows first scene) (step : Step scene after) : Follows first after := by
  cases step with
  | disk told => exact changed (follows.reached.tail (.disk told)) follows.unlimited told
  | told other =>
    exact follows.kept (.told other) rfl (Command.lastNews_append_other _ other) (.refl _)
  | delivered => exact follows.delivered
  | polled tells => exact follows.polled tells

/-- What is known of a scene is known of every scene that comes of it. -/
theorem steps {last : SettingsScene} (follows : Follows first scene) (steps : Relation.ReflTransGen Step scene last) :
    Follows first last := by
  induction steps with
  | refl => exact follows
  | tail _ next ih => exact ih.step next

end Follows

end SettingsScene

namespace Session

/-! ## Loads that are off, and news that are not lost -/

/-- What a deed tells the session, if it is no poll. -/
def Deed.command? : Deed → Option Command
  | .handle _ _ command => some command
  | .poll .. => none

variable {session : Session} {deeds : List Deed}

/-- Without news of a file the default settings stay, and no load is due. -/
theorem run_default (untold : ∀ deed ∈ deeds, deed.command? ≠ some .settingsTouched) (off : session.reload = none)
    (settings : session.settings = .default) :
    (session.run deeds).value.reload = none ∧ (session.run deeds).value.settings = .default := by
  refine run_invariant (P := fun before => before.reload = none ∧ before.settings = .default) deeds ⟨off, settings⟩ ?_
  rintro before deed hdeed ⟨hreload, hsettings⟩
  have hkept : ∀ after, before.KeepsSettings after → after.reload = none ∧ after.settings = .default :=
    fun after keeps => ⟨keeps.reload.trans hreload, keeps.settings.trans hsettings⟩
  cases deed with
  | poll atReload atRescan atDrain now =>
    refine hkept _ (poll_early atReload atRescan atDrain now ?_)
    intro reload hsome
    rw [hreload] at hsome
    cases hsome
  | handle world now command =>
    have htouched : command ≠ .settingsTouched := fun h => untold _ hdeed (congrArg some h)
    by_cases hremoved : command = .settingsRemoved
    · subst hremoved
      rw [act_settingsRemoved]
      have hkeeps := applySettings_keeps world now { before with reload := none } .default
      exact ⟨hkeeps.reload, hkeeps.settings⟩
    · exact hkept _ (.handled world now before htouched hremoved)

/-- A load is due after the deeds, or one of them is a poll at which it was due and at which the file was read: what the
reading told of the file is in effect after it. -/
def Loads (session : Session) (deeds : List Deed) : Prop :=
  (session.run deeds).value.reload.isSome = true
    ∨ ∃ front atReload atRescan atDrain now back, deeds = front ++ .poll atReload atRescan atDrain now :: back
      ∧ (session.run front).value.reload.any (fun reload => reload.due ≤ now) = true
      ∧ (∀ fault, (atReload.read session.settingsFile).result = .error fault → fault.verdict ≠ .transient)
      ∧ ∀ content : Option Disk.Content, (atReload.read session.settingsFile).Tells (content.map .file) →
        Reread content (session.run front).value
          ((session.run front).value.act (.poll atReload atRescan atDrain now)).value

/-- A load among the later deeds of a run is one of the run. -/
theorem Loads.cons {deed : Deed} (base : (session.act deed).value.base = session.base)
    (loads : (session.act deed).value.Loads deeds) : session.Loads (deed :: deeds) := by
  have hrun : ∀ others, session.run (deed :: others) =
      session.act deed >>= fun after => after.run others := fun _ => List.foldlM_cons
  have hfile : (session.act deed).value.settingsFile = session.settingsFile := by
    unfold settingsFile
    rw [base]
  unfold Loads at loads
  rw [hfile] at loads
  rcases loads with hlater | ⟨front, atReload, atRescan, atDrain, now, back, rfl, hpoll⟩
  · left
    rw [hrun, Turn.value_bind]
    exact hlater
  · right
    refine ⟨deed :: front, atReload, atRescan, atDrain, now, back, rfl, ?_⟩
    rw [hrun, Turn.value_bind]
    exact hpoll

/-- A poll at which a load is due reads the file, or the load is due again. -/
theorem poll_loads {atReload atRescan atDrain : Surroundings} {now : Nat} {reload : Reload}
    (unlimited : session.timing.maxAttempts = none) (due : session.reload = some reload) (early : reload.due ≤ now) :
    { session with reload := (session.act (.poll atReload atRescan atDrain now)).value.reload }.KeepsSettings
        (session.act (.poll atReload atRescan atDrain now)).value
      ∧ (session.act (.poll atReload atRescan atDrain now)).value.reload.isSome = true
    ∨ session.Loads (.poll atReload atRescan atDrain now :: deeds) := by
  have hpolled := poll_due atReload atRescan atDrain now due early
  by_cases hread : ∃ fault, (atReload.read session.settingsFile).result = .error fault ∧ fault.verdict = .transient
  · obtain ⟨fault, hfault, htransient⟩ := hread
    rw [reloadSettings_again atReload now unlimited hfault htransient] at hpolled
    left
    refine ⟨⟨hpolled.base, hpolled.timing, hpolled.settings, rfl⟩, ?_⟩
    rw [hpolled.reload]
    rfl
  · right
    refine .inr ⟨[], atReload, atRescan, atDrain, now, deeds, rfl, ?_, ?_, ?_⟩
    · change session.reload.any _ = true
      rw [due]
      exact decide_eq_true early
    · intro fault hfault htransient
      exact hread ⟨fault, hfault, htransient⟩
    · intro content tells
      rcases reloadSettings_reread unlimited tells now reload.attempts with ⟨hreread, -⟩ | ⟨-, hfault⟩
      · exact hreread.keeps hpolled
      · exact absurd hfault hread

/-- A load that is due stays due until the settings file was read, unless the file is removed. -/
theorem run_loads (unlimited : session.timing.maxAttempts = none)
    (there : ∀ deed ∈ deeds, deed.command? ≠ some .settingsRemoved) (due : session.reload.isSome = true) :
    session.Loads deeds := by
  induction deeds generalizing session with
  | nil => exact .inl due
  | cons deed rest ih =>
    have hrest : ∀ other ∈ rest, other.command? ≠ some .settingsRemoved :=
      fun other hother => there other (List.mem_cons_of_mem _ hother)
    have hgo : (session.act deed).value.timing = session.timing → (session.act deed).value.base = session.base →
        (session.act deed).value.reload.isSome = true → session.Loads (deed :: rest) :=
      fun htiming hbase hreload => .cons hbase (ih (htiming ▸ unlimited) hrest hreload)
    have hkept : session.KeepsSettings (session.act deed).value → session.Loads (deed :: rest) :=
      fun keeps => hgo keeps.timing keeps.base (keeps.reload ▸ due)
    cases deed with
    | handle world now command =>
      have hremoved : command ≠ .settingsRemoved := fun h => there _ List.mem_cons_self (congrArg some h)
      by_cases htouched : command = .settingsTouched
      · subst htouched
        exact hgo rfl rfl (requestReload_due now session)
      · exact hkept (.handled world now session htouched hremoved)
    | poll atReload atRescan atDrain now =>
      obtain ⟨reload, hreload⟩ := Option.isSome_iff_exists.mp due
      by_cases hdue : reload.due ≤ now
      · rcases poll_loads unlimited hreload hdue with ⟨hkeeps, hagain⟩ | hloads
        · exact hgo hkeeps.timing hkeeps.base hagain
        · exact hloads
      · apply hkept
        apply poll_early
        intro other hother
        rw [hreload] at hother
        cases hother
        exact hdue

/-- The settings in effect follow the settings file. Once it was written or deleted, whatever happened before and
happens then: when no news of anything are on the way and no load is due, the settings in effect are the default ones
if there is no file, those of the file if it can be understood, and otherwise those that were in effect when its
content was read. A removal calls off the load that was due, which never comes back; and news of the file are not
lost: a load stays due until the file was read. -/
theorem settings_follow_file (session : Session) (unlimited : session.timing.maxAttempts = none) :
    (∀ (file : Option Disk.Content) (inFlight : List Command) (changed last : SettingsScene),
        SettingsScene.DiskStep ⟨file, inFlight, session⟩ changed →
        Relation.ReflTransGen SettingsScene.Step changed last →
        last.inFlight = [] → last.session.reload = none → SettingsScene.Agrees changed last)
      ∧ (∀ (world : Surroundings) (now : Nat) (deeds : List Deed),
        (∀ deed ∈ deeds, deed.command? ≠ some .settingsTouched) →
        let after := ((session.act (.handle world now .settingsRemoved)).value.run deeds).value
        after.reload = none ∧ after.settings = .default)
      ∧ ∀ (world : Surroundings) (now : Nat) (deeds : List Deed),
        (∀ deed ∈ deeds, deed.command? ≠ some .settingsRemoved) →
        (session.act (.handle world now .settingsTouched)).value.Loads deeds := by
  refine ⟨?_, ?_, ?_⟩
  · intro file inFlight changed last hchanged hsteps hquiet hoff
    have hfollows := (SettingsScene.Follows.changed .refl unlimited hchanged).steps hsteps
    have hnone : Command.lastNews last.inFlight = none := by
      rw [hquiet]
      rfl
    refine (hfollows.settled hnone).resolve_left ?_
    rw [hoff]
    exact Bool.false_ne_true
  · intro world now deeds huntold after
    have hkeeps := applySettings_keeps world now { session with reload := none } .default
    have hremoved : (session.act (.handle world now .settingsRemoved)).value.reload = none
        ∧ (session.act (.handle world now .settingsRemoved)).value.settings = .default := by
      rw [act_settingsRemoved]
      exact ⟨hkeeps.reload, hkeeps.settings⟩
    exact run_default huntold hremoved.1 hremoved.2
  · intro world now deeds hthere
    exact run_loads unlimited hthere (requestReload_due now session)

/-- The file is written, cannot be read at first, is deleted and written again. Its second text is read before the news
of the deletion are handled, which put the default settings in effect, and once more after that. -/
theorem settings_follow_file_rewritten :
    let seeing := fun reading : Reading => ({
      read := fun _ => reading
      isDirectory := fun _ => false
      canonical := fun _ => none
      walk := fun _ => ([], [])
      watchFault := fun _ => none } : Surroundings)
    let text := "\x7b\"declaration path\": \"b\"\x7d"
    let there := seeing (.content text)
    let locked := seeing (.failed ⟨.resourceBusy, "busy"⟩)
    let session := start there ⟨"/w"⟩ .default {}
    let waiting := (session.act (.handle there 0 .settingsTouched)).value
    let again := (waiting.act (.poll locked locked locked 500)).value
    let early := (again.act (.poll there there there 1500)).value
    let removed := (early.act (.handle there 1600 .settingsRemoved)).value
    let told := (removed.act (.handle there 1600 .settingsTouched)).value
    let last := (told.act (.poll there there there 2100)).value
    session.timing.maxAttempts = none ∧ early.settings.declarationPath = "b" ∧ removed.settings = .default
      ∧ last.settings.declarationPath = "b" := by
  intro seeing text there locked session waiting again early removed told last
  obtain ⟨hfollow, -, -⟩ := settings_follow_file session rfl
  have hread : SettingsScene.Step ⟨some (.text "first"), [], waiting⟩ ⟨some (.text "first"), [], again⟩ :=
    .polled (.inr ⟨_, rfl, rfl⟩)
  have hwritten : Relation.ReflTransGen SettingsScene.Step ⟨some (.text "first"), [.settingsTouched], session⟩
      ⟨some (.text text), [.settingsRemoved, .settingsTouched], again⟩ :=
    (((Relation.ReflTransGen.single .delivered).tail hread).tail (.disk .deleted)).tail (.disk (.written (.text text)))
  have hsteps : Relation.ReflTransGen SettingsScene.Step ⟨some (.text "first"), [.settingsTouched], session⟩
      ⟨some (.text text), [], last⟩ :=
    (((hwritten.tail (.polled (.inl rfl))).tail .delivered).tail .delivered).tail (.polled (.inl rfl))
  have hagrees := hfollow none [] _ _ (.written (.text "first")) hsteps rfl (by decide +kernel)
  have hload : (Settings.load text last.settingsFile).toOption.map (fun loaded => loaded.1.declarationPath) =
      some "b" := by
    decide +kernel
  obtain ⟨loaded, hloaded, hpath⟩ := Option.map_eq_some_iff.mp hload
  refine ⟨rfl, by decide +kernel, by decide +kernel, ?_⟩
  cases hresult : Settings.load text last.settingsFile with
  | error failure =>
    rw [hresult] at hloaded
    cases hloaded
  | ok found =>
    rw [hresult] at hloaded
    obtain rfl := Option.some.inj hloaded
    rw [hagrees.accepted text _ _ rfl hresult]
    exact hpath

end Session

end TypingsIndex
