import TypingsIndex.Proofs.Watch.Scene
import TypingsIndex.Proofs.Watch.Tracking

/-!
# Runs of a session

A session is worked by deeds: a command is handled, or the work that is due is done. Each deed has its own time
and its own surroundings, the three parts of a poll even three, so that nothing is assumed of how the world
changes between two steps of work. A run is a list of deeds, and what one deed keeps, a run keeps.

Whatever the deeds, the catalog of a session stays consistent, its modules are those of declaration files, and no
file is pending twice (`Sound`).
-/

set_option autoImplicit false

namespace TypingsIndex

/-- The path of a settings file is not that of a declaration file. -/
theorem Settings.fileIn_not_declaration (base : Path) : (fileIn base).isDeclarationFile = false := by
  have hname : Path.IsName settingsFileName := ⟨by decide, by decide, by decide, by decide⟩
  have hlast : (fileIn base).fileName? = some settingsFileName := by
    unfold Path.fileName? fileIn
    rw [Path.components_join base hname, List.getLast?_concat]
  unfold Path.isDeclarationFile
  rw [hlast]
  decide

/-- Only a directory can be scanned. -/
theorem Scan.isDirectory_of_ok {world : Surroundings} {root : Path} {previous : Catalog} {scan : ScanReport}
    (report : directory world root previous = .ok scan) : world.isDirectory root = true := by
  by_contra hnone
  unfold directory findFiles at report
  rw [if_neg hnone] at report
  cases report

namespace Session

/-! ## Deeds -/

/-- A piece of work at a time: a command, or all that is due. -/
inductive Deed where
  | handle (world : Surroundings) (now : Nat) (command : Command)
  | poll (atReload atRescan atDrain : Surroundings) (now : Nat)

/-- When a deed is done. -/
def Deed.time : Deed → Nat
  | .handle _ now _ => now
  | .poll _ _ _ now => now

/-- Do a deed. -/
def act (session : Session) : Deed → Turn Session
  | .handle world now command => Handled.session <$> session.handle world now command
  | .poll atReload atRescan atDrain now => session.pollIn atReload atRescan atDrain now

/-- Do deeds one after the other. -/
def run (session : Session) (deeds : List Deed) : Turn Session :=
  deeds.foldlM act session

section

variable (session : Session) (deed : Deed)

/-- The news of a touch are a touch. -/
@[simp] theorem act_touched (world : Surroundings) (now : Nat) (path : Path) :
    session.act (.handle world now (.touched path)) = pure (session.touch world now path) := rfl

/-- The news of a removal are a removal. -/
@[simp] theorem act_removed (world : Surroundings) (now : Nat) (path : Path) :
    session.act (.handle world now (.removed path)) = session.remove path := by
  simp [act, handle]

/-- The news of a renaming are a renaming. -/
@[simp] theorem act_renamed (world : Surroundings) (now : Nat) (source target : Path) :
    session.act (.handle world now (.renamed source target)) = session.rename world now source target := by
  simp [act, handle]

/-- The news of a touched settings file ask for a reload. -/
@[simp] theorem act_settingsTouched (world : Surroundings) (now : Nat) :
    session.act (.handle world now .settingsTouched) = pure (session.requestReload now) := rfl

/-- The news of a removed settings file put the defaults in effect at once, and no reload stays due. -/
@[simp] theorem act_settingsRemoved (world : Surroundings) (now : Nat) :
    session.act (.handle world now .settingsRemoved) =
      ({ session with reload := none }).applySettings world now .default := by
  simp [act, handle, removeSettings]

/-- A call for a rebuild is a scan. -/
@[simp] theorem act_rebuild (world : Surroundings) (now : Nat) :
    session.act (.handle world now .rebuild) = Prod.fst <$> session.rebuild world now := by
  simp [act, handle]

/-- A call for a shutdown leaves the session as it is. -/
@[simp] theorem act_shutdown (world : Surroundings) (now : Nat) :
    session.act (.handle world now .shutdown) = pure session := rfl

/-- A poll is made in the surroundings of its three parts. -/
@[simp] theorem act_poll (atReload atRescan atDrain : Surroundings) (now : Nat) :
    session.act (.poll atReload atRescan atDrain now) = session.pollIn atReload atRescan atDrain now := rfl

/-- A run of one deed is this deed. -/
theorem run_singleton : session.run [deed] = session.act deed := by
  unfold run
  rw [List.foldlM_cons]
  exact bind_pure _

/-- The first deed of a run is done, and then the others. -/
theorem run_cons (rest : List Deed) :
    session.run (deed :: rest) = session.act deed >>= fun next => next.run rest :=
  List.foldlM_cons

/-- Some deeds are done, and then more. -/
theorem run_append (deeds more : List Deed) :
    session.run (deeds ++ more) = session.run deeds >>= fun next => next.run more :=
  List.foldlM_append

end

/-- What each deed keeps, a run keeps. -/
theorem run_invariant {P : Session → Prop} {session : Session} (deeds : List Deed) (start : P session)
    (step : ∀ before deed, deed ∈ deeds → P before → P (before.act deed).value) :
    P (session.run deeds).value := by
  induction deeds generalizing session with
  | nil => exact start
  | cons deed rest ih =>
    have hfirst := step session deed List.mem_cons_self start
    have hrest := ih hfirst fun before other hother => step before other (List.mem_cons_of_mem _ hother)
    unfold run at hrest ⊢
    rw [List.foldlM_cons, Turn.value_bind]
    exact hrest

/-! ## What every deed keeps -/

/-- What is true of a session whatever it has gone through. -/
structure Sound (session : Session) : Prop where
  consistent : session.catalog.Consistent
  declared : ∀ entry ∈ session.catalog.modules, entry.file.isDeclarationFile = true
  rising : session.pending.Rising

namespace Sound

/-- A session that starts is sound. -/
theorem start (world : Surroundings) (base : Path) (settings : Settings) (timing : Timing) :
    (Session.start world base settings timing).Sound :=
  ⟨Catalog.empty_consistent, fun _ hentry => absurd hentry List.not_mem_nil, Pending.Rising.empty⟩

variable {session : Session} {world : Surroundings} {now : Nat}

/-- Only the catalog and the pending files matter. -/
theorem of_same {other : Session} (sound : session.Sound) (catalog : other.catalog = session.catalog)
    (pending : other.pending = session.pending) : other.Sound := by
  refine ⟨?_, ?_, ?_⟩
  · rw [catalog]
    exact sound.consistent
  · rw [catalog]
    exact sound.declared
  · rw [pending]
    exact sound.rising

/-- A touch leaves a session sound. -/
theorem touch (sound : session.Sound) (path : Path) : (session.touch world now path).Sound := by
  have htouched := touch_touched world now session path
  generalize session.touch world now path = after at htouched
  cases htouched with
  | marked => exact ⟨sound.consistent, sound.declared, sound.rising.insert⟩
  | rescanned => exact sound.of_same rfl rfl
  | ignored => exact sound

/-- The news of a removal leave a session sound. -/
theorem remove (sound : session.Sound) (path : Path) : (session.remove path).value.Sound := by
  rw [remove_value]
  cases hwithout : catalogWithout? session.catalog path with
  | none => exact ⟨sound.consistent, sound.declared, sound.rising.eraseBelow⟩
  | some after =>
    refine ⟨catalogWithout?_consistent sound.consistent hwithout, fun entry hentry => ?_,
      sound.rising.eraseBelow⟩
    exact sound.declared entry (mem_of_catalogWithout? sound.consistent hwithout hentry)

/-- The news of a renaming leave a session sound. -/
theorem rename (sound : session.Sound) (source target : Path) :
    (session.rename world now source target).value.Sound := by
  have hrenamed := rename_renamed world now session source target
  generalize session.rename world now source target = turn at hrenamed
  cases hrenamed with
  | ignored => exact sound
  | rescanned => exact ⟨sound.consistent, sound.declared, sound.rising.eraseBelow⟩
  | moved taken =>
    obtain ⟨-, hrename⟩ := catalogRenamed?_eq_some session source taken
    obtain ⟨-, -, names, hnames, hmem⟩ := Catalog.mem_rename? sound.consistent hrename
    refine ⟨Catalog.rename?_consistent sound.consistent hrename, fun entry hentry => ?_,
      sound.rising.rename⟩
    rcases (hmem entry).mp hentry with ⟨hold, -⟩ | ⟨old, -, -, rfl⟩
    · exact sound.declared entry hold
    · exact ModuleNames.declared hnames
  | replaced => exact (sound.remove source).touch target
  | arrived =>
    have herased : ({ session with pending := session.pending.erase source } : Session).Sound :=
      ⟨sound.consistent, sound.declared, sound.rising.erase⟩
    exact herased.touch target

/-- Reading one pending file leaves a session sound. -/
theorem drained {file : Path} {after : Session} (sound : session.Sound)
    (drained : FileDrained world file session after) : after.Sound := by
  refine ⟨drained.consistent sound.consistent, fun entry hentry => ?_, ?_⟩
  · cases drained with
    | parsed reading accepted taken =>
      have hsettled : (session.settled file).catalog.Consistent := sound.consistent
      obtain ⟨new, hsame, -, -, -, hmem⟩ := mem_catalogWith? hsettled taken
      rcases (hmem entry).mp hentry with rfl | ⟨hold, -⟩
      · rw [Path.isDeclarationFile_congr hsame]
        rcases catalogWith?_named hsettled taken with ⟨old, hold, hfile⟩ | ⟨fresh, hfresh⟩
        · rw [← Path.isDeclarationFile_congr hfile]
          exact sound.declared old hold
        · exact Module.declared hfresh
      · exact sound.declared entry hold
    | vanished reading verdict taken =>
      exact sound.declared entry ((Catalog.mem_erase? sound.consistent taken).mp hentry).1
    | _ => exact sound.declared entry hentry
  · cases drained with
    | retried => exact sound.rising.countFailure
    | _ => exact sound.rising.erase

/-- A drain leaves a session sound. -/
theorem drain (sound : session.Sound) : (session.drain world now).value.Sound := by
  have hbegun : ({ session with drainDue := none } : Session).Sound := sound.of_same rfl rfl
  obtain ⟨last, hlast, hvalue⟩ := drain_invariant now
    (fun file _ before after hbefore hdrained => drained hbefore hdrained) hbegun
  rw [hvalue]
  exact hlast.of_same (scheduleRetry_catalog last now) (scheduleRetry_pending last now)

/-- A scan leaves a session sound. -/
theorem rebuild (sound : session.Sound) : (session.rebuild world now).value.1.Sound := by
  have hscanned := rebuild_scanned world now session
  generalize session.rebuild world now = turn at hscanned
  cases hscanned with
  | scanned found =>
    have hroot := Scan.isDirectory_of_ok found
    refine ⟨?_, fun entry hentry => ?_, ?_⟩
    · rw [scheduleRetry_catalog]
      exact scanned_consistent hroot found
    · rw [scheduleRetry_catalog] at hentry
      obtain ⟨file, hlisted, hmodule⟩ := mem_scanned hroot found hentry
      rw [(Scan.moduleOf?_cases hmodule).1]
      exact (List.mem_filter.mp hlisted).2
    · rw [scheduleRetry_pending]
      exact Pending.Rising.empty.foldl_insert
  | emptied =>
    exact ⟨Catalog.empty_consistent, fun _ hentry => absurd hentry List.not_mem_nil, sound.rising⟩
  | failed => exact sound.of_same rfl rfl

/-- New settings leave a session sound. -/
theorem underSettings (sound : session.Sound) (settings : Settings) :
    (session.underSettings world settings).Sound := by
  unfold Session.underSettings
  split
  · exact sound.of_same rfl rfl
  · exact ⟨sound.consistent, sound.declared, Pending.Rising.empty⟩

/-- Settings that are put in effect leave a session sound. -/
theorem applied {settings : Settings} {turn : Turn Session} (sound : session.Sound)
    (applied : SettingsApplied world now session settings turn) : turn.value.Sound := by
  cases applied with
  | same => exact sound
  | announced => exact sound.of_same rfl rfl
  | rebuilt => exact (sound.underSettings settings).rebuild

/-- Loading the settings file leaves a session sound. -/
theorem loaded {attempts : Nat} {turn : Turn Session} (sound : session.Sound)
    (loaded : SettingsLoaded world now session attempts turn) : turn.value.Sound := by
  have hforgotten : ({ session with reload := none } : Session).Sound := sound.of_same rfl rfl
  cases loaded with
  | applied outcome =>
    have hafter := hforgotten.applied outcome
    exact hafter
  | refused => exact hforgotten
  | postponed => exact sound.of_same rfl rfl

/-- The reload of a poll leaves a session sound. -/
theorem reloadIfDue (sound : session.Sound) : (session.reloadIfDue world now).value.Sound := by
  unfold Session.reloadIfDue
  split
  · split
    · exact sound.loaded (reloadSettings_loaded world now session _)
    · exact sound
  · exact sound

/-- The scan of a poll leaves a session sound. -/
theorem rescanIfDue (sound : session.Sound) : (session.rescanIfDue world now).value.Sound := by
  unfold Session.rescanIfDue
  split
  · exact sound.rebuild
  · exact sound

/-- The drain of a poll leaves a session sound. -/
theorem drainIfDue (sound : session.Sound) : (session.drainIfDue world now).value.Sound := by
  unfold Session.drainIfDue
  split
  · exact sound.drain
  · exact sound

/-- Every deed leaves a session sound. -/
theorem act (sound : session.Sound) (deed : Deed) : (session.act deed).value.Sound := by
  have hforgotten : ({ session with reload := none } : Session).Sound := sound.of_same rfl rfl
  cases deed with
  | handle world now command =>
    cases command with
    | touched path => exact sound.touch path
    | removed path =>
      rw [act_removed]
      exact sound.remove path
    | renamed source target =>
      rw [act_renamed]
      exact sound.rename source target
    | settingsTouched => exact sound.of_same rfl rfl
    | settingsRemoved =>
      rw [act_settingsRemoved]
      exact hforgotten.applied (applySettings_applied world now _ .default)
    | rebuild =>
      rw [act_rebuild]
      exact sound.rebuild
    | shutdown => exact sound
  | poll atReload atRescan atDrain now => exact sound.reloadIfDue.rescanIfDue.drainIfDue

/-- Every session is sound after any run. -/
theorem run (sound : session.Sound) (deeds : List Deed) : (session.run deeds).value.Sound :=
  run_invariant deeds sound fun _ deed _ before => before.act deed

end Sound

end Session

/-- Surroundings with one file in one directory. -/
def Surroundings.ofFile (file : Path) (reading : Reading) : Surroundings where
  read := fun _ => reading
  isDirectory := fun _ => true
  canonical := fun _ => none
  walk := fun _ => ([file], [])
  watchFault := fun _ => none

end TypingsIndex
