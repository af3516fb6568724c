import Mathlib.Data.List.ReduceOption
import TypingsIndex.Proofs.Watch.Run

/-!
# Deadlines

A session that waits is woken at its earliest deadline. While a file is pending the time of a drain is set, and no
deadline lies further ahead than the longer of the two times that a session waits (`Punctual`); every deed keeps
this, and news of changes never put off what is due already. A poll does all that is due: no deadline that is set
afterwards has come, and what had come before was done, unless a scan or a move of the root in the same poll has
made it pointless (`poll_works`).
-/

set_option autoImplicit false

namespace TypingsIndex

/-- The longest time that a session puts off anything. -/
def Timing.longest (timing : Timing) : Nat :=
  max timing.quiescence timing.retry

/-- The news of a change that someone else made. -/
def Command.IsNews : Command → Prop
  | .touched _ | .removed _ | .renamed .. | .settingsTouched => True
  | _ => False

/-- A mark that moves was there before. -/
theorem Pending.isEmpty_rename {pending : Pending} {source target : Path}
    (h : (pending.rename source target).isEmpty = false) : pending.isEmpty = false := by
  by_contra hempty
  rw [Bool.not_eq_false, isEmpty_iff] at hempty
  rw [isEmpty_iff.mpr (paths_rename_of_nil hempty)] at h
  cases h

/-- Unmarking files leaves none if there were none. -/
theorem Pending.isEmpty_of_subset {pending fewer : Pending} (subset : ∀ path ∈ fewer.paths, path ∈ pending.paths)
    (h : fewer.isEmpty = false) : pending.isEmpty = false := by
  by_contra hempty
  rw [Bool.not_eq_false, isEmpty_iff] at hempty
  have hnone : fewer.paths = [] := by
    rw [List.eq_nil_iff_forall_not_mem]
    intro path hpath
    have hmem := subset path hpath
    rw [hempty] at hmem
    cases hmem
  rw [isEmpty_iff.mpr hnone] at h
  cases h

namespace Session

/-- The times at which there will be work to do. -/
def deadlines (session : Session) : List Nat :=
  [session.reload.map Reload.due, session.rescanDue, session.drainDue].reduceOption

/-- The session wakes at the earliest of them. -/
theorem nextDeadline_eq (session : Session) : session.nextDeadline = session.deadlines.min? := rfl

/-- A time is a deadline exactly if the reload, the scan or the drain is due then. -/
theorem mem_deadlines {session : Session} {due : Nat} :
    due ∈ session.deadlines ↔ session.reload.map Reload.due = some due
      ∨ session.rescanDue = some due ∨ session.drainDue = some due := by
  unfold deadlines
  rw [List.reduceOption_mem_iff]
  simp only [List.mem_cons, List.not_mem_nil, or_false, eq_comm (a := some due)]

/-- A session has nothing to do exactly if neither reload nor scan nor drain is due. -/
theorem nextDeadline_eq_none_iff {session : Session} :
    session.nextDeadline = none ↔ session.reload = none ∧ session.rescanDue = none ∧ session.drainDue = none := by
  rw [nextDeadline_eq, List.min?_eq_none_iff, List.eq_nil_iff_forall_not_mem]
  simp only [mem_deadlines, not_or, forall_and, ← Option.eq_none_iff_forall_ne_some, Option.map_eq_none_iff]

/-- A session that has something to do at some time wakes no later. -/
theorem exists_nextDeadline {session : Session} {due : Nat} (mem : due ∈ session.deadlines) :
    ∃ next, session.nextDeadline = some next ∧ next ≤ due := by
  rw [nextDeadline_eq]
  cases hnext : session.deadlines.min? with
  | none =>
    rw [List.min?_eq_none_iff.mp hnext] at mem
    cases mem
  | some next => exact ⟨next, rfl, (List.min?_eq_some_iff.mp hnext).2 due mem⟩

/-- What is known at a time of the deadlines of a session with some timing. -/
structure Punctual (timing : Timing) (latest : Nat) (session : Session) : Prop where
  timed : session.timing = timing
  /-- Pending files will be read. -/
  awake : session.pending.isEmpty = false → ∃ due, session.drainDue = some due
  drain_le : ∀ due, session.drainDue = some due → due ≤ latest + timing.longest
  rescan_le : ∀ due, session.rescanDue = some due → due ≤ latest + timing.longest
  reload_le : ∀ reload, session.reload = some reload → reload.due ≤ latest + timing.longest

/-! ## What a scan, a drain and new settings do to the deadlines -/

section

variable (world : Surroundings) (now : Nat) (session : Session)

/-- After a scan the pending files are those that failed in a way that may pass, and these will be read again; or
the scan has failed, and the pending files and their time are those from before. -/
theorem rebuild_frame :
    ∃ catalog pending due, (session.rebuild world now).value.1 =
        { session with catalog := catalog, pending := pending, drainDue := due, rescanDue := none }
      ∧ (((∃ report, (session.rebuild world now).value.2 = .ok report)
          ∧ due = if pending.isEmpty then none else some (now + session.timing.retry))
        ∨ (pending = session.pending ∧ due = session.drainDue)) := by
  have hscanned := rebuild_scanned world now session
  generalize session.rebuild world now = turn at hscanned
  cases hscanned with
  | @scanned scan =>
    refine ⟨scan.catalog, pendingAfter scan.failures, _, ?_, .inl ⟨⟨_, rfl⟩, rfl⟩⟩
    dsimp only
    unfold scheduleRetry
    split <;> simp_all
  | emptied => exact ⟨_, _, _, rfl, .inr ⟨rfl, rfl⟩⟩
  | failed => exact ⟨_, _, _, rfl, .inr ⟨rfl, rfl⟩⟩

/-- A scan leaves the settings in effect as they are. -/
theorem rebuild_settings : (session.rebuild world now).value.1.settings = session.settings := by
  obtain ⟨_, _, _, hvalue, -⟩ := rebuild_frame world now session
  rw [hvalue]

/-- A scan of an existing root reads every file that the walk lists, if the file can have a module. -/
theorem rebuild_reads (h : world.isDirectory session.root = true) {file : Path}
    (hlisted : file ∈ Scan.listed world session.root) (hreads : Scan.reads session.root file = true) :
    .read file (world.read file) ∈ (session.rebuild world now).effects := by
  obtain ⟨found, hfound, -⟩ := Scan.directory_eq_ok world session.root session.catalog h
  have hscanned := rebuild_scanned world now session
  generalize session.rebuild world now = turn at hscanned
  cases hscanned with
  | @scanned scan _ report =>
    have hreading : (file, world.read file) ∈ scan.readings :=
      Scan.mem_readings_of_ok world session.root session.catalog h report hlisted hreads
    exact List.mem_append_left _ (List.mem_append_left _ (List.mem_map.mpr ⟨_, hreading, rfl⟩))
  | emptied lost => cases hfound.symm.trans lost
  | failed lost => cases hfound.symm.trans lost

/-- After a drain the files that are still pending will be read again. -/
theorem drain_frame :
    ∃ catalog pending, (session.drain world now).value =
      { session with
        catalog := catalog
        pending := pending
        drainDue := if pending.isEmpty then none else some (now + session.timing.retry) } := by
  have hframe : ∀ file ∈ session.pending.paths, ∀ before after : Session,
      (∃ catalog pending, before = { session with catalog := catalog, pending := pending, drainDue := none }) →
        FileDrained world file before after →
        ∃ catalog pending, after = { session with catalog := catalog, pending := pending, drainDue := none } := by
    rintro file - before after ⟨_, _, rfl⟩ hdrained
    obtain ⟨pending, catalog, rfl⟩ := hdrained.frame
    exact ⟨catalog, pending, rfl⟩
  obtain ⟨last, ⟨catalog, pending, rfl⟩, hvalue⟩ := drain_invariant now hframe ⟨_, _, rfl⟩
  refine ⟨catalog, pending, ?_⟩
  rw [hvalue]
  unfold scheduleRetry
  split <;> simp_all

end

namespace Punctual

variable {timing : Timing} {latest now : Nat} {session : Session} {world : Surroundings}

/-- A session that starts is punctual: nothing is pending and nothing is due. -/
theorem start (latest : Nat) (world : Surroundings) (base : Path) (settings : Settings) (timing : Timing) :
    Punctual timing latest (Session.start world base settings timing) := by
  refine ⟨rfl, fun h => ?_, fun due h => ?_, fun due h => ?_, fun reload h => ?_⟩ <;> cases h

/-- Time goes by. -/
theorem later (punctual : Punctual timing latest session) (h : latest ≤ now) : Punctual timing now session := by
  refine ⟨punctual.timed, punctual.awake, fun due hdue => ?_, fun due hdue => ?_, fun reload hreload => ?_⟩
  · have := punctual.drain_le due hdue
    omega
  · have := punctual.rescan_le due hdue
    omega
  · have := punctual.reload_le reload hreload
    omega

/-- The time of quiescence is no longer than the longest time. -/
theorem quiescence_le (punctual : Punctual timing latest session) :
    now + session.timing.quiescence ≤ now + timing.longest := by
  rw [punctual.timed]
  unfold Timing.longest
  omega

/-- The time up to another try is no longer than the longest time. -/
theorem retry_le (punctual : Punctual timing latest session) :
    now + session.timing.retry ≤ now + timing.longest := by
  rw [punctual.timed]
  unfold Timing.longest
  omega

/-- Fewer files may be pending, and the catalog does not matter. -/
theorem of_subset {other : Session} (punctual : Punctual timing now session)
    (pending : other.pending.isEmpty = false → session.pending.isEmpty = false)
    (drainDue : other.drainDue = session.drainDue) (rescanDue : other.rescanDue = session.rescanDue)
    (reload : other.reload = session.reload) (timed : other.timing = session.timing) :
    Punctual timing now other := by
  refine ⟨timed.trans punctual.timed, fun h => ?_, ?_, ?_, ?_⟩
  · rw [drainDue]
    exact punctual.awake (pending h)
  · rw [drainDue]
    exact punctual.drain_le
  · rw [rescanDue]
    exact punctual.rescan_le
  · rw [reload]
    exact punctual.reload_le

/-- Asking for a scan keeps a session punctual. -/
theorem requestRescan (punctual : Punctual timing now session) : Punctual timing now (session.requestRescan now) := by
  refine ⟨punctual.timed, punctual.awake, punctual.drain_le, fun due hdue => ?_, punctual.reload_le⟩
  simp only [Session.requestRescan] at hdue ⊢
  cases hbefore : session.rescanDue with
  | some before =>
    rw [hbefore] at hdue
    exact punctual.rescan_le due (hbefore.trans hdue)
  | none =>
    rw [hbefore, Option.none_or] at hdue
    obtain rfl := Option.some.inj hdue
    exact punctual.quiescence_le

/-- Asking for a reload keeps a session punctual. -/
theorem requestReload (punctual : Punctual timing now session) : Punctual timing now (session.requestReload now) := by
  refine ⟨punctual.timed, punctual.awake, punctual.drain_le, punctual.rescan_le, fun reload hreload => ?_⟩
  simp only [Session.requestReload] at hreload ⊢
  cases hbefore : session.reload with
  | some before =>
    rw [hbefore] at hreload
    exact punctual.reload_le reload (hbefore.trans hreload)
  | none =>
    rw [hbefore, Option.none_or] at hreload
    obtain rfl := Option.some.inj hreload
    exact punctual.quiescence_le

/-- Whatever is marked, a drain that is requested will come. -/
theorem requestDrain (punctual : Punctual timing now session) (pending : Pending) :
    Punctual timing now (({ session with pending := pending }).requestDrain now) := by
  refine ⟨punctual.timed, fun _ => ?_, fun due hdue => ?_, punctual.rescan_le, punctual.reload_le⟩
  · simp only [Session.requestDrain]
    cases session.drainDue <;> simp
  · simp only [Session.requestDrain] at hdue ⊢
    cases hbefore : session.drainDue with
    | some before =>
      rw [hbefore] at hdue
      exact punctual.drain_le due (hbefore.trans hdue)
    | none =>
      rw [hbefore, Option.none_or] at hdue
      obtain rfl := Option.some.inj hdue
      exact punctual.quiescence_le

/-- A touch keeps a session punctual: with the mark of the file comes a drain. -/
theorem touch (punctual : Punctual timing now session) (path : Path) :
    Punctual timing now (session.touch world now path) := by
  have htouched := touch_touched world now session path
  generalize session.touch world now path = after at htouched
  cases htouched with
  | marked => exact punctual.requestDrain _
  | rescanned => exact punctual.requestRescan
  | ignored => exact punctual

/-- Dropping marks keeps a session punctual: what is left of them will still be read. -/
theorem eraseBelow (punctual : Punctual timing now session) (path : Path) :
    Punctual timing now { session with pending := session.pending.eraseBelow path } :=
  punctual.of_subset
    (Pending.isEmpty_of_subset (session.pending.eraseBelow_subset path)) rfl rfl rfl rfl

/-- The news of a removal keeps a session punctual. -/
theorem remove (punctual : Punctual timing now session) (path : Path) :
    Punctual timing now (session.remove path).value := by
  rw [remove_value]
  exact (punctual.eraseBelow path).of_subset id rfl rfl rfl rfl

/-- The news of a renaming keeps a session punctual: what it marks or moves will be read. -/
theorem rename (punctual : Punctual timing now session) (source target : Path) :
    Punctual timing now (session.rename world now source target).value := by
  have hrenamed := rename_renamed world now session source target
  generalize session.rename world now source target = turn at hrenamed
  cases hrenamed with
  | ignored => exact punctual
  | rescanned => exact (punctual.eraseBelow source).requestRescan
  | moved => exact punctual.of_subset Pending.isEmpty_rename rfl rfl rfl rfl
  | replaced => exact (punctual.remove source).touch target
  | arrived =>
    have herased : Punctual timing now { session with pending := session.pending.erase source } :=
      punctual.of_subset (Pending.isEmpty_of_subset (session.pending.erase_subset source))
        rfl rfl rfl rfl
    exact herased.touch target

/-- A drain leaves a session punctual: where marks are left, another drain comes. -/
theorem drain (punctual : Punctual timing now session) : Punctual timing now (session.drain world now).value := by
  obtain ⟨catalog, pending, hvalue⟩ := drain_frame world now session
  rw [hvalue]
  refine ⟨punctual.timed, fun h => ⟨_, if_neg (Bool.not_eq_true _ ▸ h)⟩, fun due hdue => ?_, punctual.rescan_le,
    punctual.reload_le⟩
  dsimp only at hdue ⊢
  split at hdue
  · cases hdue
  · obtain rfl := Option.some.inj hdue
    exact punctual.retry_le

/-- A scan leaves a session punctual: where files are to be tried again, a drain comes. -/
theorem rebuild (punctual : Punctual timing now session) : Punctual timing now (session.rebuild world now).value.1 := by
  obtain ⟨catalog, pending, due, hvalue, ⟨-, rfl⟩ | ⟨rfl, rfl⟩⟩ := rebuild_frame world now session
  · rw [hvalue]
    refine ⟨punctual.timed, fun h => ⟨_, if_neg (Bool.not_eq_true _ ▸ h)⟩, fun due hdue => ?_, fun due hdue => ?_,
      punctual.reload_le⟩
    · dsimp only at hdue ⊢
      split at hdue
      · cases hdue
      · obtain rfl := Option.some.inj hdue
        exact punctual.retry_le
    · cases hdue
  · rw [hvalue]
    refine ⟨punctual.timed, punctual.awake, punctual.drain_le, fun due hdue => ?_, punctual.reload_le⟩
    cases hdue

/-- New settings leave a session punctual, even if they take it to another root. -/
theorem underSettings (punctual : Punctual timing now session) (settings : Settings) :
    Punctual timing now (session.underSettings world settings) := by
  unfold Session.underSettings
  split
  · exact punctual.of_subset id rfl rfl rfl rfl
  · refine ⟨punctual.timed, fun h => ?_, fun due hdue => ?_, punctual.rescan_le, punctual.reload_le⟩
    · cases h
    · cases hdue

/-- Settings that are put in effect leave a session punctual, also where they ask for a scan. -/
theorem applied {settings : Settings} {turn : Turn Session} (punctual : Punctual timing now session)
    (applied : SettingsApplied world now session settings turn) : Punctual timing now turn.value := by
  cases applied with
  | same => exact punctual
  | announced => exact punctual.of_subset id rfl rfl rfl rfl
  | rebuilt => exact (punctual.underSettings settings).rebuild

/-- A load of the settings that is off is not due. -/
theorem unload (punctual : Punctual timing now session) : Punctual timing now { session with reload := none } := by
  refine ⟨punctual.timed, punctual.awake, punctual.drain_le, punctual.rescan_le, fun reload h => ?_⟩
  cases h

/-- The settings file leaves a session punctual whatever it has come to, another try included. -/
theorem loaded {attempts : Nat} {turn : Turn Session} (punctual : Punctual timing now session)
    (loaded : SettingsLoaded world now session attempts turn) : Punctual timing now turn.value := by
  cases loaded with
  | applied outcome =>
    have happlied := punctual.unload.applied outcome
    exact happlied
  | refused => exact punctual.unload
  | postponed =>
    refine ⟨punctual.timed, punctual.awake, punctual.drain_le, punctual.rescan_le, fun reload h => ?_⟩
    obtain rfl := Option.some.inj h
    exact punctual.retry_le

/-- A poll leaves a session punctual, since each of its parts does. -/
theorem pollIn (punctual : Punctual timing now session) (atReload atRescan atDrain : Surroundings) :
    Punctual timing now (session.pollIn atReload atRescan atDrain now).value := by
  have hreloaded : Punctual timing now (session.reloadIfDue atReload now).value := by
    unfold reloadIfDue
    split
    · split
      · exact punctual.loaded (reloadSettings_loaded atReload now session _)
      · exact punctual
    · exact punctual
  have hrescanned : Punctual timing now ((session.reloadIfDue atReload now).value.rescanIfDue atRescan now).value := by
    unfold rescanIfDue
    split
    · exact hreloaded.rebuild
    · exact hreloaded
  unfold Session.pollIn
  rw [Turn.value_bind, Turn.value_bind]
  unfold drainIfDue
  split
  · exact hrescanned.drain
  · exact hrescanned

/-- Every deed keeps to the deadlines. -/
theorem act (punctual : Punctual timing latest session) (deed : Deed) (h : latest ≤ deed.time) :
    Punctual timing deed.time (session.act deed).value := by
  cases deed with
  | handle world now command =>
    have hnow : Punctual timing now session := punctual.later h
    cases command with
    | touched path => exact hnow.touch path
    | removed path =>
      rw [act_removed]
      exact hnow.remove path
    | renamed source target =>
      rw [act_renamed]
      exact hnow.rename source target
    | settingsTouched => exact hnow.requestReload
    | settingsRemoved =>
      rw [act_settingsRemoved]
      exact hnow.unload.applied (applySettings_applied world now _ .default)
    | rebuild =>
      rw [act_rebuild]
      exact hnow.rebuild
    | shutdown => exact hnow
  | poll atReload atRescan atDrain now =>
    have hnow : Punctual timing now session := punctual.later h
    exact hnow.pollIn atReload atRescan atDrain

/-- Every run keeps to the deadlines. -/
theorem run {deeds : List Deed} (punctual : Punctual timing latest session)
    (ordered : (latest :: deeds.map Deed.time).Pairwise (· ≤ ·)) :
    Punctual timing ((deeds.map Deed.time).getLastD latest) (session.run deeds).value := by
  induction deeds generalizing latest session with
  | nil => exact punctual
  | cons deed rest ih =>
    rw [List.map_cons, List.pairwise_cons] at ordered
    have hrest := ih (punctual.act deed (ordered.1 _ List.mem_cons_self)) ordered.2
    unfold Session.run at hrest ⊢
    rw [List.foldlM_cons, Turn.value_bind]
    rwa [List.map_cons, List.getLastD_cons]

end Punctual

/-! ## What is due is done -/

/-- A scan that is due is done, and its report is dropped. -/
theorem rescanIfDue_of_due {world : Surroundings} {now : Nat} {session : Session}
    (h : isDue session.rescanDue now = true) :
    session.rescanIfDue world now = ⟨(session.rebuild world now).value.1, (session.rebuild world now).effects⟩ := by
  unfold rescanIfDue
  rw [if_pos h]
  exact congrArg (Turn.mk _) (List.append_nil _)

/-- A scan that is not due is left for later. -/
theorem rescanIfDue_of_not_due {world : Surroundings} {now : Nat} {session : Session}
    (h : isDue session.rescanDue now = false) : session.rescanIfDue world now = pure session := by
  unfold rescanIfDue
  rw [if_neg (Bool.not_eq_true _ ▸ h)]

/-- A scan of a root is among effects, from the first to the last of its own, and came to this. The session that made
it is one of those that scan, each in surroundings of its own; and if the root is a directory, then every file that the
walk lists and that can have a module has been read. -/
inductive ScansRoot (scanners : Surroundings → Session → Prop) (now : Nat) (root : Path) (effects : List Effect) :
    Except Failure RebuildReport → Prop where
  | whole {world : Surroundings} {scanning : Session} (scans : scanners world scanning) (here : scanning.root = root)
      (within : (scanning.rebuild world now).effects <:+: effects)
      (reads : world.isDirectory root = true → ∀ file ∈ Scan.listed world root, Scan.reads root file = true →
        .read file (world.read file) ∈ effects) :
      ScansRoot scanners now root effects (scanning.rebuild world now).value.2

/-- A scan among effects is among more effects. -/
theorem ScansRoot.widen {scanners : Surroundings → Session → Prop} {now : Nat} {root : Path}
    {effects more : List Effect} {outcome : Except Failure RebuildReport}
    (h : ScansRoot scanners now root effects outcome) (within : effects <:+: more) :
    ScansRoot scanners now root more outcome := by
  cases h with
  | whole scans here inner reads =>
    exact .whole scans here (inner.trans within) fun hroot file hlisted hreads =>
      within.subset (reads hroot file hlisted hreads)

/-- A scan whose effects are among others is a scan of the root of its session. -/
theorem ScansRoot.of_rebuild {scanners : Surroundings → Session → Prop} {world : Surroundings} {now : Nat}
    {session : Session} {effects : List Effect} (scans : scanners world session)
    (within : (session.rebuild world now).effects <:+: effects) :
    ScansRoot scanners now session.root effects (session.rebuild world now).value.2 :=
  .whole scans rfl within fun hroot _ hlisted hreads =>
    within.subset (rebuild_reads world now session hroot hlisted hreads)

/-- What a part of a poll does to the scan and the drain that may be due: they stay due, or the one was done and
the other is not due because of a scan or a move of the root. -/
structure Works (scanners : Surroundings → Session → Prop) (now : Nat) (before : Session) (turn : Turn Session) :
    Prop where
  timing : turn.value.timing = before.timing
  rescan : (turn.value.rescanDue = before.rescanDue ∧ turn.value.root = before.root)
    ∨ (turn.value.rescanDue = none ∧ ∃ outcome, ScansRoot scanners now turn.value.root turn.effects outcome)
  drain : (turn.value.drainDue = before.drainDue ∧ turn.value.pending = before.pending)
    ∨ ((∀ due, turn.value.drainDue = some due → now < due)
      ∧ ((∃ root, .watch root ∈ turn.effects)
        ∨ ∃ report, ScansRoot scanners now turn.value.root turn.effects (.ok report)))

namespace Works

variable {scanners : Surroundings → Session → Prop} {world : Surroundings} {now : Nat} {session : Session}

/-- A part of a poll that leaves root, deadlines and marks alone leaves what is due for the others. -/
theorem idle (effects : List Effect) {other : Session} (timing : other.timing = session.timing)
    (root : other.root = session.root) (rescanDue : other.rescanDue = session.rescanDue)
    (drainDue : other.drainDue = session.drainDue) (pending : other.pending = session.pending) :
    Works scanners now session ⟨other, effects⟩ :=
  ⟨timing, .inl ⟨rescanDue, root⟩, .inl ⟨drainDue, pending⟩⟩

/-- What is done before and after does not matter. -/
theorem widen {turn : Turn Session} {effects : List Effect} (works : Works scanners now session turn)
    (within : turn.effects <:+: effects) : Works scanners now session ⟨turn.value, effects⟩ := by
  refine ⟨works.timing, works.rescan.imp id ?_, works.drain.imp id ?_⟩
  · rintro ⟨hnone, outcome, hscans⟩
    exact ⟨hnone, outcome, hscans.widen within⟩
  · rintro ⟨hlater, ⟨root, hwatch⟩ | ⟨report, hscans⟩⟩
    · exact ⟨hlater, .inl ⟨root, within.subset hwatch⟩⟩
    · exact ⟨hlater, .inr ⟨report, hscans.widen within⟩⟩

/-- One part after another that does not move the root. -/
theorem followed {first second : Turn Session} (works : Works scanners now session first)
    (then_works : Works scanners now first.value second) (root : second.value.root = first.value.root) :
    Works scanners now session ⟨second.value, first.effects ++ second.effects⟩ := by
  have hfirst : first.effects <:+: first.effects ++ second.effects := (List.prefix_append _ _).isInfix
  have hsecond : second.effects <:+: first.effects ++ second.effects := (List.suffix_append _ _).isInfix
  have hlater := then_works.widen hsecond
  refine ⟨then_works.timing.trans works.timing, ?_, ?_⟩
  · rcases hlater.rescan with ⟨hdue, hroot⟩ | hscanned
    · rcases works.rescan with ⟨hbefore, hbeforeRoot⟩ | ⟨hnone, outcome, hscans⟩
      · exact .inl ⟨hdue.trans hbefore, hroot.trans hbeforeRoot⟩
      · refine .inr ⟨hdue.trans hnone, outcome, ?_⟩
        dsimp only
        rw [root]
        exact hscans.widen hfirst
    · exact .inr hscanned
  · rcases hlater.drain with ⟨hdue, hpending⟩ | hscanned
    · rcases works.drain with ⟨hbefore, hbeforePending⟩ | ⟨hafter, hwhy⟩
      · exact .inl ⟨hdue.trans hbefore, hpending.trans hbeforePending⟩
      · refine .inr ⟨fun due hsome => hafter due (hdue.symm.trans hsome), ?_⟩
        rcases hwhy with ⟨moved, hwatch⟩ | ⟨report, hscans⟩
        · exact .inl ⟨moved, hfirst.subset hwatch⟩
        · refine .inr ⟨report, ?_⟩
          dsimp only
          rw [root]
          exact hscans.widen hfirst
    · exact .inr hscanned

/-- The time of the next try lies ahead. -/
theorem retry_later {pending : Pending} (positive : 0 < session.timing.retry) {due : Nat}
    (h : (if pending.isEmpty then none else some (now + session.timing.retry)) = some due) : now < due := by
  split at h
  · cases h
  · obtain rfl := Option.some.inj h
    omega

/-- A scan that is among effects was done; and it has read the pending files, or it has failed. -/
theorem of_rebuild {effects : List Effect} (scans : scanners world session) (positive : 0 < session.timing.retry)
    (within : (session.rebuild world now).effects <:+: effects) :
    Works scanners now session ⟨(session.rebuild world now).value.1, effects⟩
      ∧ (session.rebuild world now).value.1.rescanDue = none
      ∧ ∃ outcome, ScansRoot scanners now (session.rebuild world now).value.1.root effects outcome := by
  obtain ⟨catalog, pending, due, hvalue, houtcome⟩ := rebuild_frame world now session
  have hscans : ScansRoot scanners now session.root effects (session.rebuild world now).value.2 :=
    .of_rebuild scans within
  rw [hvalue]
  refine ⟨⟨rfl, .inr ⟨rfl, _, hscans⟩, ?_⟩, rfl, _, hscans⟩
  rcases houtcome with ⟨⟨report, hreport⟩, rfl⟩ | ⟨rfl, rfl⟩
  · rw [hreport] at hscans
    exact .inr ⟨fun due hdue => retry_later positive hdue, .inr ⟨report, hscans⟩⟩
  · exact .inl ⟨rfl, rfl⟩

/-- New settings may ask for a scan, which then is that of the session under them. -/
theorem applied {settings : Settings} {turn : Turn Session}
    (scans : scanners world (session.underSettings world turn.value.settings)) (positive : 0 < session.timing.retry)
    (applied : SettingsApplied world now session settings turn) : Works scanners now session turn := by
  cases applied with
  | same => exact idle _ rfl rfl rfl rfl rfl
  | announced => exact idle _ rfl rfl rfl rfl rfl
  | @rebuilt told asides moved =>
    have hunder : (session.underSettings world settings).timing = session.timing := by
      unfold Session.underSettings
      split <;> rfl
    rw [← hunder] at positive
    rw [rebuild_settings, underSettings_settings] at scans
    obtain ⟨hworks, hnone, hscans⟩ := of_rebuild scans positive (List.suffix_append (.publishSettings settings :: told)
      ((session.underSettings world settings).rebuild world now).effects).isInfix
    refine ⟨hworks.timing.trans hunder, .inr ⟨hnone, hscans⟩, ?_⟩
    by_cases hpath : session.settings.declarationPath = settings.declarationPath
    · have hsame : session.underSettings world settings = { session with settings := settings } := if_pos hpath
      have hdrain := hworks.drain
      rw [hsame] at hdrain ⊢
      exact hdrain
    · -- what was pending belonged to the old root
      obtain ⟨root, hwatch⟩ := moved hpath
      have hdue : (session.underSettings world settings).drainDue = none := by
        unfold Session.underSettings
        rw [if_neg hpath]
      refine .inr ⟨fun due hsome => ?_, .inl ⟨root, ?_⟩⟩
      · rcases hworks.drain with ⟨hbefore, -⟩ | ⟨hlater, -⟩
        · cases hsome.symm.trans (hbefore.trans hdue)
        · exact hlater due hsome
      · exact List.mem_append_left _ (List.mem_cons_of_mem _ hwatch)

/-- Loading the settings file leaves a due scan and a due drain as they were, or makes them pointless. -/
theorem loaded {attempts : Nat} {turn : Turn Session}
    (scans : scanners world (({ session with reload := none } : Session).underSettings world turn.value.settings))
    (positive : 0 < session.timing.retry) (loaded : SettingsLoaded world now session attempts turn) :
    Works scanners now session turn := by
  cases loaded with
  | @applied settings turn outcome =>
    have happlied : Works scanners now { session with reload := none } turn := applied scans positive outcome
    have hwider := happlied.widen
      (List.suffix_cons (.read session.settingsFile (world.read session.settingsFile)) turn.effects).isInfix
    exact ⟨hwider.timing, hwider.rescan, hwider.drain⟩
  | refused => exact idle _ rfl rfl rfl rfl rfl
  | postponed => exact idle _ rfl rfl rfl rfl rfl

/-- The reload of a poll leaves a due scan and a due drain as they were, or makes them pointless. -/
theorem reloadIfDue
    (scans : scanners world
      (({ session with reload := none } : Session).underSettings world (session.reloadIfDue world now).value.settings))
    (positive : 0 < session.timing.retry) : Works scanners now session (session.reloadIfDue world now) := by
  unfold Session.reloadIfDue at scans ⊢
  cases hreload : session.reload with
  | none => exact idle _ rfl rfl rfl rfl rfl
  | some reload =>
    rw [hreload] at scans
    dsimp only at scans ⊢
    by_cases hdue : reload.due ≤ now
    · rw [if_pos hdue] at scans ⊢
      exact loaded scans positive (reloadSettings_loaded world now session _)
    · rw [if_neg hdue]
      exact idle _ rfl rfl rfl rfl rfl

/-- The scan of a poll is done if it is due, and a drain is then due only for files to be tried again. -/
theorem rescanIfDue (scans : scanners world session) (positive : 0 < session.timing.retry) :
    Works scanners now session (session.rescanIfDue world now) := by
  cases hdue : isDue session.rescanDue now with
  | true =>
    rw [rescanIfDue_of_due hdue]
    exact (of_rebuild scans positive List.infix_rfl).1
  | false =>
    rw [rescanIfDue_of_not_due hdue]
    exact idle _ rfl rfl rfl rfl rfl

end Works

section

variable (world atReload atRescan atDrain : Surroundings) (now : Nat) (session : Session)

/-- New settings are not loaded again. -/
theorem applied_reload {settings : Settings} {turn : Turn Session}
    (applied : SettingsApplied world now session settings turn) : turn.value.reload = session.reload := by
  cases applied with
  | same => rfl
  | announced => rfl
  | rebuilt =>
    obtain ⟨_, _, _, hvalue, -⟩ := rebuild_frame world now (session.underSettings world settings)
    rw [hvalue]
    unfold underSettings
    split <;> rfl

/-- If the settings are to be loaded at some time, the file is read then, and tried again later if at all. -/
theorem reloadIfDue_later (positive : 0 < session.timing.retry) :
    ((session.reloadIfDue world now).value.reload = session.reload
        ∧ ∀ reload, session.reload = some reload → now < reload.due)
      ∨ (.read session.settingsFile (world.read session.settingsFile) ∈ (session.reloadIfDue world now).effects
        ∧ ∀ reload, (session.reloadIfDue world now).value.reload = some reload → now < reload.due) := by
  unfold reloadIfDue
  cases hreload : session.reload with
  | none =>
    refine .inl ⟨hreload, fun reload h => ?_⟩
    cases h
  | some reload =>
    dsimp only
    split
    · right
      have hloaded := reloadSettings_loaded world now session reload.attempts
      generalize session.reloadSettings world now reload.attempts = turn at hloaded
      cases hloaded with
      | applied outcome =>
        refine ⟨List.mem_cons_self, fun later h => ?_⟩
        cases (applied_reload world now _ outcome).symm.trans h
      | refused =>
        refine ⟨List.mem_cons_self, fun later h => ?_⟩
        cases h
      | postponed =>
        refine ⟨List.mem_cons_self, fun later h => ?_⟩
        obtain rfl := Option.some.inj h
        dsimp only
        omega
    · next hlater =>
      refine .inl ⟨hreload, fun other h => ?_⟩
      obtain rfl := Option.some.inj h
      omega

/-- A scan that may be due does not put off the settings and leaves no scan due. -/
theorem rescanIfDue_later :
    (session.rescanIfDue world now).value.reload = session.reload
      ∧ (session.rescanIfDue world now).value.root = session.root
      ∧ ∀ due, (session.rescanIfDue world now).value.rescanDue = some due → now < due := by
  cases hdue : isDue session.rescanDue now with
  | true =>
    obtain ⟨_, _, _, hvalue, -⟩ := rebuild_frame world now session
    rw [rescanIfDue_of_due hdue, hvalue]
    refine ⟨rfl, rfl, fun due h => ?_⟩
    cases h
  | false =>
    rw [rescanIfDue_of_not_due hdue]
    refine ⟨rfl, rfl, fun due h => ?_⟩
    rw [Turn.value_pure] at h
    rw [h] at hdue
    simpa [isDue] using hdue

/-- A drain that may be due changes neither of the others, and the next one lies ahead. -/
theorem drainIfDue_later (positive : 0 < session.timing.retry) :
    (session.drainIfDue world now).value.reload = session.reload
      ∧ (session.drainIfDue world now).value.root = session.root
      ∧ (session.drainIfDue world now).value.rescanDue = session.rescanDue
      ∧ ∀ due, (session.drainIfDue world now).value.drainDue = some due → now < due := by
  unfold drainIfDue
  split
  · obtain ⟨_, _, hvalue⟩ := drain_frame world now session
    rw [hvalue]
    exact ⟨rfl, rfl, rfl, fun due hdue => Works.retry_later positive hdue⟩
  · next hdue =>
    refine ⟨rfl, rfl, rfl, fun due h => ?_⟩
    rw [Turn.value_pure] at h
    rw [h] at hdue
    simpa [isDue] using hdue

end

/-- The sessions that may scan in a poll, each in the surroundings of its part of the poll. -/
inductive Scanner (atReload atRescan : Surroundings) (now : Nat) (before : Session) :
    Surroundings → Session → Prop where
  /-- The session under the settings that the reload has put in effect: it scans if they ask for that. -/
  | resettled : Scanner atReload atRescan now before atReload
      (({ before with reload := none } : Session).underSettings atReload
        (before.reloadIfDue atReload now).value.settings)
  /-- The session that the reload leaves: it scans if that is due. -/
  | reloaded : Scanner atReload atRescan now before atRescan (before.reloadIfDue atReload now).value

/-- What a poll has come to: nothing that is due is left, and what was due was done, or a scan or a move of the root
has made it pointless. -/
structure Polled (atReload atRescan atDrain : Surroundings) (now : Nat) (before : Session) (turn : Turn Session) :
    Prop where
  later : ∀ due ∈ turn.value.deadlines, now < due
  reloaded : ∀ reload, before.reload = some reload → reload.due ≤ now →
    .read before.settingsFile (atReload.read before.settingsFile) ∈ turn.effects
  rescanned : isDue before.rescanDue now = true →
    ∃ outcome, ScansRoot (Scanner atReload atRescan now before) now turn.value.root turn.effects outcome
  drained : isDue before.drainDue now = true →
    (∀ file ∈ before.pending.paths, .read file (atDrain.read file) ∈ turn.effects)
      ∨ (∃ root, .watch root ∈ turn.effects)
      ∨ ∃ report, ScansRoot (Scanner atReload atRescan now before) now turn.value.root turn.effects (.ok report)

/-- A drain that is due reads every pending file. -/
theorem drainIfDue_reads (world : Surroundings) (now : Nat) (session : Session)
    (h : isDue session.drainDue now = true) :
    ∀ file ∈ session.pending.paths, .read file (world.read file) ∈ (session.drainIfDue world now).effects := by
  intro file hfile
  obtain ⟨read, hread, hdrain⟩ := drain_eq world now session
  unfold drainIfDue
  rw [if_pos h, hdrain]
  refine List.mem_append_left _ ?_
  rw [hread]
  exact (foldlM_drainFile_effects world _ _).2 file hfile

/-- After a poll nothing is due any more. -/
theorem pollIn_later (atReload atRescan atDrain : Surroundings) (now : Nat) (session : Session)
    (positive : 0 < session.timing.retry) :
    ∀ due ∈ (session.pollIn atReload atRescan atDrain now).value.deadlines, now < due := by
  have hreload := reloadIfDue_later atReload now session positive
  have hreloadWorks : Works (fun _ _ => True) now session (session.reloadIfDue atReload now) :=
    .reloadIfDue trivial positive
  unfold pollIn
  generalize session.reloadIfDue atReload now = reloading at hreload hreloadWorks
  have hpositive : 0 < reloading.value.timing.retry := hreloadWorks.timing ▸ positive
  obtain ⟨hrescanReload, -, hrescanLater⟩ := rescanIfDue_later atRescan now reloading.value
  have hrescanWorks : Works (fun _ _ => True) now reloading.value (reloading.value.rescanIfDue atRescan now) :=
    .rescanIfDue trivial hpositive
  dsimp only [bind]
  generalize reloading.value.rescanIfDue atRescan now = rescanning at *
  have hlastPositive : 0 < rescanning.value.timing.retry := hrescanWorks.timing ▸ hpositive
  obtain ⟨hlastReload, -, hlastRescan, hlastLater⟩ := drainIfDue_later atDrain now rescanning.value hlastPositive
  intro due hdue
  rcases mem_deadlines.mp hdue with hsome | hsome | hsome
  · obtain ⟨reload, hloading, rfl⟩ := Option.map_eq_some_iff.mp hsome
    rw [hlastReload, hrescanReload] at hloading
    rcases hreload with ⟨hsame, hlater⟩ | ⟨-, hlater⟩
    · exact hlater reload (hsame ▸ hloading)
    · exact hlater reload hloading
  · exact hrescanLater due (hlastRescan ▸ hsome)
  · exact hlastLater due hsome

/-- A poll does all that is due: the reload comes first, and a scan or a new root that it brings stands for the scan and
the drain that were due. The others are done in their turn. -/
theorem poll_works (atReload atRescan atDrain : Surroundings) (now : Nat) (session : Session)
    (positive : 0 < session.timing.retry) :
    Polled atReload atRescan atDrain now session (session.pollIn atReload atRescan atDrain now) := by
  have hlater := pollIn_later atReload atRescan atDrain now session positive
  -- the settings first
  have hreload := reloadIfDue_later atReload now session positive
  have hreloadWorks : Works (Scanner atReload atRescan now session) now session (session.reloadIfDue atReload now) :=
    .reloadIfDue .resettled positive
  have hreloaded : Scanner atReload atRescan now session atRescan (session.reloadIfDue atReload now).value := .reloaded
  unfold pollIn at hlater ⊢
  generalize session.reloadIfDue atReload now = reloading at *
  -- then the scan
  have hpositive : 0 < reloading.value.timing.retry := hreloadWorks.timing ▸ positive
  obtain ⟨-, hrescanRoot, -⟩ := rescanIfDue_later atRescan now reloading.value
  have hrescanWorks : Works (Scanner atReload atRescan now session) now reloading.value
      (reloading.value.rescanIfDue atRescan now) :=
    .rescanIfDue hreloaded hpositive
  have hscanned : isDue reloading.value.rescanDue now = true → ∃ outcome,
      ScansRoot (Scanner atReload atRescan now session) now reloading.value.root
        (reloading.value.rescanIfDue atRescan now).effects outcome := by
    intro hdue
    rw [rescanIfDue_of_due hdue]
    exact ⟨_, .of_rebuild hreloaded List.infix_rfl⟩
  have hboth := hreloadWorks.followed hrescanWorks hrescanRoot
  dsimp only [bind] at hlater ⊢
  generalize reloading.value.rescanIfDue atRescan now = rescanning at *
  -- then the pending files
  obtain ⟨-, hlastRoot, -⟩ := drainIfDue_later atDrain now rescanning.value (hrescanWorks.timing ▸ hpositive)
  have hreads := drainIfDue_reads atDrain now rescanning.value
  generalize rescanning.value.drainIfDue atDrain now = draining at *
  have hroot : draining.value.root = reloading.value.root := hlastRoot.trans hrescanRoot
  have hearly : reloading.effects ++ rescanning.effects <:+:
      reloading.effects ++ (rescanning.effects ++ draining.effects) := by
    rw [← List.append_assoc]
    exact (List.prefix_append _ _).isInfix
  refine ⟨hlater, fun reload hsome hdue => ?_, fun hdue => ?_, fun hdue => ?_⟩
  · rcases hreload with ⟨-, hahead⟩ | ⟨hread, -⟩
    · have := hahead reload hsome
      omega
    · exact List.mem_append_left _ hread
  · dsimp only
    rw [hroot]
    rcases hreloadWorks.rescan with ⟨hsame, -⟩ | ⟨-, outcome, hscans⟩
    · obtain ⟨outcome, hscans⟩ := hscanned (hsame ▸ hdue)
      exact ⟨outcome, (hscans.widen (List.suffix_append _ _).isInfix).widen hearly⟩
    · exact ⟨outcome, hscans.widen (List.prefix_append _ _).isInfix⟩
  · rcases hboth.drain with ⟨hsame, hpending⟩ | ⟨-, ⟨root, hwatch⟩ | ⟨report, hscans⟩⟩
    · left
      intro file hfile
      dsimp only at hsame hpending
      rw [← hpending] at hfile
      have hread := hreads (hsame ▸ hdue) file hfile
      exact List.mem_append_right _ (List.mem_append_right _ hread)
    · exact .inr (.inl ⟨root, hearly.subset hwatch⟩)
    · refine .inr (.inr ⟨report, ?_⟩)
      dsimp only at hscans ⊢
      rw [hlastRoot]
      exact hscans.widen hearly

/-! ## Runs -/

/-- What was due stays due at the same time. -/
structure Keeps (before after : Session) : Prop where
  drain : ∀ due, before.drainDue = some due → after.drainDue = some due
  rescan : ∀ due, before.rescanDue = some due → after.rescanDue = some due
  reload : ∀ reload, before.reload = some reload → after.reload = some reload

namespace Keeps

variable {before between after session : Session} {world : Surroundings} {now : Nat}

/-- What does not touch the deadlines keeps them. -/
theorem refl (drainDue : after.drainDue = before.drainDue) (rescanDue : after.rescanDue = before.rescanDue)
    (reload : after.reload = before.reload) : Keeps before after :=
  ⟨fun _ h => drainDue.trans h, fun _ h => rescanDue.trans h, fun _ h => reload.trans h⟩

/-- What is kept by one step and then by another is kept by both. -/
theorem trans (h : Keeps before between) (later : Keeps between after) : Keeps before after :=
  ⟨fun due hdue => later.drain due (h.drain due hdue), fun due hdue => later.rescan due (h.rescan due hdue),
    fun reload hreload => later.reload reload (h.reload reload hreload)⟩

/-- Asking for a drain does not put off one that is due. -/
theorem requestDrain (pending : Pending) : Keeps session (({ session with pending := pending }).requestDrain now) := by
  refine ⟨fun due hdue => ?_, fun _ h => h, fun _ h => h⟩
  simp only [Session.requestDrain, hdue, Option.some_or]

/-- Asking for a scan does not put off one that is due. -/
theorem requestRescan : Keeps session (session.requestRescan now) := by
  refine ⟨fun _ h => h, fun due hdue => ?_, fun _ h => h⟩
  simp only [Session.requestRescan, hdue, Option.some_or]

/-- Asking for a reload does not put off one that is due. -/
theorem requestReload : Keeps session (session.requestReload now) := by
  refine ⟨fun _ h => h, fun _ h => h, fun reload hreload => ?_⟩
  simp only [Session.requestReload, hreload, Option.some_or]

/-- A touch puts off nothing that is due. -/
theorem touch (path : Path) : Keeps session (session.touch world now path) := by
  have htouched := touch_touched world now session path
  generalize session.touch world now path = after at htouched
  cases htouched with
  | marked => exact requestDrain _
  | rescanned => exact requestRescan
  | ignored => exact refl rfl rfl rfl

/-- The news of a removal put off nothing that is due. -/
theorem remove (path : Path) : Keeps session (session.remove path).value := by
  rw [remove_value]
  exact refl rfl rfl rfl

/-- The news of a renaming put off nothing that is due. -/
theorem rename (source target : Path) : Keeps session (session.rename world now source target).value := by
  have hrenamed := rename_renamed world now session source target
  generalize session.rename world now source target = turn at hrenamed
  cases hrenamed with
  | ignored => exact refl rfl rfl rfl
  | rescanned =>
    have hsame : Keeps session { session with pending := session.pending.eraseBelow source } := refl rfl rfl rfl
    exact hsame.trans requestRescan
  | moved => exact refl rfl rfl rfl
  | replaced => exact (remove source).trans (touch target)
  | arrived =>
    have hsame : Keeps session { session with pending := session.pending.erase source } := refl rfl rfl rfl
    exact hsame.trans (touch target)

/-- News never put off what is due. -/
theorem act {command : Command} (news : command.IsNews) :
    Keeps session (session.act (.handle world now command)).value := by
  cases command with
  | touched path => exact touch path
  | removed path =>
    rw [act_removed]
    exact remove path
  | renamed source target =>
    rw [act_renamed]
    exact rename source target
  | settingsTouched => exact requestReload
  | settingsRemoved | rebuild | shutdown => cases news

end Keeps

/-- After any run in the order of time: while a file is pending, a drain is due, so that the session will be woken;
no deadline is later than the last deed and the longer of the two waiting times; news of changes leave every
deadline where it is; and after a poll no deadline has come, all that was due having been done or made pointless by
a scan or a move of the root. -/
theorem run_wakes (world : Surroundings) (base : Path) (settings : Settings) (timing : Timing)
    (positive : 0 < timing.retry) (deeds : List Deed) (ordered : (deeds.map Deed.time).Pairwise (· ≤ ·)) :
    let session := ((Session.start world base settings timing).run deeds).value
    (session.pending.isEmpty = false →
        ∃ due next, session.drainDue = some due ∧ session.nextDeadline = some next ∧ next ≤ due)
      ∧ (∀ due ∈ session.deadlines,
        due ≤ (deeds.map Deed.time).getLastD 0 + max timing.quiescence timing.retry)
      ∧ (∀ world now command, command.IsNews →
        Keeps session (session.act (.handle world now command)).value)
      ∧ ∀ atReload atRescan atDrain now,
        Polled atReload atRescan atDrain now session (session.act (.poll atReload atRescan atDrain now)) := by
  intro session
  have hpunctual : Punctual timing ((deeds.map Deed.time).getLastD 0) session :=
    (Punctual.start 0 world base settings timing).run (List.pairwise_cons.mpr ⟨fun _ _ => Nat.zero_le _, ordered⟩)
  refine ⟨fun hpending => ?_, fun due hdue => ?_, fun _ _ _ news => Keeps.act news, fun _ _ _ now => ?_⟩
  · obtain ⟨due, hdue⟩ := hpunctual.awake hpending
    obtain ⟨next, hnext, hle⟩ := exists_nextDeadline (mem_deadlines.mpr (.inr (.inr hdue)))
    exact ⟨due, next, hdue, hnext, hle⟩
  · rcases mem_deadlines.mp hdue with hsome | hsome | hsome
    · obtain ⟨reload, hreload, rfl⟩ := Option.map_eq_some_iff.mp hsome
      exact hpunctual.reload_le reload hreload
    · exact hpunctual.rescan_le due hsome
    · exact hpunctual.drain_le due hsome
  · rw [← hpunctual.timed] at positive
    exact poll_works _ _ _ now session positive

/-- A file that was touched and could not be read for now is waited for. -/
theorem run_wakes_locked :
    let world := Surroundings.ofFile ⟨"/w/a.d.ts"⟩ (.failed ⟨.permissionDenied, "locked"⟩)
    let deeds : List Deed := [.handle world 0 (.touched ⟨"/w/a.d.ts"⟩), .poll world world world 500]
    let session := ((Session.start world ⟨"/w"⟩ .default {}).run deeds).value
    0 < ({} : Timing).retry ∧ (deeds.map Deed.time).Pairwise (· ≤ ·) ∧ session.pending.isEmpty = false
      ∧ ∃ due next, session.drainDue = some due ∧ session.nextDeadline = some next ∧ next ≤ due
        ∧ due ≤ 500 + 1000 := by
  intro world deeds session
  have hpositive : 0 < ({} : Timing).retry := by decide
  have hordered : (deeds.map Deed.time).Pairwise (· ≤ ·) := by decide
  have hpending : session.pending.isEmpty = false := by decide +kernel
  obtain ⟨hwakes, hbound, -⟩ := run_wakes world ⟨"/w"⟩ .default {} hpositive deeds hordered
  obtain ⟨due, next, hdue, hnext, hle⟩ := hwakes hpending
  exact ⟨hpositive, hordered, hpending, due, next, hdue, hnext, hle,
    hbound due (mem_deadlines.mpr (.inr (.inr hdue)))⟩

end Session

end TypingsIndex
