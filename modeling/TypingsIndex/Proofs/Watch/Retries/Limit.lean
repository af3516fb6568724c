import TypingsIndex.Proofs.Watch.Retries.GivingUp

/-!
# The limit on failed reads

With a limit no count ever reaches it: the read that would make it so gives the file up instead (`BelowLimit.work`).
What is given up in a step of work can be told from the tally before it (`Tally.givenUp`), and so nothing is given up
early, late, or more than once.
-/

set_option autoImplicit false

namespace TypingsIndex

/-- With a limit, patience is exhausted once there are that many attempts. -/
theorem Timing.exhausted_iff {timing : Timing} {limit attempts : Nat} (limited : timing.maxAttempts = some limit) :
    timing.exhausted attempts = true ↔ limit ≤ attempts := by
  simp [exhausted, limited]

/-- A step of work in surroundings in which a failure to watch is not told as something that was given up. -/
def Session.Part.WatchGivesNothingUp : Session.Part → Prop
  | .handle world _ _ => world.WatchGivesNothingUp
  | .reload world _ => world.WatchGivesNothingUp
  | .rescan world _ => world.WatchGivesNothingUp
  | .drain world _ => world.WatchGivesNothingUp

/-- If the counts of all marks are below a limit then so is that of any path. -/
theorem Tally.Counts.lt {files : List Path.Component → Nat} {pending : Pending} {limit : Nat}
    (counts : Tally.Counts files pending) (positive : 0 < limit) (below : ∀ entry ∈ pending.entries, entry.2 < limit)
    (path : List Path.Component) : files path < limit := by
  cases hmarked : pending.marks path with
  | false =>
    rw [counts.unmarked path hmarked]
    exact positive
  | true =>
    obtain ⟨marked, hmember, hsame⟩ := Pending.marks_iff.mp hmarked
    obtain ⟨entry, hentry, rfl⟩ := List.mem_map.mp hmember
    rw [← hsame, ← counts.marked entry hentry]
    exact below entry hentry

namespace Session

variable {session : Session} {tally : Tally} {limit : Nat}

/-- A step of work other than a drain brings no count to the limit. -/
theorem recount_lt {files : List Path.Component → Nat} (positive : 0 < limit) (below : ∀ path, files path < limit)
    (part : Part) (other : ∀ world now, part ≠ .drain world now) (path : List Path.Component) :
    session.recount files part path < limit := by
  have hscanned : ∀ effects, (if Effect.endsTelling effects then fun _ => 0 else files) path < limit := by
    intro effects
    split
    · exact positive
    · exact below path
  have hrenamed : ∀ source target, session.recountRenamed files source target path < limit := by
    intro source target
    unfold recountRenamed
    split
    · split
      · dsimp only
        split
        · exact below source.components
        · exact below path
      · exact below path
    · dsimp only
      split
      · exact below path
      · exact positive
  cases part with
  | handle world now command =>
    cases command with
    | touched | removed | settingsTouched | shutdown => exact below path
    | renamed source target => exact hrenamed source target
    | settingsRemoved | rebuild => exact hscanned _
  | reload | rescan => exact hscanned _
  | drain world now => exact absurd rfl (other world now)

/-- No count of failed reads has reached the limit. -/
structure BelowLimit (limit : Nat) (session : Session) : Prop where
  files : ∀ entry ∈ session.pending.entries, entry.2 < limit
  reload : ∀ reload, session.reload = some reload → reload.attempts < limit

/-- No count reaches the limit in a step of work. -/
theorem BelowLimit.work (below : session.BelowLimit limit) (limited : session.timing.maxAttempts = some limit)
    (positive : 0 < limit) (sound : session.Sound) (fits : tally.Fits session) (part : Part) :
    (session.work part).value.BelowLimit limit := by
  have hpatient : ∀ {attempts}, session.timing.exhausted attempts = false → attempts < limit := fun h =>
    Nat.lt_of_not_le fun hle => Bool.eq_false_iff.mp h ((Timing.exhausted_iff limited).mpr hle)
  -- only a drain raises the count of a file, and it leaves no mark with a count that has reached the limit
  refine ⟨fun entry hentry => ?_, fun reload hreload => ?_⟩
  · by_cases hdrain : ∃ world now, part = .drain world now
    · obtain ⟨world, now, rfl⟩ := hdrain
      change entry ∈ (session.drainIfDue world now).value.pending.entries at hentry
      unfold drainIfDue at hentry
      split at hentry
      · rw [drain_entries sound.rising] at hentry
        obtain ⟨old, -, hagain⟩ := List.mem_filterMap.mp hentry
        obtain ⟨-, hleft, rfl⟩ := again?_eq_some_iff.mp hagain
        exact hpatient hleft
      · exact below.files entry hentry
    · rw [work_recounts sound fits.files part entry hentry]
      exact recount_lt positive (fits.files.lt positive below.files) part
        (fun world now h => hdrain ⟨world, now, h⟩) entry.1.components
  · cases work_reload hreload with
    | kept before => exact below.reload reload before
    | asked _ fresh =>
      rw [fresh]
      exact positive
    | failed _ _ patient => exact hpatient patient

/-! ## What is given up -/

end Session

namespace Tally

/-- What a step of work gives up if reads may fail so many times: the pending files and the settings file whose reads
fail now, in a way that may pass, if one more such read was left to them. -/
def givenUp (tally : Tally) (limit : Nat) (session : Session) : Session.Part → List Effect
  | .drain world now =>
    if Session.isDue session.drainDue now then
      (session.pending.paths.filter fun file =>
        (world.read file).isTransient && tally.files file.components + 1 = limit).map fun file => .gaveUp file limit
    else
      []
  | .reload world now =>
    if (∃ reload ∈ session.reload, reload.due ≤ now) ∧ (world.read session.settingsFile).isTransient = true
        ∧ tally.settings + 1 = limit then
      [.gaveUpSettings session.settingsFile limit]
    else
      []
  | .handle .. | .rescan .. => []

end Tally

namespace Session

variable {session : Session} {tally : Tally} {limit : Nat}

/-- Of a turn that gives nothing up nothing is told of giving up. -/
theorem GivesNothingUp.filter {α : Type} {turn : Turn α} (quiet : GivesNothingUp turn) :
    turn.effects.filter Effect.tellsGivingUp = [] :=
  List.filter_eq_nil_iff.mpr fun effect heffect => Bool.eq_false_iff.mp (quiet effect heffect)

/-- While counts are below the limit, one read more is one too many if it reaches the limit. -/
theorem exhausted_succ {attempts : Nat} (limited : session.timing.maxAttempts = some limit) (below : attempts < limit) :
    session.timing.exhausted (attempts + 1) = decide (attempts + 1 = limit) := by
  rw [Bool.eq_iff_iff, Timing.exhausted_iff limited, decide_eq_true_eq]
  omega

/-- A drain gives up what the tally says. -/
theorem drainIfDue_givesUp (world : Surroundings) (now : Nat) (sound : session.Sound) (fits : tally.Fits session)
    (below : session.BelowLimit limit) (limited : session.timing.maxAttempts = some limit) :
    (session.drainIfDue world now).effects.filter Effect.tellsGivingUp =
      tally.givenUp limit session (.drain world now) := by
  unfold drainIfDue Tally.givenUp
  dsimp only
  split
  · have hreached : ∀ entry ∈ session.pending.entries,
        ((world.read entry.1).isTransient && session.timing.exhausted (entry.2 + 1)) =
          ((world.read entry.1).isTransient && decide (tally.files entry.1.components + 1 = limit)) := by
      intro entry hentry
      rw [exhausted_succ limited (below.files entry hentry), fits.files.marked entry hentry]
    rw [drain_givesUp world now sound, List.filter_congr hreached]
    unfold Pending.paths
    rw [List.filter_map, List.map_map]
    refine List.map_congr_left fun entry hentry => ?_
    obtain ⟨hmember, hlast⟩ := List.mem_filter.mp hentry
    obtain ⟨-, hlast⟩ := Bool.and_eq_true_iff.mp hlast
    rw [fits.files.marked entry hmember, of_decide_eq_true hlast]
    rfl
  · rfl

/-- A load of the settings gives their file up if the tally says so. -/
theorem reloadIfDue_givesUp {world : Surroundings} (watched : world.WatchGivesNothingUp) (now : Nat)
    (fits : tally.Fits session) (below : session.BelowLimit limit)
    (limited : session.timing.maxAttempts = some limit) :
    (session.reloadIfDue world now).effects.filter Effect.tellsGivingUp =
      tally.givenUp limit session (.reload world now) := by
  unfold reloadIfDue Tally.givenUp
  dsimp only
  cases hreload : session.reload with
  | none => simp
  | some reload =>
    simp only [Option.mem_some_iff, exists_eq_left']
    by_cases hdue : reload.due ≤ now
    · rw [if_pos hdue]
      cases htransient : (world.read session.settingsFile).isTransient with
      | false =>
        rw [if_neg fun h => Bool.false_ne_true h.2.1]
        exact (reloadSettings_givesNothingUp now session watched reload.attempts htransient).filter
      | true =>
        have hread : Effect.tellsGivingUp (.read session.settingsFile (world.read session.settingsFile)) = false := rfl
        rw [reloadSettings_of_transient world now session reload.attempts htransient,
          exhausted_succ limited (below.reload reload hreload), fits.reload reload hreload]
        by_cases hlast : tally.settings + 1 = limit
        · have hgave : (Effect.gaveUpSettings session.settingsFile limit).tellsGivingUp = true :=
            Effect.tellsGivingUp_fault (.retriesExhausted session.settingsFile limit)
          rw [if_pos (decide_eq_true hlast), if_pos ⟨hdue, rfl, hlast⟩, hlast,
            List.filter_cons_of_neg (Bool.eq_false_iff.mp hread)]
          exact List.filter_cons_of_pos hgave
        · rw [if_neg (Bool.eq_false_iff.mp (decide_eq_false hlast)), if_neg fun h => hlast h.2.2]
          exact List.filter_cons_of_neg (Bool.eq_false_iff.mp hread)
    · rw [if_neg hdue, if_neg fun h => hdue h.1]
      rfl

/-- A step of work gives up what the tally says. -/
theorem work_givesUp (sound : session.Sound) (fits : tally.Fits session) (below : session.BelowLimit limit)
    (limited : session.timing.maxAttempts = some limit) {part : Part} (watched : part.WatchGivesNothingUp) :
    (session.work part).effects.filter Effect.tellsGivingUp = tally.givenUp limit session part := by
  cases part with
  | handle world now command =>
    rw [work_handle]
    exact (handle_givesNothingUp now session watched command).filter
  | reload world now => exact reloadIfDue_givesUp watched now fits below limited
  | rescan world now =>
    change (session.rescanIfDue world now).effects.filter Effect.tellsGivingUp = []
    unfold rescanIfDue
    split
    · rw [Turn.effects_bind, Turn.effects_pure, List.append_nil]
      exact (rebuild_givesNothingUp world now session).filter
    · rfl
  | drain world now => exact drainIfDue_givesUp world now sound fits below limited

/-! ## Along a run -/

/-- With a limit, the counts of a session are those of the tally, and below the limit. -/
structure WithinLimit (limit : Nat) (tally : Tally) (session : Session) : Prop where
  sound : session.Sound
  limited : session.timing.maxAttempts = some limit
  fits : tally.Fits session
  below : session.BelowLimit limit

/-- A session that starts has counted nothing. -/
theorem WithinLimit.start (world : Surroundings) (base : Path) (settings : Settings) {timing : Timing}
    (limited : timing.maxAttempts = some limit) :
    WithinLimit limit .zero (Session.start world base settings timing) where
  sound := .start world base settings timing
  limited := limited
  fits := .start world base settings timing
  below := ⟨nofun, nofun⟩

/-- A step of work keeps the counts within the limit. -/
theorem WithinLimit.work (within : WithinLimit limit tally session) (positive : 0 < limit) (part : Part) :
    WithinLimit limit (tally.next session part) (session.work part).value where
  sound := within.sound.work part
  limited := by
    rw [work_timing]
    exact within.limited
  fits := within.fits.next within.sound part
  below := within.below.work within.limited positive within.sound within.fits part

/-- Steps of work keep the counts within the limit. -/
theorem WithinLimit.workAll (within : WithinLimit limit tally session) (positive : 0 < limit) (parts : List Part) :
    WithinLimit limit (tally.after session parts) (session.workAll parts).value := by
  induction parts generalizing tally session with
  | nil => exact within
  | cons part rest ih =>
    rw [workAll_cons]
    exact ih (within.work positive part)

/-- What a step of work does about failed reads, with a limit on them and after what the tally has counted. -/
structure RetriesBy (limit : Nat) (tally : Tally) (session : Session) (part : Part) : Prop where
  /-- Nothing is given up but what has reached the limit by the tally, and with so many attempts. -/
  told : (session.work part).effects.filter Effect.tellsGivingUp = tally.givenUp limit session part
  /-- A drain takes away the marks of files that it gives up or need not read again, and counts for the others. -/
  drained : ∀ world now, part = .drain world now → isDue session.drainDue now = true →
    (session.work part).value.reload = session.reload
      ∧ (session.work part).value.pending.entries = session.pending.entries.filterMap fun entry =>
        if (world.read entry.1).isTransient = true ∧ entry.2 + 1 < limit then some (entry.1, entry.2 + 1) else none
  /-- Where the settings file is given up it is not to be loaded any more, and that is all. -/
  unloaded : ∀ world now, part = .reload world now → tally.givenUp limit session part ≠ [] →
    (session.work part).value = { session with reload := none }
  touched : ∀ world now path, part = .handle world now (.touched path) → session.pending.contains path = true →
    (session.work part).value.pending = session.pending

/-- A drain with a limit keeps those files whose reads fail in a way that may pass, one failure further, and drops those
that reach the limit. -/
theorem drainIfDue_drops {world : Surroundings} {now : Nat} (sound : session.Sound)
    (limited : session.timing.maxAttempts = some limit) (due : isDue session.drainDue now = true) :
    (session.drainIfDue world now).value.pending.entries = session.pending.entries.filterMap fun entry =>
      if (world.read entry.1).isTransient = true ∧ entry.2 + 1 < limit then some (entry.1, entry.2 + 1) else none := by
  unfold drainIfDue
  rw [if_pos due, drain_entries sound.rising]
  refine List.filterMap_congr fun entry _ => ?_
  have hpatient : session.timing.exhausted (entry.2 + 1) = false ↔ entry.2 + 1 < limit := by
    rw [← Bool.not_eq_true, Timing.exhausted_iff limited, Nat.not_le]
  unfold again?
  simp only [Bool.and_eq_true, Bool.not_eq_true', hpatient]

/-- A reload that gives up the settings file is not due any more, and changes nothing else. -/
theorem reloadIfDue_drops {world : Surroundings} {now : Nat} (within : WithinLimit limit tally session)
    (given : tally.givenUp limit session (.reload world now) ≠ []) :
    (session.reloadIfDue world now).value = { session with reload := none } := by
  unfold Tally.givenUp at given
  obtain ⟨⟨reload, hreload, hdue⟩, htransient, hlast⟩ :=
    Decidable.of_not_not fun h => given (if_neg h)
  have hattempts : session.timing.exhausted (reload.attempts + 1) = true := by
    rw [exhausted_succ within.limited (within.below.reload reload hreload), within.fits.reload reload hreload, hlast,
      decide_eq_true rfl]
  unfold reloadIfDue
  rw [Option.mem_def.mp hreload]
  dsimp only
  rw [if_pos hdue, reloadSettings_of_transient world now session reload.attempts htransient, if_pos hattempts]

/-- A touch of a marked file leaves the marks and their counts as they are. -/
theorem touch_pending_of_marked {world : Surroundings} {now : Nat} {path : Path}
    (marked : session.pending.contains path = true) : (session.touch world now path).pending = session.pending := by
  have htouched := touch_touched world now session path
  generalize session.touch world now path = after at htouched
  cases htouched with
  | marked => exact if_pos marked
  | rescanned => rfl
  | ignored => rfl

/-- Reads are tried again a bounded number of times. With a limit, after any steps of work, each pending file has the
count that the tally gives it, and so has a load of the settings that is to be done. All counts are below the limit and
so can grow by one more as a number of 32 bits. In a further step just those files are given up whose reads fail for
the last of the allowed times. -/
theorem workAll_retries (world : Surroundings) (base : Path) (settings : Settings) {timing : Timing} {limit : UInt32}
    (limited : timing.maxAttempts = some limit.toNat) (positive : 0 < limit.toNat) (parts : List Part) :
    let opened := Session.start world base settings timing
    let tally := Tally.zero.after opened parts
    let session := (opened.workAll parts).value
    tally.Fits session ∧ session.BelowLimit limit.toNat
      ∧ (∀ entry ∈ session.pending.entries, entry.2 + 1 < UInt32.size)
      ∧ (∀ reload, session.reload = some reload → reload.attempts + 1 < UInt32.size)
      ∧ ∀ part : Part, part.WatchGivesNothingUp → session.RetriesBy limit.toNat tally part := by
  intro opened tally session
  have hwithin : WithinLimit limit.toNat tally session :=
    (WithinLimit.start world base settings limited).workAll positive parts
  have hword : ∀ {count : Nat}, count < limit.toNat → count + 1 < UInt32.size :=
    fun h => Nat.lt_of_le_of_lt h limit.toNat_lt_size
  refine ⟨hwithin.fits, hwithin.below, fun entry hentry => hword (hwithin.below.files entry hentry),
    fun reload hreload => hword (hwithin.below.reload reload hreload), fun part hwatched => ?_⟩
  refine ⟨work_givesUp hwithin.sound hwithin.fits hwithin.below hwithin.limited hwatched, ?_, ?_, ?_⟩
  · rintro drainWorld now rfl hdue
    have hkept := (KeepsSettings.drainIfDue drainWorld now session).reload
    exact ⟨hkept, drainIfDue_drops hwithin.sound hwithin.limited hdue⟩
  · rintro reloadWorld now rfl hgiven
    exact reloadIfDue_drops hwithin hgiven
  · rintro touchWorld now path rfl hmarked
    exact touch_pending_of_marked hmarked

/-- A file that cannot be read is given up at its second read, also if it is touched in between. -/
theorem workAll_retries_twice :
    let file : Path := ⟨"/w/a.d.ts"⟩
    let locked : Surroundings := .ofFile file (.failed ⟨.permissionDenied, "locked"⟩)
    let timing : Timing := { maxAttempts := some 2 }
    let parts : List Part := [.handle locked 0 (.touched file), .drain locked 500, .handle locked 600 (.touched file)]
    let session := ((Session.start locked ⟨"/w"⟩ .default timing).workAll parts).value
    session.pending.entries = [(file, 1)]
      ∧ (session.work (.drain locked 1500)).effects.filter Effect.tellsGivingUp = [.gaveUp file 2]
      ∧ (session.work (.drain locked 1500)).value.pending.entries = [] := by
  intro file locked timing parts session
  have hcounted : session.pending.entries = [(file, 1)] := by decide +kernel
  have hdue : isDue session.drainDue 1500 = true := by decide +kernel
  have hwatched : Part.WatchGivesNothingUp (.drain locked 1500) := nofun
  obtain ⟨hfits, -, -, -, hstep⟩ :=
    @workAll_retries locked ⟨"/w"⟩ .default timing 2 rfl (by decide) parts
  have honce := hfits.files.marked (file, 1) (by rw [hcounted]; exact List.mem_singleton_self _)
  have hpaths : session.pending.paths = [file] := congrArg (List.map Prod.fst) hcounted
  obtain ⟨htold, hdrained, -, -⟩ := hstep (.drain locked 1500) hwatched
  refine ⟨hcounted, htold.trans ?_, ?_⟩
  · unfold Tally.givenUp
    dsimp only
    rw [if_pos hdue, hpaths, List.filter_singleton, ← honce]
    rfl
  · rw [(hdrained locked 1500 rfl hdue).2, hcounted]
    rfl

/-- The count of a file that has no module yet does not go along in a renaming: after two failed reads, one before and
one afterwards, the file has a count of one, and it is not given up with a limit of two. -/
theorem renamed_unread_counts_anew :
    let file : Path := ⟨"/w/a.d.ts"⟩
    let other : Path := ⟨"/w/b.d.ts"⟩
    let reading : Reading := .failed ⟨.permissionDenied, "locked"⟩
    let locked : Surroundings := .ofFile file reading
    let timing : Timing := { maxAttempts := some 2 }
    let parts : List Part := [.handle locked 0 (.touched file), .drain locked 500,
      .handle locked 600 (.renamed file other), .drain locked 1500]
    let turn := (Session.start locked ⟨"/w"⟩ .default timing).workAll parts
    turn.effects.filterMap Effect.reading? = [(file, reading), (other, reading)]
      ∧ turn.effects.filter Effect.tellsGivingUp = [] ∧ turn.value.pending.entries = [(other, 1)] := by
  intro file other reading locked timing parts turn
  have hreadings : turn.effects.filterMap Effect.reading? = [(file, reading), (other, reading)] := by decide +kernel
  have hmarks : turn.value.pending.entries = [(other, 1)] := by decide +kernel
  have hquiet : (turn.effects.filter Effect.tellsGivingUp).length = 0 := by decide +kernel
  exact ⟨hreadings, List.length_eq_zero_iff.mp hquiet, hmarks⟩

end Session

end TypingsIndex
