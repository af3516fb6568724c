import TypingsIndex.Proofs.Watch.Bursts
import TypingsIndex.Proofs.Watch.DrainOrder
import TypingsIndex.Proofs.Watch.Parts
import TypingsIndex.Proofs.Watch.Still.Quiet

/-!
# How often a read has failed

A session keeps a count with each pending file, and one with a load of the settings that is due. Here the counts are
told from what can be seen of a run instead: which files are marked, which reads have failed, and where a scan has
marked everything anew (`Tally`). Failed reads of a drain count from the time at which a file was marked; the count
goes with the mark if a renaming moves the module of the file, and in any other renaming the old name loses its mark
and the new one is marked afresh. The counts that a session keeps are these (`Tally.Fits`).
-/

set_option autoImplicit false

namespace TypingsIndex

/-- Whether a reading gave no content. -/
def Reading.isFailed (reading : Reading) : Bool :=
  match reading.result with
  | .ok _ => false
  | .error _ => true

/-- A reading that fails in a way that may pass has failed. -/
theorem Reading.isFailed_of_isTransient {reading : Reading} (h : reading.isTransient = true) :
    reading.isFailed = true := by
  unfold isTransient at h
  unfold isFailed
  cases hresult : reading.result with
  | ok text => simp [hresult] at h
  | error fault => rfl

namespace Effect

/-- How many readings of a path have failed. -/
def failedReads (effects : List Effect) (path : List Path.Component) : Nat :=
  (effects.filterMap reading?).countP fun entry => entry.1.components = path ∧ entry.2.isFailed = true

/-- Where each of several files is read once, a failed read of one of them counts once. -/
theorem failedReads_of_reads {world : Surroundings} {effects : List Effect} {files : List Path}
    (reads : effects.filterMap reading? = files.map fun file => (file, world.read file))
    (distinct : files.Pairwise fun a b => a.components ≠ b.components) {file : Path} (among : file ∈ files)
    (failed : (world.read file).isFailed = true) : failedReads effects file.components = 1 := by
  obtain ⟨before, after, rfl⟩ := List.append_of_mem among
  obtain ⟨-, hafter, hbefore⟩ := List.pairwise_append.mp distinct
  have hothers : ∀ others : List Path, (∀ other ∈ others, other.components ≠ file.components) →
      (others.map fun other => (other, world.read other)).countP
        (fun entry => entry.1.components = file.components ∧ entry.2.isFailed = true) = 0 := by
    intro others hne
    refine List.countP_eq_zero.mpr fun entry hentry => ?_
    obtain ⟨other, hother, rfl⟩ := List.mem_map.mp hentry
    simp [hne other hother]
  unfold failedReads
  rw [reads, List.map_append, List.map_cons, List.countP_append, List.countP_cons_of_pos (by simp [failed]),
    hothers before fun other hother => hbefore other hother file List.mem_cons_self,
    hothers after fun other hother => ((List.pairwise_cons.mp hafter).1 other hother).symm]

/-- Whether the last thing that is done is to tell of a catalog. A scan that succeeds ends so, and one that fails ends
with the reason. -/
def endsTelling (effects : List Effect) : Bool :=
  (effects.getLast?.bind toldCatalog?).isSome

/-- Effects that tell of no catalog do not end by telling of one. -/
theorem endsTelling_of_quiet {effects : List Effect} (quiet : ∀ effect ∈ effects, effect.toldCatalog? = none) :
    endsTelling effects = false := by
  unfold endsTelling
  cases hlast : effects.getLast? with
  | none => rfl
  | some last => rw [Option.bind_some, quiet last (List.mem_of_getLast? hlast), Option.isSome_none]

/-- How effects end is how the last of them end. -/
theorem endsTelling_append {effects more : List Effect} (some : more ≠ []) :
    endsTelling (effects ++ more) = endsTelling more := by
  unfold endsTelling
  rw [List.getLast?_append_of_ne_nil _ some]

end Effect

/-- Whether a path is marked as pending. -/
def Pending.marks (pending : Pending) (path : List Path.Component) : Bool :=
  pending.paths.any fun marked => marked.components = path

/-- A path is marked exactly if one of the marks has its components. -/
theorem Pending.marks_iff {pending : Pending} {path : List Path.Component} :
    pending.marks path = true ↔ ∃ marked ∈ pending.paths, marked.components = path := by
  simp [marks]

/-- A file that is pending is marked. -/
theorem Pending.marks_entry {pending : Pending} {entry : Path × Nat} (h : entry ∈ pending.entries) :
    pending.marks entry.1.components = true :=
  marks_iff.mpr ⟨entry.1, List.mem_map_of_mem h, rfl⟩

/-- A file is marked exactly if it is pending under any spelling. -/
theorem Pending.marks_components {pending : Pending} {path : Path} :
    pending.marks path.components = pending.contains path := by
  rw [Bool.eq_iff_iff, marks_iff, contains_iff]

/-- After an entry was put in its place it is the only one of its path. -/
theorem Pending.mem_place {path : Path} {failures : Nat} {entries : List (Path × Nat)} {entry : Path × Nat}
    (rising : entries.Pairwise fun a b => Path.compare a.1 b.1 = .lt) (h : entry ∈ place path failures entries) :
    (entry.1.components = path.components ∧ entry.2 = failures)
      ∨ (entry ∈ entries ∧ entry.1.components ≠ path.components) := by
  have hafter : ∀ other : Path, Path.compare path other = .lt → other.components ≠ path.components := by
    intro other hlt hsame
    rw [Path.compare_eq_iff.mpr hsame.symm] at hlt
    cases hlt
  induction entries with
  | nil =>
    rw [List.mem_singleton.mp h]
    exact .inl ⟨rfl, rfl⟩
  | cons first rest ih =>
    obtain ⟨hfirst, hrest⟩ := List.pairwise_cons.mp rising
    unfold place at h
    cases hcompare : Path.compare path first.1 with
    | lt =>
      simp only [hcompare] at h
      rcases List.mem_cons.mp h with rfl | hold
      · exact .inl ⟨rfl, rfl⟩
      · refine .inr ⟨hold, hafter entry.1 ?_⟩
        rcases List.mem_cons.mp hold with rfl | hlater
        · exact hcompare
        · exact Std.TransCmp.lt_trans hcompare (hfirst entry hlater)
    | eq =>
      simp only [hcompare] at h
      have hsame := Path.compare_eq_iff.mp hcompare
      rcases List.mem_cons.mp h with rfl | hlater
      · exact .inl ⟨hsame.symm, rfl⟩
      · refine .inr ⟨List.mem_cons_of_mem _ hlater, fun hother => ?_⟩
        have hlt := hfirst entry hlater
        rw [Path.compare_eq_iff.mpr (hsame.symm.trans hother.symm)] at hlt
        cases hlt
    | gt =>
      simp only [hcompare] at h
      rcases List.mem_cons.mp h with rfl | hlater
      · refine .inr ⟨List.mem_cons_self, fun hsame => ?_⟩
        rw [Path.compare_eq_iff.mpr hsame.symm] at hcompare
        cases hcompare
      · rcases ih hrest hlater with hnew | ⟨hold, hne⟩
        · exact .inl hnew
        · exact .inr ⟨List.mem_cons_of_mem _ hold, hne⟩

/-! ## The tally -/

/-- How many reads of each file have failed since it was marked, and how many of the settings file since it is to be
loaded. -/
structure Tally where
  files : List Path.Component → Nat
  settings : Nat

namespace Session

/-- What is left of the marks once the old name of a renaming has lost its own, and with it what lies below a module
that cannot move. -/
def pendingWithout (session : Session) (source target : Path) : Pending :=
  if source.isDeclarationFile || target.isDeclarationFile then
    if session.catalog.contains source then session.pending.eraseBelow source else session.pending.erase source
  else
    session.pending

/-- The failed reads of each path after the news of a renaming, if it is marked then. Where a module moves its mark goes
along. -/
def recountRenamed (session : Session) (files : List Path.Component → Nat) (source target : Path) :
    List Path.Component → Nat :=
  if (session.catalogRenamed? source target).isSome then
    if session.pending.contains source then
      fun path => if path = target.components then files source.components else files path
    else
      files
  else
    fun path => if (session.pendingWithout source target).marks path then files path else 0

/-- The failed reads of each path after a step of work, if it is marked then. -/
def recount (session : Session) (files : List Path.Component → Nat) (part : Part) : List Path.Component → Nat :=
  match part with
  | .handle _ _ (.touched _) | .handle _ _ (.removed _) | .handle _ _ .settingsTouched | .handle _ _ .shutdown => files
  | .handle _ _ (.renamed source target) => session.recountRenamed files source target
  | .drain world now => fun path => files path + Effect.failedReads (session.drainIfDue world now).effects path
  | .handle _ _ .settingsRemoved | .handle _ _ .rebuild | .reload _ _ | .rescan _ _ =>
    if Effect.endsTelling (session.work part).effects then fun _ => 0 else files

/-- The failed reads of the settings file in a step of work. Only what loads the settings reads it. -/
def settingsFailures (session : Session) : Part → Nat
  | .reload world now =>
    Effect.failedReads (session.reloadIfDue world now).effects session.settingsFile.components
  | _ => 0

end Session

namespace Tally

/-- Nothing is counted yet. -/
def zero : Tally :=
  ⟨fun _ => 0, 0⟩

/-- The tally after a step of work. Nothing counts for what is not pending any more. -/
def next (tally : Tally) (session : Session) (part : Session.Part) : Tally where
  files path := if (session.work part).value.pending.marks path then session.recount tally.files part path else 0
  settings := if (session.work part).value.reload.isSome then tally.settings + session.settingsFailures part else 0

/-- The tally after several steps of work. -/
def after (tally : Tally) (session : Session) : List Session.Part → Tally
  | [] => tally
  | part :: rest => (tally.next session part).after (session.work part).value rest

/-- A count for each path is that which the marks say, and nothing for paths without a mark. -/
structure Counts (files : List Path.Component → Nat) (pending : Pending) : Prop where
  marked : ∀ entry ∈ pending.entries, entry.2 = files entry.1.components
  unmarked : ∀ path, pending.marks path = false → files path = 0

/-- The counts that a session keeps are those of the tally. -/
structure Fits (tally : Tally) (session : Session) : Prop where
  files : Counts tally.files session.pending
  reload : ∀ reload, session.reload = some reload → reload.attempts = tally.settings
  settled : session.reload = none → tally.settings = 0

namespace Counts

variable {files : List Path.Component → Nat} {pending after : Pending} {path : Path}

/-- It is enough to look at the marks. -/
theorem restrict (marked : ∀ entry ∈ pending.entries, entry.2 = files entry.1.components) :
    Counts (fun path => if pending.marks path then files path else 0) pending := by
  refine ⟨fun entry hentry => ?_, fun path hpath => ?_⟩
  · rw [if_pos (Pending.marks_entry hentry)]
    exact marked entry hentry
  · rw [hpath, if_neg Bool.false_ne_true]

/-- Where marks are only taken away, the counts of the others stay. -/
theorem of_subset (counts : Counts files pending) (subset : ∀ entry ∈ after.entries, entry ∈ pending.entries) :
    ∀ entry ∈ after.entries, entry.2 = files entry.1.components :=
  fun entry hentry => counts.marked entry (subset entry hentry)

/-- A file that is marked has no failures, and one that was marked before keeps those it has. -/
theorem insert (counts : Counts files pending) :
    ∀ entry ∈ (pending.insert path).entries, entry.2 = files entry.1.components := by
  intro entry hentry
  rcases Pending.mem_insert.mp hentry with hold | ⟨hunmarked, rfl⟩
  · exact counts.marked entry hold
  · rw [← Pending.marks_components] at hunmarked
    exact (counts.unmarked path.components hunmarked).symm

/-- A mark that moves takes its failures along. -/
theorem rename {target : Path} (rising : pending.Rising) (counts : Counts files pending)
    (marked : pending.contains path = true) :
    ∀ entry ∈ (pending.rename path target).entries,
      entry.2 = if entry.1.components = target.components then files path.components else files entry.1.components := by
  obtain ⟨failures, hfailures⟩ := Option.isSome_iff_exists.mp marked
  have hfound : failures = files path.components := by
    obtain ⟨old, hold, rfl⟩ := Option.map_eq_some_iff.mp hfailures
    have hsame : old.1.same path = true := by simpa using List.find?_some hold
    rw [counts.marked old (List.mem_of_find?_eq_some hold), Path.same_iff.mp hsame]
  intro entry hentry
  unfold Pending.rename at hentry
  rw [hfailures] at hentry
  rcases Pending.mem_place rising.erase hentry with ⟨hsame, hcount⟩ | ⟨hold, hne⟩
  · rw [if_pos hsame, hcount, hfound]
  · rw [if_neg hne]
    exact counts.marked entry (List.mem_filter.mp hold).1

/-- One more read of each file that is left has failed. -/
theorem drain {world : Surroundings} {timing : Timing} (rising : pending.Rising) (counts : Counts files pending)
    {effects : List Effect}
    (reads : effects.filterMap Effect.reading? = pending.paths.map fun file => (file, world.read file)) :
    ∀ entry ∈ pending.entries.filterMap (Session.again? world timing),
      entry.2 = files entry.1.components + Effect.failedReads effects entry.1.components := by
  intro entry hentry
  obtain ⟨old, hold, hagain⟩ := List.mem_filterMap.mp hentry
  obtain ⟨htransient, -, rfl⟩ := Session.again?_eq_some_iff.mp hagain
  have hfailed := Reading.isFailed_of_isTransient htransient
  rw [counts.marked old hold,
    Effect.failedReads_of_reads reads rising.paths_distinct (List.mem_map_of_mem hold) hfailed]

end Counts

end Tally

/-! ## Scans mark anew -/

namespace Session

/-- What work that may scan does to the marks: if it ends with the catalog of a scan then all marks are new ones, and
if not then none is. -/
def Remarks (before : Pending) (effects : List Effect) (after : Pending) : Prop :=
  if Effect.endsTelling effects then ∀ entry ∈ after.entries, entry.2 = 0
  else ∀ entry ∈ after.entries, entry ∈ before.entries

namespace Remarks

variable {before after : Pending} {effects : List Effect}

/-- Work that tells of no catalog and makes no new marks leaves old ones only. -/
theorem of_quiet (quiet : ∀ effect ∈ effects, effect.toldCatalog? = none)
    (subset : ∀ entry ∈ after.entries, entry ∈ before.entries) : Remarks before effects after := by
  unfold Remarks
  rw [Effect.endsTelling_of_quiet quiet, if_neg Bool.false_ne_true]
  exact subset

/-- What is done before does not matter, nor what more was marked before. -/
theorem preceded {more : Pending} (front : List Effect) (some : effects ≠ [])
    (subset : ∀ entry ∈ before.entries, entry ∈ more.entries) (remarks : Remarks before effects after) :
    Remarks more (front ++ effects) after := by
  unfold Remarks at remarks ⊢
  rw [Effect.endsTelling_append some]
  split at remarks
  · next hscanned => rwa [if_pos hscanned]
  · next hscanned =>
    rw [if_neg hscanned]
    exact fun entry hentry => subset entry (remarks entry hentry)

/-- The marks after work that may scan have the counts of before, or none if they are new. -/
theorem counts {files : List Path.Component → Nat} (remarks : Remarks before effects after)
    (counts : Tally.Counts files before) :
    ∀ entry ∈ after.entries,
      entry.2 = (if Effect.endsTelling effects then fun _ => 0 else files) entry.1.components := by
  unfold Remarks at remarks
  split at remarks
  · next hscanned =>
    rw [if_pos hscanned]
    exact remarks
  · next hscanned =>
    rw [if_neg hscanned]
    exact counts.of_subset remarks

end Remarks

section

variable (world : Surroundings) (now : Nat) (session : Session)

/-- A scan that succeeds leaves new marks only, and one that fails no new ones. -/
theorem rebuild_remarks :
    (session.rebuild world now).effects ≠ []
      ∧ Remarks session.pending (session.rebuild world now).effects (session.rebuild world now).value.1.pending := by
  have hscanned := rebuild_scanned world now session
  generalize session.rebuild world now = turn at hscanned
  cases hscanned with
  | @scanned scan reports found asides =>
    have hsome : Effect.publication scan.catalog ≠ [] := nofun
    have hends : Effect.endsTelling (scan.readings.map (fun entry => .read entry.1 entry.2) ++ reports
        ++ Effect.publication scan.catalog) = true := Effect.endsTelling_append hsome
    refine ⟨List.append_ne_nil_of_right_ne_nil _ hsome, ?_⟩
    unfold Remarks
    rw [hends, if_pos rfl]
    intro entry hentry
    rw [scheduleRetry_pending] at hentry
    rcases Pending.mem_foldl_insert.mp hentry with hold | ⟨-, hfresh, -⟩
    · cases hold
    · exact hfresh
  | emptied => exact ⟨nofun, fun _ hentry => hentry⟩
  | failed => exact ⟨nofun, fun _ hentry => hentry⟩

variable {world now session}

/-- Settings that are put in effect leave the marks of their scan, or old ones. -/
theorem applied_remarks {settings : Settings} {turn : Turn Session}
    (applied : SettingsApplied world now session settings turn) :
    Remarks session.pending turn.effects turn.value.pending := by
  cases applied with
  | same => exact .of_quiet (fun _ heffect => nomatch heffect) fun _ hentry => hentry
  | announced asides =>
    refine .of_quiet (fun effect heffect => ?_) fun _ hentry => hentry
    rcases List.mem_cons.mp heffect with rfl | htold
    · rfl
    · exact (asides effect htold).toldCatalog?
  | @rebuilt told asides moved =>
    obtain ⟨hsome, hremarks⟩ := rebuild_remarks world now (session.underSettings world settings)
    refine hremarks.preceded (.publishSettings settings :: told) hsome fun entry hentry => ?_
    unfold underSettings at hentry
    split at hentry
    · exact hentry
    · cases hentry

/-- Loading the settings file leaves the marks of the scan that came of it, or old ones. -/
theorem loaded_remarks {attempts : Nat} {turn : Turn Session}
    (loaded : SettingsLoaded world now session attempts turn) :
    Remarks session.pending turn.effects turn.value.pending := by
  have hread : (Effect.read session.settingsFile (world.read session.settingsFile)).toldCatalog? = none := rfl
  cases loaded with
  | @applied settings turn outcome =>
    have happlied := applied_remarks outcome
    cases heffects : turn.effects with
    | nil =>
      rw [heffects] at happlied
      refine .of_quiet (by simp [hread]) happlied
    | cons first rest =>
      rw [heffects] at happlied
      exact happlied.preceded [.read session.settingsFile (world.read session.settingsFile)] nofun
        fun _ hentry => hentry
  | refused asides =>
    refine .of_quiet (fun effect heffect => ?_) fun _ hentry => hentry
    rcases List.mem_cons.mp heffect with rfl | htold
    · exact hread
    · exact (asides effect htold).toldCatalog?
  | postponed => exact .of_quiet (by simp [hread]) fun _ hentry => hentry

/-- Without work the marks are the old ones. -/
theorem Remarks.idle : Remarks session.pending [] session.pending :=
  .of_quiet (fun _ heffect => nomatch heffect) fun _ hentry => hentry

variable (world now session)

/-- The reload of a poll leaves the marks of the scan that came of it, or old ones. -/
theorem reloadIfDue_remarks :
    Remarks session.pending (session.reloadIfDue world now).effects (session.reloadIfDue world now).value.pending := by
  unfold reloadIfDue
  split
  · split
    · exact loaded_remarks (reloadSettings_loaded world now session _)
    · exact .idle
  · exact .idle

/-- The scan of a poll leaves its marks, or old ones. -/
theorem rescanIfDue_remarks :
    Remarks session.pending (session.rescanIfDue world now).effects (session.rescanIfDue world now).value.pending := by
  unfold rescanIfDue
  split
  · rw [Turn.effects_bind, Turn.effects_pure, List.append_nil]
    exact (rebuild_remarks world now session).2
  · exact .idle

end

/-! ## Steps of work -/

section

variable {world : Surroundings} {now : Nat} {session : Session} {files : List Path.Component → Nat}

/-- A touch leaves the counts of marks as they are, and a new mark counts nothing. -/
theorem touch_recounts (world : Surroundings) (now : Nat) (session : Session)
    (counts : Tally.Counts files session.pending) (path : Path) :
    ∀ entry ∈ (session.touch world now path).pending.entries, entry.2 = files entry.1.components := by
  have htouched := touch_touched world now session path
  generalize session.touch world now path = after at htouched
  cases htouched with
  | marked => exact counts.insert
  | rescanned => exact counts.marked
  | ignored => exact counts.marked

/-- The old name of a renaming in which no module moves loses its mark before the new name gets one. -/
theorem unmarked_recounts (counts : Tally.Counts files session.pending) (source target : Path) :
    Tally.Counts (fun path => if (session.pendingWithout source target).marks path then files path else 0)
      (session.pendingWithout source target) := by
  refine .restrict (counts.of_subset fun entry hentry => ?_)
  unfold pendingWithout at hentry
  split at hentry
  · split at hentry
    · exact (List.mem_filter.mp hentry).1
    · exact (List.mem_filter.mp hentry).1
  · exact hentry

/-- After the news of a renaming each mark has the count that the recount says. The mark of a module that moves takes
its count along; where nothing moves, marks are only taken away, and a new one counts nothing. -/
theorem rename_recounts (sound : session.Sound) (counts : Tally.Counts files session.pending) (source target : Path) :
    ∀ entry ∈ (session.rename world now source target).value.pending.entries,
      entry.2 = session.recountRenamed files source target entry.1.components := by
  -- the two tests of the recount agree with the outcomes: a module moves only to a path that is accepted
  have hunmarked := unmarked_recounts counts source target
  have hstays : (session.catalogRenamed? source target).isSome = true → target.isDeclarationFile = true := by
    intro hsome
    obtain ⟨catalog, hcatalog⟩ := Option.isSome_iff_exists.mp hsome
    have haccepted := (catalogRenamed?_eq_some session source hcatalog).1
    unfold accepts at haccepted
    exact (Bool.and_eq_true_iff.mp haccepted).1
  have hrenamed := rename_renamed world now session source target
  generalize session.rename world now source target = turn at hrenamed
  unfold recountRenamed
  cases hrenamed with
  | ignored plain =>
    have hnone : ¬ (session.catalogRenamed? source target).isSome = true := by
      intro hsome
      cases (hstays hsome).symm.trans plain.2
    have hsame : session.pendingWithout source target = session.pending := by simp [pendingWithout, plain]
    rw [if_neg hnone]
    rw [hsame] at hunmarked ⊢
    exact hunmarked.marked
  | rescanned plain =>
    have hnone : ¬ (session.catalogRenamed? source target).isSome = true := by
      intro hsome
      cases (hstays hsome).symm.trans plain.2
    have hsame : session.pendingWithout source target = session.pending := by simp [pendingWithout, plain]
    rw [if_neg hnone]
    rw [hsame] at hunmarked ⊢
    exact hunmarked.of_subset fun entry hentry => (List.mem_filter.mp hentry).1
  | moved taken =>
    rw [taken, Option.isSome_some, if_pos rfl]
    cases hmarked : session.pending.contains source with
    | true => exact counts.rename sound.rising hmarked
    | false =>
      have hnone : session.pending.failures? source = none :=
        Option.isNone_iff_eq_none.mp (Option.isSome_eq_false_iff.mp hmarked)
      have hsame : session.pending.rename source target = session.pending := by
        unfold Pending.rename
        rw [hnone]
      rw [hsame]
      exact counts.marked
  | replaced known refused =>
    obtain ⟨entry, hentry, hsource⟩ := (Catalog.contains_iff sound.consistent).mp known
    have hdeclared : source.isDeclarationFile = true := by
      rw [← Path.isDeclarationFile_congr hsource]
      exact sound.declared entry hentry
    have hsame : session.pendingWithout source target = (session.remove source).value.pending := by
      rw [remove_value]
      simp [pendingWithout, hdeclared, known]
    rw [refused, Option.isSome_none, if_neg Bool.false_ne_true]
    rw [hsame] at hunmarked ⊢
    exact touch_recounts world now _ hunmarked target
  | arrived declared unknown =>
    have hnone : ¬ (session.catalogRenamed? source target).isSome = true := by
      intro hsome
      obtain ⟨catalog, hcatalog⟩ := Option.isSome_iff_exists.mp hsome
      obtain ⟨hsource, -⟩ := Catalog.mem_rename? sound.consistent (catalogRenamed?_eq_some session source hcatalog).2
      cases hsource.symm.trans unknown
    have hsame : session.pendingWithout source target = session.pending.erase source := by
      rcases declared with h | h <;> simp [pendingWithout, h, unknown]
    rw [if_neg hnone]
    rw [hsame] at hunmarked ⊢
    exact touch_recounts world now { session with pending := session.pending.erase source } hunmarked target

/-- After the drain of a poll each mark has its old count and, if the read has failed just now, one more. -/
theorem drainIfDue_recounts (sound : session.Sound) (counts : Tally.Counts files session.pending) :
    ∀ entry ∈ (session.drainIfDue world now).value.pending.entries,
      entry.2 = files entry.1.components
        + Effect.failedReads (session.drainIfDue world now).effects entry.1.components := by
  unfold drainIfDue
  split
  · rw [drain_entries sound.rising]
    exact counts.drain sound.rising (drain_reads world now session)
  · exact counts.marked

/-- After any step of work each mark has the count that the recount says. -/
theorem work_recounts (sound : session.Sound) (counts : Tally.Counts files session.pending) (part : Part) :
    ∀ entry ∈ (session.work part).value.pending.entries,
      entry.2 = session.recount files part entry.1.components := by
  cases part with
  | handle world now command =>
    rw [work_handle]
    cases command with
    | touched path =>
      rw [act_touched]
      exact touch_recounts world now session counts path
    | removed path =>
      rw [act_removed, remove_value]
      exact counts.of_subset fun entry hentry => (List.mem_filter.mp hentry).1
    | renamed source target =>
      rw [act_renamed]
      exact rename_recounts sound counts source target
    | settingsTouched => exact counts.marked
    | settingsRemoved =>
      have happlied := applied_remarks (applySettings_applied world now { session with reload := none } .default)
      have hcounted := happlied.counts counts
      unfold recount
      rw [work_handle, act_settingsRemoved]
      exact hcounted
    | rebuild =>
      have hcounted := (rebuild_remarks world now session).2.counts counts
      unfold recount
      rw [work_handle, act_rebuild, Turn.effects_map, Turn.value_map]
      exact hcounted
    | shutdown => exact counts.marked
  | reload world now => exact (reloadIfDue_remarks world now session).counts counts
  | rescan world now => exact (rescanIfDue_remarks world now session).counts counts
  | drain world now => exact drainIfDue_recounts sound counts

/-- Where a load of the settings that is to be done after a step of work comes from: it was to be done before, it is
asked for now, or the file was read once more and the read has failed. -/
inductive ReloadFrom (session : Session) (failures : Nat) (reload : Reload) : Prop where
  | kept (before : session.reload = some reload) (unread : failures = 0)
  | asked (before : session.reload = none) (fresh : reload.attempts = 0) (unread : failures = 0)
  | failed {before : Reload} (due : session.reload = some before) (counted : reload.attempts = before.attempts + 1)
      (patient : session.timing.exhausted reload.attempts = false) (once : failures = 1)

/-- A reload that is due after that of a poll was asked for before, or has failed once more. -/
theorem reloadIfDue_from {reload : Reload} (again : (session.reloadIfDue world now).value.reload = some reload) :
    session.ReloadFrom (session.settingsFailures (.reload world now)) reload := by
  unfold settingsFailures
  dsimp only
  unfold reloadIfDue at again ⊢
  cases hreload : session.reload with
  | none =>
    rw [hreload] at again
    cases hreload.symm.trans again
  | some before =>
    simp only [hreload] at again ⊢
    by_cases hdue : before.due ≤ now
    · rw [if_pos hdue] at again ⊢
      cases htransient : (world.read session.settingsFile).isTransient with
      | false =>
        have hkeeps := fun settings => applySettings_keeps world now { session with reload := none } settings
        rcases reloadSettings_of_settled world now session before.attempts htransient with ⟨loaded, hturn⟩ | ⟨_, hturn⟩
        · rw [hturn] at again
          cases again.symm.trans (hkeeps loaded).reload
        · rw [hturn] at again
          cases again
      | true =>
        rw [reloadSettings_of_transient world now session before.attempts htransient] at again ⊢
        split at again
        · cases again
        · next hpatient =>
          obtain rfl := Option.some.inj again
          have hfailed : Effect.failedReads [.read session.settingsFile (world.read session.settingsFile)]
              session.settingsFile.components = 1 :=
            @Effect.failedReads_of_reads world _ [session.settingsFile] rfl (List.pairwise_singleton _ _) _
              List.mem_cons_self (Reading.isFailed_of_isTransient htransient)
          rw [if_neg hpatient]
          exact .failed hreload rfl (Bool.eq_false_iff.mpr hpatient) hfailed
    · rw [if_neg hdue] at again ⊢
      exact .kept again rfl

/-- A reload that is due after a step of work was due before, is asked for now, or has failed once more. -/
theorem work_reload {part : Part} {reload : Reload} (again : (session.work part).value.reload = some reload) :
    session.ReloadFrom (session.settingsFailures part) reload := by
  by_cases hspares : part.SparesSettings
  · have hkeeps : session.KeepsSettings (session.work part).value := .work hspares
    refine .kept (hkeeps.reload.symm.trans again) ?_
    cases part with
    | reload => exact absurd hspares id
    | _ => rfl
  · cases part with
    | handle world now command =>
      cases command with
      | settingsTouched =>
        have hrequested : session.reload.or (some ⟨now + session.timing.quiescence, 0⟩) = some reload := again
        cases hbefore : session.reload with
        | none =>
          rw [hbefore] at hrequested
          obtain rfl := Option.some.inj hrequested
          exact .asked hbefore rfl rfl
        | some before =>
          rw [hbefore] at hrequested
          obtain rfl := Option.some.inj hrequested
          exact .kept hbefore rfl
      | settingsRemoved =>
        have hkeeps := applySettings_keeps world now { session with reload := none } .default
        rw [work_handle, act_settingsRemoved] at again
        cases again.symm.trans hkeeps.reload
      | _ => exact absurd trivial hspares
    | reload world now => exact reloadIfDue_from again
    | _ => exact absurd trivial hspares

end

end Session

namespace Tally

variable {tally : Tally} {session : Session}

/-- Nothing is counted of a session that starts. -/
theorem Fits.start (world : Surroundings) (base : Path) (settings : Settings) (timing : Timing) :
    zero.Fits (Session.start world base settings timing) :=
  ⟨⟨nofun, fun _ _ => rfl⟩, nofun, fun _ => rfl⟩

/-- A step of work leaves a session with the counts of the next tally. -/
theorem Fits.next (fits : tally.Fits session) (sound : session.Sound) (part : Session.Part) :
    (tally.next session part).Fits (session.work part).value := by
  have hfiles := Counts.restrict (Session.work_recounts sound fits.files part)
  have hreload : ∀ reload, (session.work part).value.reload = some reload →
      reload.attempts = tally.settings + session.settingsFailures part := by
    intro reload hsome
    cases Session.work_reload hsome with
    | kept before unread => rw [unread, fits.reload reload before, Nat.add_zero]
    | asked before fresh unread => rw [unread, fits.settled before, fresh]
    | failed due counted _ once => rw [once, counted, fits.reload _ due]
  refine ⟨hfiles, fun reload hsome => ?_, fun hnone => ?_⟩
  · unfold Tally.next
    rw [hsome]
    exact hreload reload hsome
  · unfold Tally.next
    rw [hnone]
    rfl

/-- After any steps of work the counts that a session keeps are those of the tally. -/
theorem Fits.after (fits : tally.Fits session) (sound : session.Sound) (parts : List Session.Part) :
    (tally.after session parts).Fits (session.workAll parts).value := by
  induction parts generalizing tally session with
  | nil => exact fits
  | cons part rest ih =>
    rw [Session.workAll_cons]
    exact ih (fits.next sound part) (sound.work part)

end Tally

end TypingsIndex
