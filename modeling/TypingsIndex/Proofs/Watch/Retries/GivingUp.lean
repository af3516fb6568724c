import TypingsIndex.Proofs.Watch.OneFile
import TypingsIndex.Proofs.Watch.Replacement
import TypingsIndex.Proofs.Watch.Retries.Tally

/-!
# When a session gives up

With a limit on failed reads, a file or the settings file is given up by the read that reaches the limit. All that
followers see of this is an event with a message, and they can tell it by its opening words: no other failure is worded
like it (`Failure.wordsGivingUp_message`), and of all work only a drain gives up files and only a load of the settings
gives up their file. The counts that decide are those of the tally, so that they say how many reads have failed in
truth.
-/

set_option autoImplicit false

namespace TypingsIndex

/-! ## The message -/

namespace Failure

/-- Whether something was given up. -/
def isGivingUp : Failure → Bool
  | .retriesExhausted .. => true
  | _ => false

/-- Whether a message says that something was given up. -/
def wordsGivingUp (message : String) : Bool :=
  "gave up reading ".toList.isPrefixOf message.toList

/-- The first letter of the wording. -/
def initial : Failure → Char
  | .grammar .. | .settings .. => 'i'
  | .unreadable .. => 'f'
  | .io _ => 'I'
  | .walk _ | .directoryMissing _ => 'd'
  | .watch _ | .workerStopped => 'w'
  | .retriesExhausted .. => 'g'

/-- A message begins with the first letter of its wording. -/
theorem message_head? (failure : Failure) : failure.message.toList.head? = some failure.initial := by
  have hopens : ∀ {opening : String} {c : Char}, opening.toList.head? = some c →
      ∀ rest, (opening ++ rest).toList.head? = some c := by
    intro opening c h rest
    rw [String.toList_append, List.head?_append, h]
    rfl
  cases failure with
  | grammar file line fault =>
    have h : "invalid declaration in ".toList.head? = some 'i' := by decide +kernel
    exact hopens (hopens (hopens (hopens (hopens h _) _) _) _) _
  | unreadable file fault =>
    have h : "failed to read ".toList.head? = some 'f' := by decide +kernel
    exact hopens (hopens (hopens h _) _) _
  | io fault =>
    have h : "IO error: ".toList.head? = some 'I' := by decide +kernel
    exact hopens h _
  | walk reason =>
    have h : "directory walk failed: ".toList.head? = some 'd' := by decide +kernel
    exact hopens h _
  | settings file fault =>
    have h : "invalid config in ".toList.head? = some 'i' := by decide +kernel
    exact hopens (hopens (hopens h _) _) _
  | directoryMissing directory =>
    have h : "directory not found: ".toList.head? = some 'd' := by decide +kernel
    exact hopens h _
  | watch reason =>
    have h : "watch error: ".toList.head? = some 'w' := by decide +kernel
    exact hopens h _
  | workerStopped => decide +kernel
  | retriesExhausted file attempts =>
    have h : "gave up reading ".toList.head? = some 'g' := by decide +kernel
    exact hopens (hopens (hopens (hopens h _) _) _) _

/-- Only what was given up is worded so. -/
theorem wordsGivingUp_message (failure : Failure) : wordsGivingUp failure.message = failure.isGivingUp := by
  have hother : failure.initial ≠ 'g' → wordsGivingUp failure.message = false := by
    intro hinitial
    have hhead := failure.message_head?
    refine Bool.eq_false_iff.mpr fun hprefix => hinitial ?_
    obtain ⟨rest, hrest⟩ := List.isPrefixOf_iff_prefix.mp hprefix
    have hopening : "gave up reading ".toList.head? = some 'g' := by decide +kernel
    rw [← hrest, List.head?_append, hopening] at hhead
    exact (Option.some.inj hhead).symm
  cases failure with
  | retriesExhausted file attempts =>
    refine List.isPrefixOf_iff_prefix.mpr ?_
    change _ <+: ("gave up reading " ++ file.text ++ " after " ++ toString attempts ++ " attempts").toList
    simp only [String.toList_append, List.append_assoc]
    exact List.prefix_append _ _
  | _ => exact hother (by simp [initial])

end Failure

namespace Effect

/-- It is told that a file was given up after so many reads. -/
def gaveUp (file : Path) (attempts : Nat) : Effect :=
  .emit (Failure.retriesExhausted file attempts).event

/-- It is told that the settings file was given up after so many reads. -/
def gaveUpSettings (file : Path) (attempts : Nat) : Effect :=
  .emit (.fault (Failure.retriesExhausted file attempts).message)

/-- Whether it is told that something was given up. -/
def tellsGivingUp : Effect → Bool
  | .emit (.moduleFailed _ message) => Failure.wordsGivingUp message
  | .emit (.fault message) => Failure.wordsGivingUp message
  | _ => false

/-- A failure that is told as a fault tells of giving up exactly if it is one. -/
theorem tellsGivingUp_fault (failure : Failure) :
    tellsGivingUp (.emit (.fault failure.message)) = failure.isGivingUp :=
  failure.wordsGivingUp_message

/-- A failure that is told as an event tells of giving up exactly if it is one. -/
theorem tellsGivingUp_event (failure : Failure) : tellsGivingUp (.emit failure.event) = failure.isGivingUp := by
  unfold Failure.event
  split
  · exact failure.wordsGivingUp_message
  · exact failure.wordsGivingUp_message

end Effect

/-- Where a directory cannot be watched, that is not told as something that was given up. -/
def Surroundings.WatchGivesNothingUp (world : Surroundings) : Prop :=
  ∀ root failure, world.watchFault root = some failure → failure.isGivingUp = false

/-! ## Work that gives nothing up -/

/-- What a scan could not look at, read or understand was not given up. -/
theorem Scan.failure_isGivingUp {world : Surroundings} {root : Path} {previous : Catalog} {scan : ScanReport}
    (found : directory world root previous = .ok scan) {failure : Failure} (among : failure ∈ scan.failures) :
    failure.isGivingUp = false := by
  obtain ⟨-, hfailures⟩ := directory_of_ok world root previous (isDirectory_of_ok found) found
  rw [hfailures] at among
  rcases List.mem_append.mp among with hwalk | hfile
  · obtain ⟨reason, -, rfl⟩ := List.mem_map.mp hwalk
    rfl
  · obtain ⟨listed, -, hfailed⟩ := List.mem_filterMap.mp hfile
    have hloaded := loadModule_loaded world root listed
    unfold failureOf? at hfailed
    split at hfailed
    · cases hfailed
    · next hresult =>
      rw [hresult, Option.some.inj hfailed] at hloaded
      cases hloaded <;> rfl

/-- A scan that fails has given nothing up. -/
theorem Scan.error_isGivingUp {world : Surroundings} {root : Path} {previous : Catalog} {failure : Failure}
    (lost : directory world root previous = .error failure) : failure.isGivingUp = false := by
  unfold directory findFiles at lost
  split at lost
  · cases lost
  · obtain rfl := Except.error.inj lost
    rfl

namespace Session

/-- A turn in which nothing is given up. -/
def GivesNothingUp {α : Type} (turn : Turn α) : Prop :=
  ∀ effect ∈ turn.effects, effect.tellsGivingUp = false

section

variable (world : Surroundings) (now : Nat) (session : Session)

/-- A publication gives nothing up. -/
theorem publication_givesNothingUp (catalog : Catalog) :
    ∀ effect ∈ Effect.publication catalog, effect.tellsGivingUp = false := by
  intro effect heffect
  unfold Effect.publication at heffect
  simp only [List.mem_cons, List.not_mem_nil, or_false] at heffect
  rcases heffect with rfl | rfl <;> rfl

/-- A scan gives nothing up, since a file that it cannot read will be tried again. -/
theorem rebuild_givesNothingUp : GivesNothingUp (session.rebuild world now) := by
  intro effect heffect
  cases hscan : Scan.directory world session.root session.catalog with
  | ok scan =>
    rw [rebuild_eq_of_ok now hscan, Turn.forM_report_effects] at heffect
    simp only [List.mem_append, List.mem_map] at heffect
    rcases heffect with (⟨entry, -, rfl⟩ | ⟨failure, hfailure, rfl⟩) | hpublished
    · rfl
    · rw [Effect.tellsGivingUp_event]
      exact Scan.failure_isGivingUp hscan (List.mem_filter.mp hfailure).1
    · exact publication_givesNothingUp scan.catalog effect hpublished
  | error failure =>
    have hlost : (Effect.emit (.fault failure.message)).tellsGivingUp = false := by
      rw [Effect.tellsGivingUp_fault]
      exact Scan.error_isGivingUp hscan
    have hscanned := rebuild_scanned world now session
    generalize session.rebuild world now = turn at hscanned heffect
    cases hscanned with
    | scanned found =>
      rw [hscan] at found
      cases found
    | emptied lost =>
      obtain rfl := Except.error.inj (hscan.symm.trans lost)
      rcases List.mem_append.mp heffect with hpublished | htold
      · exact publication_givesNothingUp .empty effect hpublished
      · rw [List.mem_singleton.mp htold]
        exact hlost
    | failed lost =>
      obtain rfl := Except.error.inj (hscan.symm.trans lost)
      rw [List.mem_singleton.mp heffect]
      exact hlost

variable {world} (watched : world.WatchGivesNothingUp)

include watched

/-- A move of the root gives nothing up. -/
theorem rootMove_givesNothingUp (root : Path) : ∀ effect ∈ rootMove world root, effect.tellsGivingUp = false := by
  intro effect heffect
  unfold rootMove at heffect
  simp only [List.mem_cons, List.mem_map, Option.mem_toList] at heffect
  rcases heffect with rfl | ⟨_, ⟨failure, hfailure, rfl⟩, rfl⟩
  · rfl
  · rw [Effect.tellsGivingUp_fault]
    exact watched root failure hfailure

/-- Settings that are put in effect give nothing up. -/
theorem applySettings_givesNothingUp (settings : Settings) :
    GivesNothingUp (session.applySettings world now settings) := by
  have hmoves : ∀ effect ∈ (outputMoves session.settings settings).map Effect.emit,
      effect.tellsGivingUp = false := by
    intro effect heffect
    obtain ⟨event, hevent, rfl⟩ := List.mem_map.mp heffect
    unfold outputMoves at hevent
    rcases List.mem_append.mp hevent with hclass | hinterface
    · split at hclass
      · rw [List.mem_singleton.mp hclass]
        rfl
      · cases hclass
    · split at hinterface
      · rw [List.mem_singleton.mp hinterface]
        rfl
      · cases hinterface
  have hadjusted : GivesNothingUp (session.adjust world now settings) := by
    intro effect heffect
    by_cases halike : session.settings.AlikeBesidesOutput settings
    · rw [adjust_of_alike world now session halike] at heffect
      rw [List.mem_singleton.mp heffect]
      rfl
    · rw [adjust_of_different world now session halike] at heffect
      rcases List.mem_append.mp heffect with hfront | hscan
      · rcases List.mem_append.mp hfront with hmove | htold
        · split at hmove
          · cases hmove
          · exact rootMove_givesNothingUp watched _ effect hmove
        · rw [List.mem_singleton.mp htold]
          rfl
      · exact rebuild_givesNothingUp world now _ effect hscan
  -- The change, the moves of the output, and then the adjustment: a move of the root, the settings told and a scan.
  intro effect heffect
  by_cases hsame : session.settings = settings
  · have hempty : (SettingsChange.between session.settings settings).isEmpty = true :=
      SettingsChange.isEmpty_iff.mpr hsame
    unfold applySettings at heffect
    dsimp only at heffect
    rw [if_pos hempty] at heffect
    cases heffect
  · rw [applySettings_adjusts world now session settings hsame] at heffect
    rcases List.mem_cons.mp heffect with rfl | hrest
    · rfl
    · rcases List.mem_append.mp hrest with hmove | hlater
      · exact hmoves effect hmove
      · exact hadjusted effect hlater

/-- The settings file is given up only after a read that failed in a way that may pass. -/
theorem reloadSettings_givesNothingUp (attempts : Nat)
    (settled : (world.read session.settingsFile).isTransient = false) :
    GivesNothingUp (session.reloadSettings world now attempts) := by
  intro effect heffect
  rcases reloadSettings_of_settled world now session attempts settled with ⟨loaded, hturn⟩ | ⟨fault, hturn⟩
  · rw [hturn] at heffect
    rcases List.mem_cons.mp heffect with rfl | happlied
    · rfl
    · exact applySettings_givesNothingUp now { session with reload := none } watched loaded effect happlied
  · rw [hturn] at heffect
    simp only [List.mem_cons, List.not_mem_nil, or_false] at heffect
    rcases heffect with rfl | rfl
    · rfl
    · exact Effect.tellsGivingUp_fault (.settings session.settingsFile fault)

/-- Nothing is given up when a command is handled. -/
theorem handle_givesNothingUp (command : Command) : GivesNothingUp (session.act (.handle world now command)) := by
  have hnews : command.IsNews → GivesNothingUp (session.act (.handle world now command)) := by
    intro news effect heffect
    rcases news_effects world now session news with h | ⟨catalog, h⟩
    · rw [h] at heffect
      cases heffect
    · rw [h] at heffect
      exact publication_givesNothingUp catalog effect heffect
  cases command with
  | touched | removed | renamed | settingsTouched => exact hnews trivial
  | settingsRemoved =>
    rw [act_settingsRemoved]
    exact applySettings_givesNothingUp now { session with reload := none } watched .default
  | rebuild =>
    have hrebuilt := rebuild_givesNothingUp world now session
    unfold GivesNothingUp at hrebuilt ⊢
    rw [act_rebuild, Turn.effects_map]
    exact hrebuilt
  | shutdown =>
    rw [act_shutdown]
    exact fun _ heffect => nomatch heffect

end

/-! ## Reading the pending files -/

section

variable (world : Surroundings)

/-- Taking in content gives nothing up, even if it breaks the grammar. -/
theorem absorb_givesNothingUp (draining : Draining) (file : Path) (content : String) :
    GivesNothingUp (absorb draining file content) := by
  intro effect heffect
  unfold absorb at heffect
  split at heffect
  · cases heffect
  · rcases Scan.functionsOf_cases file content with ⟨functions, haccepted⟩ | ⟨line, fault, hrefused⟩
    · cases htaken : draining.session.catalogWith? file functions content with
      | some catalog =>
        simp only [haccepted, htaken] at heffect
        cases heffect
      | none =>
        simp only [haccepted, htaken] at heffect
        cases heffect
    · simp only [hrefused, Turn.effects_bind, Turn.report_effects, Turn.effects_pure, List.append_nil] at heffect
      rw [List.mem_singleton.mp heffect]
      exact Effect.tellsGivingUp_event (.grammar file line fault)

/-- The drain of a file gives it up if its read failed in a way that may pass and was one too many. -/
theorem drainFile_givesUp (draining : Draining) (file : Path) {failures : Nat}
    (counted : (draining.session.pending.countFailure file).failures? file = some failures) :
    (drainFile world draining file).effects.filter Effect.tellsGivingUp =
      if (world.read file).isTransient && draining.session.timing.exhausted failures
        then [.gaveUp file failures] else [] := by
  have hread : Effect.tellsGivingUp (.read file (world.read file)) = false := rfl
  unfold drainFile
  dsimp only
  rw [Turn.effects_bind, Turn.perform, List.singleton_append, List.filter_cons_of_neg (Bool.eq_false_iff.mp hread)]
  cases hresult : (world.read file).result with
  | ok content =>
    have hnone := List.filter_eq_nil_iff.mpr fun effect heffect =>
      Bool.eq_false_iff.mp (absorb_givesNothingUp (settle draining file) file content effect heffect)
    simp [Reading.isTransient, hresult, hnone]
  | error fault =>
    cases hverdict : fault.verdict with
    | missing => simp [Reading.isTransient, hresult, hverdict]
    | undecodable =>
      have hreport := Effect.tellsGivingUp_event (.unreadable file fault)
      simp [Reading.isTransient, hresult, hverdict, Turn.report_effects, hreport, Failure.isGivingUp]
    | transient =>
      have hgave : (Effect.gaveUp file failures).tellsGivingUp = true :=
        Effect.tellsGivingUp_event (.retriesExhausted file failures)
      simp only [postpone, counted, Option.getD_some, Reading.isTransient, hresult, hverdict, decide_true,
        Bool.true_and]
      split
      · rw [Turn.effects_bind, Turn.report_effects, Turn.effects_pure, List.append_nil]
        exact List.filter_cons_of_pos hgave
      · rfl

/-- A failed read of a file adds one to its count. -/
theorem failures?_countFailure {pending : Pending} (rising : pending.Rising) {entry : Path × Nat}
    (marked : entry ∈ pending.entries) : (pending.countFailure entry.1).failures? entry.1 = some (entry.2 + 1) := by
  have hself : entry.1.same entry.1 = true := Path.same_iff.mpr rfl
  have hcounted : (entry.1, entry.2 + 1) ∈ (pending.countFailure entry.1).entries :=
    List.mem_map.mpr ⟨entry, marked, if_pos hself⟩
  exact Pending.failures?_of_mem rising.countFailure hcounted

/-- The drain of a file leaves the marks of the others. -/
theorem FileDrained.marked_other {file : Path} {before after : Session} (drained : FileDrained world file before after)
    {entry : Path × Nat} (other : entry.1.components ≠ file.components) (marked : entry ∈ before.pending.entries) :
    entry ∈ after.pending.entries := by
  have hother : entry.1.same file = false := Path.same_eq_false other (Path.same_iff.mpr rfl)
  have hkept : entry ∈ (before.pending.erase file).entries := List.mem_filter.mpr ⟨marked, by rw [hother]; rfl⟩
  cases drained with
  | retried => exact List.mem_map.mpr ⟨entry, marked, by rw [hother, if_neg Bool.false_ne_true]⟩
  | _ => exact hkept

/-- Of several files a drain gives up those whose reads fail once too often. -/
theorem foldlM_givesUp {entries : List (Path × Nat)} {draining : Draining} (sound : draining.session.Sound)
    (marked : ∀ entry ∈ entries, entry ∈ draining.session.pending.entries)
    (apart : entries.Pairwise fun a b => a.1.components ≠ b.1.components) :
    ((entries.map Prod.fst).foldlM (drainFile world) draining).effects.filter Effect.tellsGivingUp =
      (entries.filter fun entry =>
        (world.read entry.1).isTransient && draining.session.timing.exhausted (entry.2 + 1)).map
          fun entry => .gaveUp entry.1 (entry.2 + 1) := by
  -- the entries still to come keep their marks, and with these the counts that they had before the drain
  induction entries generalizing draining with
  | nil => rfl
  | cons first rest ih =>
    obtain ⟨hfirst, hothers⟩ := List.forall_mem_cons.mp marked
    obtain ⟨hne, hrest⟩ := List.pairwise_cons.mp apart
    have hdrained := drainFile_drained world draining first.1
    have hmarked : ∀ entry ∈ rest, entry ∈ (drainFile world draining first.1).value.session.pending.entries :=
      fun entry hentry => hdrained.marked_other world (hne entry hentry).symm (hothers entry hentry)
    have hhere := drainFile_givesUp world draining first.1 (failures?_countFailure sound.rising hfirst)
    have htiming : (drainFile world draining first.1).value.session.timing = draining.session.timing := by
      obtain ⟨pending, catalog, hframe⟩ := hdrained.frame
      rw [hframe]
    have hlater := ih (sound.drained hdrained) hmarked hrest
    rw [htiming] at hlater
    -- what is told of the first file comes before what is told of the others
    rw [List.map_cons, List.foldlM_cons, Turn.effects_bind, List.filter_append, hhere, hlater, List.filter_cons]
    split <;> rfl

/-- A drain gives up the pending files whose reads fail once too often, and nothing else. -/
theorem drain_givesUp (now : Nat) {session : Session} (sound : session.Sound) :
    (session.drain world now).effects.filter Effect.tellsGivingUp =
      (session.pending.entries.filter fun entry =>
        (world.read entry.1).isTransient && session.timing.exhausted (entry.2 + 1)).map
          fun entry => .gaveUp entry.1 (entry.2 + 1) := by
  have hbegun : ({ session with drainDue := none } : Session).Sound := sound.of_same rfl rfl
  have hapart : session.pending.entries.Pairwise fun a b => a.1.components ≠ b.1.components := by
    have hdistinct := sound.rising.paths_distinct
    unfold Pending.paths at hdistinct
    rwa [List.pairwise_map] at hdistinct
  have hgiven := @foldlM_givesUp world session.pending.entries ⟨{ session with drainDue := none }, false⟩ hbegun
    (fun _ hentry => hentry) hapart
  obtain ⟨read, hread, hdrain⟩ := drain_eq world now session
  have hpaths : session.pending.paths = session.pending.entries.map Prod.fst := rfl
  have hpublished : (if read.value.changed then Effect.publication read.value.session.catalog else []).filter
      Effect.tellsGivingUp = [] := by
    split <;> rfl
  rw [← hpaths, ← hread] at hgiven
  rw [hdrain, List.filter_append, hpublished, List.append_nil]
  exact hgiven

end

end Session

end TypingsIndex
