import TypingsIndex.Proofs.Watch.Parts
import TypingsIndex.Proofs.Watch.Replacement

/-!
# The wait before a drain

Files that become pending are left alone for a while. If no drain was due when the first of them was marked, that is
the time of quiescence. A drain that was due already stays due, and that can be so although nothing was pending: the
news of a removal or a renaming unmarks files, but leaves the time of the drain that was to read them
(`quiescence_cut_short`). No other work does so (`Rests.work`): where a drain, a scan or a move of the root leaves
nothing pending it leaves no drain due either.
-/

set_option autoImplicit false

namespace TypingsIndex

/-- A marked file is pending. -/
theorem Pending.isEmpty_of_contains {pending : Pending} {path : Path} (marked : pending.contains path = true) :
    pending.isEmpty = false := by
  obtain ⟨other, hother, -⟩ := contains_iff.mp marked
  refine Bool.eq_false_iff.mpr fun hempty => ?_
  rw [isEmpty_iff.mp hempty] at hother
  cases hother

/-- The path of a file that news brings, and that may become pending because of it. -/
def Command.brought? : Command → Option Path
  | .touched path | .renamed _ path => some path
  | _ => none

/-- Whether it is told that new settings ask for a scan, which then follows. -/
def Effect.tellsScan : Effect → Bool
  | .emit (.settingsReloaded rebuild) => rebuild
  | _ => false

namespace Session

/-- Whether a step of work scans the root. -/
def scans (session : Session) (part : Part) : Bool :=
  match part with
  | .handle _ _ .rebuild => true
  | .rescan _ now => isDue session.rescanDue now
  | .handle _ _ .settingsRemoved | .reload _ _ => (session.work part).effects.any Effect.tellsScan
  | _ => false

/-- Whether a step of work is the news of a removal or a renaming and leaves nothing pending of what was. -/
def unmarksAll (session : Session) (part : Part) : Bool :=
  match part with
  | .handle _ _ (.removed _) | .handle _ _ (.renamed _ _) =>
    !session.pending.isEmpty && (session.work part).value.pending.isEmpty
  | _ => false

/-- Whether one of several steps of work is of a kind. -/
def someStep (kind : Session → Part → Bool) (session : Session) : List Part → Bool
  | [] => false
  | part :: rest => kind session part || someStep kind (session.work part).value rest

/-- Where nothing is pending no drain is due. -/
def Rests (session : Session) : Prop :=
  session.pending.isEmpty = true → session.drainDue = none

/-! ## Work that leaves nothing pending -/

namespace Rests

variable {world : Surroundings} {now : Nat} {session : Session}

/-- A scan leaves a drain due only where files are to be tried again. -/
theorem rebuild (rests : session.Rests) : (session.rebuild world now).value.1.Rests := by
  obtain ⟨catalog, pending, due, hvalue, hdue⟩ := rebuild_frame world now session
  rw [hvalue]
  intro hempty
  rcases hdue with ⟨-, rfl⟩ | ⟨rfl, rfl⟩
  · exact if_pos hempty
  · exact rests hempty

/-- A drain leaves another one due only where files are to be tried again. -/
theorem drain : (session.drain world now).value.Rests := by
  obtain ⟨catalog, pending, hvalue⟩ := drain_frame world now session
  rw [hvalue]
  exact fun hempty => if_pos hempty

/-- Settings that are put in effect leave a drain due only where something is pending. -/
theorem applySettings (rests : session.Rests) (settings : Settings) :
    (session.applySettings world now settings).value.Rests := by
  have happlied := applySettings_applied world now session settings
  generalize session.applySettings world now settings = turn at happlied
  cases happlied with
  | same => exact rests
  | announced => exact rests
  | rebuilt =>
    refine rebuild ?_
    unfold underSettings
    split
    · exact rests
    · exact fun _ => rfl

/-- A touch asks for a drain only with something pending. -/
theorem touch (rests : session.Rests) (path : Path) : (session.touch world now path).Rests := by
  have htouched := touch_touched world now session path
  generalize session.touch world now path = after at htouched
  cases htouched with
  | marked =>
    intro hempty
    cases hempty.symm.trans (Pending.isEmpty_of_contains (Pending.contains_insert.mpr (.inl rfl)))
  | rescanned => exact rests
  | ignored => exact rests

/-- The news of a renaming ask for a drain only with something pending, if none was due before. -/
theorem rename (source target : Path) (rests : session.drainDue = none) :
    (session.rename world now source target).value.Rests := by
  have hrenamed := rename_renamed world now session source target
  generalize session.rename world now source target = turn at hrenamed
  cases hrenamed with
  | ignored => exact fun _ => rests
  | rescanned => exact fun _ => rests
  | moved => exact fun _ => rests
  | replaced =>
    refine touch (fun _ => ?_) target
    rw [remove_value]
    exact rests
  | arrived =>
    have hrests : ({ session with pending := session.pending.erase source } : Session).Rests := fun _ => rests
    exact hrests.touch target

/-- The reload of a poll leaves a drain due only where something is pending. -/
theorem reloadIfDue (rests : session.Rests) : (session.reloadIfDue world now).value.Rests := by
  have hunloaded : ({ session with reload := none } : Session).Rests := rests
  unfold Session.reloadIfDue
  split
  · split
    · next reload _ _ =>
      cases htransient : (world.read session.settingsFile).isTransient with
      | true =>
        rw [reloadSettings_of_transient world now session reload.attempts htransient]
        split
        · exact rests
        · exact rests
      | false =>
        rcases reloadSettings_of_settled world now session reload.attempts htransient with ⟨settings, h⟩ | ⟨fault, h⟩
        · rw [h]
          exact hunloaded.applySettings settings
        · rw [h]
          exact rests
    · exact rests
  · exact rests

/-- No work but the news of a removal or a renaming leaves nothing pending and a drain due. -/
theorem work (rests : session.Rests) {part : Part} (kept : session.unmarksAll part = false) :
    (session.work part).value.Rests := by
  cases part with
  | handle world now command =>
    rw [work_handle]
    cases command with
    | touched path =>
      rw [act_touched]
      exact rests.touch path
    | removed path =>
      -- the drain stays due here, and so something has to be left, or nothing must have been pending before
      intro hempty
      have hkept : (!session.pending.isEmpty && (session.act (.handle world now (.removed path))).value.pending.isEmpty)
        = false := kept
      rw [hempty, Bool.and_true, Bool.not_eq_false'] at hkept
      rw [act_removed, remove_value]
      exact rests hkept
    | renamed source target =>
      intro hempty
      have hkept : (!session.pending.isEmpty
        && (session.act (.handle world now (.renamed source target))).value.pending.isEmpty) = false := kept
      rw [hempty, Bool.and_true, Bool.not_eq_false'] at hkept
      rw [act_renamed] at hempty ⊢
      exact rename source target (rests hkept) hempty
    | settingsTouched => exact rests
    | settingsRemoved =>
      have hunloaded : ({ session with reload := none } : Session).Rests := rests
      rw [act_settingsRemoved]
      exact hunloaded.applySettings .default
    | rebuild =>
      rw [act_rebuild, Turn.value_map]
      exact rests.rebuild
    | shutdown => exact rests
  | reload => exact rests.reloadIfDue
  | rescan world now =>
    change (session.rescanIfDue world now).value.Rests
    unfold rescanIfDue
    split
    · exact rests.rebuild
    · exact rests
  | drain world now =>
    change (session.drainIfDue world now).value.Rests
    unfold drainIfDue
    split
    · exact drain
    · exact rests

/-- Steps of work of which none takes away the last mark leave a drain due only where something is pending. -/
theorem workAll (rests : session.Rests) {parts : List Part} (kept : session.someStep unmarksAll parts = false) :
    (session.workAll parts).value.Rests := by
  induction parts generalizing session with
  | nil => exact rests
  | cons part rest ih =>
    obtain ⟨hhere, hlater⟩ := Bool.or_eq_false_iff.mp kept
    rw [workAll_cons]
    exact ih (rests.work hhere) hlater

end Rests

/-! ## News that marks a file -/

section

variable {world : Surroundings} {now : Nat} {session : Session} {path : Path}

/-- Where nothing was pending, a file is pending after a touch only if it is accepted, and then the drain is due that
was before, or else one after the time of quiescence. -/
theorem touch_marks (rests : session.pending.isEmpty = true)
    (marked : (session.touch world now path).pending.isEmpty = false) :
    path.isDeclarationFile = true
      ∧ (session.touch world now path).drainDue = some (session.drainDue.getD (now + session.timing.quiescence)) := by
  have htouched := touch_touched world now session path
  generalize session.touch world now path = after at htouched marked
  cases htouched with
  | marked accepted =>
    unfold accepts at accepted
    refine ⟨(Bool.and_eq_true_iff.mp accepted).1, ?_⟩
    unfold requestDrain
    cases session.drainDue <;> rfl
  | rescanned => cases marked.symm.trans rests
  | ignored => cases marked.symm.trans rests

/-- News after which something is pending, where nothing was, have brought a declaration file. The drain is due when it
was before, or else after the time of quiescence. -/
theorem act_marks {command : Command} (brought : command.brought? = some path)
    (rests : session.pending.isEmpty = true)
    (marked : (session.act (.handle world now command)).value.pending.isEmpty = false) :
    path.isDeclarationFile = true ∧ (session.act (.handle world now command)).value.drainDue =
      some (session.drainDue.getD (now + session.timing.quiescence)) := by
  have hfewer : ∀ {fewer : Pending}, (∀ other ∈ fewer.paths, other ∈ session.pending.paths) → fewer.isEmpty = true := by
    intro fewer hsubset
    by_contra hsome
    cases rests.symm.trans (Pending.isEmpty_of_subset hsubset (Bool.not_eq_true _ ▸ hsome))
  cases command with
  | touched touched =>
    obtain rfl := Option.some.inj brought
    rw [act_touched] at marked ⊢
    exact touch_marks rests marked
  | renamed source target =>
    obtain rfl := Option.some.inj brought
    rw [act_renamed] at marked ⊢
    have hrenamed := rename_renamed world now session source target
    generalize session.rename world now source target = turn at hrenamed marked
    cases hrenamed with
    | ignored => cases marked.symm.trans rests
    | rescanned => cases marked.symm.trans (hfewer (session.pending.eraseBelow_subset source))
    | moved => cases rests.symm.trans (Pending.isEmpty_rename marked)
    | replaced =>
      have hremoved : (session.remove source).value.pending.isEmpty = true := by
        rw [remove_value]
        exact hfewer (session.pending.eraseBelow_subset source)
      have htouched := touch_marks hremoved marked
      rw [remove_value] at htouched ⊢
      exact htouched
    | arrived =>
      have herased : (session.pending.erase source).isEmpty = true := hfewer (session.pending.erase_subset source)
      let unmarked : Session := { session with pending := session.pending.erase source }
      have htouched := @touch_marks world now unmarked target herased marked
      exact htouched
  | _ => cases brought

end

/-! ## Waiting -/

section

variable {world : Surroundings} {now : Nat} {session : Session}

/-- Effects that read no declaration file. -/
def SparesDeclarations (effects : List Effect) : Prop :=
  ∀ file reading, .read file reading ∈ effects → file.isDeclarationFile = false

namespace SparesDeclarations

variable {effects more : List Effect}

/-- Without effects nothing is read. -/
theorem nil : SparesDeclarations [] :=
  fun _ _ hread => nomatch hread

/-- Effects that read no declaration file do so one after the other. -/
theorem append (h : SparesDeclarations effects) (hmore : SparesDeclarations more) :
    SparesDeclarations (effects ++ more) := by
  intro file reading hread
  rcases List.mem_append.mp hread with hfirst | hsecond
  · exact h file reading hfirst
  · exact hmore file reading hsecond

/-- The settings file is no declaration file. -/
theorem settingsRead (session : Session) (reading : Reading) :
    SparesDeclarations [.read session.settingsFile reading] := by
  intro file other hread
  cases List.mem_singleton.mp hread
  exact Settings.fileIn_not_declaration session.base

/-- A publication reads no declaration file. -/
theorem publication (catalog : Catalog) : SparesDeclarations (Effect.publication catalog) := by
  intro file reading hread
  simp [Effect.publication] at hread

/-- News read no declaration file. -/
theorem news {command : Command} (news : command.IsNews) :
    SparesDeclarations (session.act (.handle world now command)).effects := by
  rcases news_effects world now session news with h | ⟨catalog, h⟩
  · rw [h]
    exact nil
  · rw [h]
    exact publication catalog

end SparesDeclarations

/-- New settings that ask for no scan leave what is pending and when it is read, and read nothing. -/
theorem applySettings_waits {settings : Settings}
    (unscanned : (session.applySettings world now settings).effects.any Effect.tellsScan = false) :
    (session.applySettings world now settings).value.drainDue = session.drainDue
      ∧ SparesDeclarations (session.applySettings world now settings).effects := by
  by_cases hsame : session.settings = settings
  · have hempty : (SettingsChange.between session.settings settings).isEmpty = true :=
      SettingsChange.isEmpty_iff.mpr hsame
    unfold applySettings
    dsimp only
    rw [if_pos hempty]
    exact ⟨rfl, .nil⟩
  · rw [applySettings_adjusts world now session settings hsame] at unscanned ⊢
    by_cases halike : session.settings.AlikeBesidesOutput settings
    · rw [adjust_of_alike world now session halike]
      refine ⟨rfl, fun file reading hread => ?_⟩
      simp at hread
    · rw [adjust_of_different world now session halike] at unscanned
      simp [Effect.tellsScan] at unscanned

/-- A reload that asks for no scan leaves the drain due when it was, and reads no declaration file. -/
theorem reloadIfDue_waits (unscanned : (session.reloadIfDue world now).effects.any Effect.tellsScan = false) :
    (session.reloadIfDue world now).value.drainDue = session.drainDue
      ∧ SparesDeclarations (session.reloadIfDue world now).effects := by
  have hread : ∀ {effects}, SparesDeclarations effects →
      SparesDeclarations (.read session.settingsFile (world.read session.settingsFile) :: effects) :=
    (SparesDeclarations.settingsRead session (world.read session.settingsFile)).append
  unfold reloadIfDue at unscanned ⊢
  split
  · next reload hreload =>
    simp only [hreload] at unscanned
    by_cases hdue : reload.due ≤ now
    · rw [if_pos hdue] at unscanned ⊢
      cases htransient : (world.read session.settingsFile).isTransient with
      | true =>
        rw [reloadSettings_of_transient world now session reload.attempts htransient]
        split
        · exact ⟨rfl, hread fun _ _ hmember => by simp at hmember⟩
        · exact ⟨rfl, hread .nil⟩
      | false =>
        rcases reloadSettings_of_settled world now session reload.attempts htransient with ⟨settings, h⟩ | ⟨fault, h⟩
        · rw [h] at unscanned ⊢
          obtain ⟨hdrain, hspares⟩ := applySettings_waits (Bool.or_eq_false_iff.mp unscanned).2
          exact ⟨hdrain, hread hspares⟩
        · rw [h]
          exact ⟨rfl, hread fun _ _ hmember => by simp at hmember⟩
    · rw [if_neg hdue]
      exact ⟨rfl, .nil⟩
  · exact ⟨rfl, .nil⟩

/-- Before its time a drain stays due in work that does not scan, and no declaration file is read. -/
theorem work_waits {part : Part} {due : Nat} (waits : session.drainDue = some due)
    (unscanned : session.scans part = false) (early : ∀ world now, part = .drain world now → now < due) :
    (session.work part).value.drainDue = some due ∧ SparesDeclarations (session.work part).effects := by
  have hnews : ∀ {world now command}, command.IsNews →
      (session.act (.handle world now command)).value.drainDue = some due
        ∧ SparesDeclarations (session.act (.handle world now command)).effects :=
    fun news => ⟨(Keeps.act news).drain due waits, .news news⟩
  -- News keep the drain that is due; of the work that is due, only scans and the drain read files, and neither is
  -- run.
  cases part with
  | handle world now command =>
    rw [work_handle]
    cases command with
    | touched | removed | renamed | settingsTouched => exact hnews trivial
    | settingsRemoved =>
      unfold scans at unscanned
      rw [work_handle, act_settingsRemoved] at unscanned
      rw [act_settingsRemoved]
      obtain ⟨hdrain, hspares⟩ := applySettings_waits unscanned
      exact ⟨hdrain.trans waits, hspares⟩
    | rebuild => cases unscanned
    | shutdown => exact ⟨waits, .nil⟩
  | reload world now =>
    obtain ⟨hdrain, hspares⟩ := reloadIfDue_waits unscanned
    exact ⟨hdrain.trans waits, hspares⟩
  | rescan world now =>
    have hidle : ¬ isDue session.rescanDue now = true := Bool.eq_false_iff.mp unscanned
    change (session.rescanIfDue world now).value.drainDue = _
      ∧ SparesDeclarations (session.rescanIfDue world now).effects
    unfold rescanIfDue
    rw [if_neg hidle]
    exact ⟨waits, .nil⟩
  | drain world now =>
    have hidle : ¬ isDue session.drainDue now = true := by
      have hlt := early world now rfl
      simp [isDue, waits, hlt]
    change (session.drainIfDue world now).value.drainDue = _
      ∧ SparesDeclarations (session.drainIfDue world now).effects
    unfold drainIfDue
    rw [if_neg hidle]
    exact ⟨waits, .nil⟩

/-- Steps of work up to the time at which the drain is due, without a scan, read no declaration file. -/
theorem workAll_waits {parts : List Part} {due : Nat} (waits : session.drainDue = some due)
    (unscanned : session.someStep scans parts = false) (early : ∀ world now, .drain world now ∈ parts → now < due) :
    SparesDeclarations (session.workAll parts).effects := by
  induction parts generalizing session with
  | nil => exact .nil
  | cons part rest ih =>
    obtain ⟨hhere, hlater⟩ := Bool.or_eq_false_iff.mp unscanned
    obtain ⟨hwaits, hspares⟩ := work_waits waits hhere fun world now h => early world now (h ▸ List.mem_cons_self)
    have hrest := ih hwaits hlater fun world now h => early world now (List.mem_cons_of_mem part h)
    rw [workAll_cons, Turn.effects_bind]
    exact hspares.append hrest

end

/-- A file that news brings is left alone for a while. After any work, where nothing is pending, let news at a time make
a file pending. Then, whatever is done without a scan of the root, the file is not read before the drain that was due,
or one after the time of quiescence if none was. None was due, and so the whole time is kept, unless the news of a
removal or a renaming has left nothing pending of what was. -/
theorem quiescence_kept (first : Surroundings) (base : Path) (settings : Settings) (timing : Timing) (past : List Part)
    (world : Surroundings) (now : Nat) {command : Command} {path : Path} (brought : command.brought? = some path) :
    let opened := Session.start first base settings timing
    let session := (opened.workAll past).value
    let after := (session.work (.handle world now command)).value
    let due := session.drainDue.getD (now + timing.quiescence)
    session.pending.isEmpty = true → after.pending.contains path = true →
      (opened.someStep unmarksAll past = false → due = now + timing.quiescence)
        ∧ ∀ parts, after.someStep scans parts = false → (∀ later time, .drain later time ∈ parts → time < due) →
          ∀ file reading, .read file reading ∈ (after.workAll parts).effects → file.components ≠ path.components := by
  intro opened session after due rests marked
  have htiming : session.timing = timing := workAll_timing opened past
  obtain ⟨hdeclared, hdue⟩ := act_marks brought rests (Pending.isEmpty_of_contains marked)
  rw [htiming] at hdue
  refine ⟨fun hkept => ?_, fun parts unscanned early file reading hread hsame => ?_⟩
  · have hstart : opened.Rests := fun _ => rfl
    have hnone : session.drainDue = none := hstart.workAll hkept rests
    change session.drainDue.getD _ = _
    rw [hnone, Option.getD_none]
  · have hother := workAll_waits hdue unscanned early file reading hread
    rw [Path.isDeclarationFile_congr hsame, hdeclared] at hother
    cases hother

/-- A file that is touched at 700 is not read before 1200, also if it is touched again. -/
theorem quiescence_kept_again :
    let file : Path := ⟨"/w/a.d.ts"⟩
    let other : Path := ⟨"/w/b.d.ts"⟩
    let world : Surroundings := .ofFile file (.content "export declare function f(): void;")
    let past : List Part := [.handle world 0 (.touched file), .drain world 500]
    let session := ((Session.start world ⟨"/w"⟩ .default {}).workAll past).value
    let after := (session.work (.handle world 700 (.touched other))).value
    let parts : List Part := [.handle world 800 (.removed file), .drain world 1100, .handle world 1150 (.touched other),
      .drain world 1199]
    session.pending.isEmpty = true ∧ after.pending.contains other = true
      ∧ ∀ file reading, .read file reading ∈ (after.workAll parts).effects → file.components ≠ other.components := by
  intro file other world past session after parts
  have hrests : session.pending.isEmpty = true := by decide +kernel
  have hmarked : after.pending.contains other = true := by decide +kernel
  have hkept : (Session.start world ⟨"/w"⟩ .default {}).someStep unmarksAll past = false := by decide +kernel
  have hunscanned : after.someStep scans parts = false := by decide +kernel
  obtain ⟨hdue, hwaits⟩ :=
    @quiescence_kept world ⟨"/w"⟩ .default {} past world 700 (.touched other) other rfl hrests hmarked
  refine ⟨hrests, hmarked, hwaits parts hunscanned fun later time hdrain => ?_⟩
  rw [hdue hkept]
  simp only [parts, List.mem_cons, reduceCtorEq, Part.drain.injEq, false_or, List.not_mem_nil, or_false] at hdrain
  rcases hdrain with ⟨-, rfl⟩ | ⟨-, rfl⟩ <;> decide

/-- The drain that was due for a file that is gone reads another one too early: the other is touched at 400, and read at
500. -/
theorem quiescence_cut_short :
    let file : Path := ⟨"/w/a.d.ts"⟩
    let other : Path := ⟨"/w/b.d.ts"⟩
    let reading : Reading := .content "export declare function f(): void;"
    let world : Surroundings := .ofFile file reading
    let timing : Timing := {}
    let past : List Part := [.handle world 0 (.touched file), .handle world 100 (.removed file)]
    let session := ((Session.start world ⟨"/w"⟩ .default timing).workAll past).value
    let after := (session.work (.handle world 400 (.touched other))).value
    session.pending.isEmpty = true ∧ after.pending.contains other = true
      ∧ after.someStep scans [.drain world 500] = false
      ∧ (after.workAll [.drain world 500]).effects.filterMap Effect.reading? = [(other, reading)]
      ∧ 500 < 400 + timing.quiescence := by
  decide +kernel

end Session

end TypingsIndex
