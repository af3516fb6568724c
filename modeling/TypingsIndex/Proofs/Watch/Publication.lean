import TypingsIndex.Proofs.Watch.Run

/-!
# What a session publishes and tells

A catalog is published and told in one go, and nothing else tells of a catalog. So the effects of any piece of work
*relay* what can be looked up (`Relays`): a follower that takes over each catalog it is told of is never behind, at
every boundary between two deeds the published catalog and settings are those of the session, and the catalog of
an event is the published one at that moment.

How often a catalog is told is a second question. News of files, and reading the pending files, tell of one exactly
if the list of modules has changed (`TellsOnChange`); a scan that succeeds tells of one in any case, and one that
fails only if it has emptied the catalog. For a drain this needs that the mark of a change is never set in vain
although several files are read: what has changed at one path stays so, since no path is read twice.
-/

set_option autoImplicit false

namespace TypingsIndex

namespace Effect

/-- The catalogs that effects tell of, in order. -/
def told (effects : List Effect) : List Catalog :=
  effects.filterMap toldCatalog?

/-- No effects tell of no catalog. -/
@[simp] theorem told_nil : told [] = [] := rfl

/-- The catalogs that effects tell of after others come behind theirs. -/
@[simp] theorem told_append (effects more : List Effect) : told (effects ++ more) = told effects ++ told more :=
  List.filterMap_append

/-- A publication tells of its catalog. -/
@[simp] theorem told_publication (catalog : Catalog) : told (publication catalog) = [catalog] := rfl

/-- Reading a file tells of no catalog. -/
@[simp] theorem told_read (file : Path) (reading : Reading) (rest : List Effect) :
    told (.read file reading :: rest) = told rest := rfl

/-- Publishing settings tells of no catalog. -/
@[simp] theorem told_publishSettings (settings : Settings) (rest : List Effect) :
    told (.publishSettings settings :: rest) = told rest := rfl

/-- Effects of which none tells of a catalog tell of none together. -/
theorem told_quiet {effects : List Effect} (h : ∀ effect ∈ effects, effect.toldCatalog? = none) :
    told effects = [] :=
  List.filterMap_eq_nil_iff.mpr h

end Effect

/-! ## Following what is published -/

/-- Effects that lead from what can be looked up first to what can be looked up last, each catalog being told
as soon as it is published. -/
inductive Relays : Published → List Effect → Published → Prop where
  | done (published : Published) : Relays published [] published
  | quiet {first last : Published} {effect : Effect} {rest : List Effect}
      (untold : effect.toldCatalog? = none) (same : ∀ published : Published, published.step effect = published)
      (relays : Relays first rest last) : Relays first (effect :: rest) last
  | settings {first last : Published} {settings : Settings} {rest : List Effect}
      (relays : Relays { first with settings := settings } rest last) :
      Relays first (.publishSettings settings :: rest) last
  | catalog {first last : Published} {catalog : Catalog} {rest : List Effect}
      (relays : Relays { first with catalog := catalog } rest last) :
      Relays first (.publishCatalog catalog :: .emit (.catalogChanged catalog) :: rest) last

namespace Relays

variable {first between last : Published} {effects more : List Effect}

/-- Effects that follow what is published, after others that do so, follow it together. -/
theorem append (h : Relays first effects between) (hmore : Relays between more last) :
    Relays first (effects ++ more) last := by
  induction h with
  | done => exact hmore
  | quiet untold same _ ih => exact .quiet untold same (ih hmore)
  | settings _ ih => exact .settings (ih hmore)
  | catalog _ ih => exact .catalog (ih hmore)

/-- Asides and readings change nothing that can be looked up. -/
theorem of_quiet (h : ∀ effect ∈ effects, effect.IsAside ∨ ∃ file reading, effect = .read file reading)
    (published : Published) : Relays published effects published := by
  induction effects with
  | nil => exact .done published
  | cons effect rest ih =>
    obtain ⟨heffect, hrest⟩ := List.forall_mem_cons.mp h
    rcases heffect with haside | ⟨file, reading, rfl⟩
    · exact .quiet haside.toldCatalog? haside.step (ih hrest)
    · exact .quiet rfl (fun _ => rfl) (ih hrest)

/-- What happens aside leaves what is published as it is. -/
theorem of_asides (h : ∀ effect ∈ effects, effect.IsAside) (published : Published) :
    Relays published effects published :=
  of_quiet (fun effect heffect => .inl (h effect heffect)) published

/-- A publication leads to its catalog, and leaves the settings that are published. -/
theorem publication (published : Published) (catalog : Catalog) :
    Relays published (Effect.publication catalog) { published with catalog := catalog } :=
  .catalog (.done _)

/-- What can be looked up after the effects. -/
theorem after_eq (h : Relays first effects last) : first.after effects = last := by
  induction h with
  | done => rfl
  | quiet _ same _ ih =>
    rw [← ih]
    exact congrArg (Published.after · _) (same _)
  | settings _ ih => exact ih
  | catalog _ ih => exact ih

/-- A catalog that is told of is the one that can be looked up at that moment. -/
theorem catalog_of_told (h : Relays first effects last) {front back : List Effect} {catalog : Catalog}
    (told : effects = front ++ .emit (.catalogChanged catalog) :: back) :
    (first.after front).catalog = catalog := by
  induction h generalizing front with
  | done => simp at told
  | quiet untold same _ ih =>
    cases front with
    | nil =>
      obtain ⟨rfl, -⟩ := List.cons.inj told
      cases untold
    | cons effect others =>
      obtain ⟨rfl, hrest⟩ := List.cons.inj told
      rw [← ih hrest]
      exact congrArg (fun published => (Published.after published others).catalog) (same _)
  | settings _ ih =>
    cases front with
    | nil => cases (List.cons.inj told).1
    | cons effect others =>
      obtain ⟨rfl, hrest⟩ := List.cons.inj told
      exact ih hrest
  | catalog _ ih =>
    cases front with
    | nil => cases (List.cons.inj told).1
    | cons effect others =>
      obtain ⟨rfl, hrest⟩ := List.cons.inj told
      cases others with
      | nil =>
        obtain ⟨hevent, -⟩ := List.cons.inj hrest
        injection hevent with hevent
        injection hevent
      | cons event others =>
        obtain ⟨rfl, hlater⟩ := List.cons.inj hrest
        have hlast := ih hlater
        exact hlast

/-- The catalog that was told of last is the one that can be looked up in the end; if none was, that is the one
from before. -/
theorem last_told (h : Relays first effects last) :
    (Effect.told effects).getLast?.getD first.catalog = last.catalog := by
  induction h with
  | done => rfl
  | quiet untold _ _ ih =>
    unfold Effect.told at ih ⊢
    rw [List.filterMap_cons_none untold]
    exact ih
  | settings _ ih => exact ih
  | @catalog _ _ catalog rest _ ih =>
    have htold : Effect.told (.publishCatalog catalog :: .emit (.catalogChanged catalog) :: rest) =
        catalog :: Effect.told rest := rfl
    rw [htold, List.getLast?_cons]
    exact ih

end Relays

namespace Session

/-- What can be looked up of a session that has published all that it has. -/
def shown (session : Session) : Published :=
  ⟨session.catalog, session.settings⟩

variable (world : Surroundings) (now : Nat)

/-- The news of a removal publish what they leave. -/
theorem remove_relays (session : Session) (path : Path) :
    Relays session.shown (session.remove path).effects (session.remove path).value.shown := by
  rw [remove_effects, remove_value]
  cases catalogWithout? session.catalog path with
  | none => exact .done _
  | some catalog => exact .publication _ catalog

/-- A touch neither reads nor publishes. -/
theorem touch_shown (session : Session) (path : Path) : (session.touch world now path).shown = session.shown := by
  have htouched := touch_touched world now session path
  generalize session.touch world now path = after at htouched
  cases htouched <;> rfl

/-- The news of a renaming publish what they leave. -/
theorem rename_relays (session : Session) (source target : Path) :
    Relays session.shown (session.rename world now source target).effects
      (session.rename world now source target).value.shown := by
  have hrenamed := rename_renamed world now session source target
  generalize session.rename world now source target = turn at hrenamed
  cases hrenamed with
  | ignored | rescanned => exact .done _
  | moved taken => exact .publication _ _
  | replaced =>
    rw [touch_shown]
    exact remove_relays session source
  | arrived =>
    rw [touch_shown]
    exact .done _

/-- Reading pending files tells of nothing before the drain is over. -/
theorem foldlM_drainFile_quiet (world : Surroundings) (files : List Path) (draining : Draining) :
    ∀ effect ∈ (files.foldlM (drainFile world) draining).effects,
      effect.IsAside ∨ ∃ file reading, effect = .read file reading := by
  intro effect heffect
  rcases (foldlM_drainFile_effects world draining files).1 effect heffect with haside | ⟨file, -, rfl⟩
  · exact .inl haside
  · exact .inr ⟨file, _, rfl⟩

/-! ## When a drain has changed the catalog -/

section

variable {draining : Draining} {file : Path} {start : List Module} {files : List Path}

/-- Reading a file sets the mark of a change exactly if it puts a module in or takes one out, of this file. -/
theorem drainFile_changed (world : Surroundings) (file : Path) (consistent : draining.session.catalog.Consistent) :
    ((drainFile world draining file).value.changed = draining.changed
        ∧ (drainFile world draining file).value.session.catalog = draining.session.catalog)
      ∨ ((drainFile world draining file).value.changed = true
        ∧ ∃ entry : Module, entry.file.components = file.components
          ∧ ¬ (entry ∈ (drainFile world draining file).value.session.catalog.modules
            ↔ entry ∈ draining.session.catalog.modules)) := by
  unfold drainFile
  rw [Turn.value_bind]
  cases (world.read file).result with
  | ok text =>
    simp only [absorb]
    split
    · exact .inl ⟨rfl, rfl⟩
    · next hunknown =>
      cases functionsOf file text with
      | error failure => exact .inl ⟨rfl, rfl⟩
      | ok functions =>
        cases htaken : (settle draining file).session.catalogWith? file functions text with
        | none =>
          simp only [htaken]
          exact .inl ⟨rfl, rfl⟩
        | some catalog =>
          simp only [htaken]
          obtain ⟨new, hnew, -, hdigest, -, hmem⟩ := mem_catalogWith? consistent htaken
          -- were the module there already, its digest would have been known
          refine .inr ⟨rfl, new, hnew, fun hsame => hunknown ?_⟩
          exact (hasDigest_iff consistent).mpr ⟨new, hsame.mp ((hmem new).mpr (.inl rfl)), hnew, hdigest⟩
  | error fault =>
    cases hverdict : fault.verdict with
    | missing =>
      simp only [hverdict, forget]
      cases htaken : (settle draining file).session.catalog.erase? file with
      | none => exact .inl ⟨rfl, rfl⟩
      | some taken =>
        obtain ⟨entry, hentry, hpath⟩ := Catalog.exists_of_erase? consistent htaken
        refine .inr ⟨rfl, entry, hpath, fun hsame => ?_⟩
        exact ((Catalog.mem_erase? consistent htaken).mp (hsame.mpr hentry)).2 hpath
    | undecodable =>
      simp only [hverdict]
      exact .inl ⟨rfl, rfl⟩
    | transient =>
      simp only [hverdict, postpone]
      split <;> exact .inl ⟨rfl, rfl⟩

/-- What is true in the middle of a drain that began with some modules: where files are still to be read nothing
has changed, and the mark of a change tells of one elsewhere. -/
structure Marks (start : Catalog) (files : List Path) (draining : Draining) : Prop where
  ahead : ∀ entry : Module, (∃ file ∈ files, entry.file.components = file.components) →
    (entry ∈ draining.session.catalog.modules ↔ entry ∈ start.modules)
  same : draining.changed = false → draining.session.catalog = start
  differs : draining.changed = true → ∃ entry : Module,
    (∀ file ∈ files, entry.file.components ≠ file.components)
      ∧ ¬ (entry ∈ draining.session.catalog.modules ↔ entry ∈ start.modules)

/-- The reading of the first file of those still to be read marks a change exactly if it makes one. -/
theorem Marks.next {start : Catalog} {draining : Draining} {file : Path} {rest : List Path}
    (marks : Marks start (file :: rest) draining) (sound : draining.session.Sound)
    (fresh : ∀ other ∈ rest, file.components ≠ other.components) :
    Marks start rest (drainFile world draining file).value := by
  have hother : ∀ entry : Module, entry.file.components ≠ file.components →
      (entry ∈ (drainFile world draining file).value.session.catalog.modules
        ↔ entry ∈ draining.session.catalog.modules) :=
    fun _ => (drainFile_drained world draining file).mem_other sound.consistent
  rcases drainFile_changed world file sound.consistent with
    ⟨hchanged, hcatalog⟩ | ⟨hchanged, entry, hentry, hdiffers⟩
  · refine ⟨fun entry ⟨other, hmem, hpath⟩ => ?_, fun h => ?_, fun h => ?_⟩
    · rw [hcatalog]
      exact marks.ahead entry ⟨other, List.mem_cons_of_mem _ hmem, hpath⟩
    · rw [hcatalog]
      exact marks.same (hchanged ▸ h)
    · obtain ⟨entry, hentry, hdiffers⟩ := marks.differs (hchanged ▸ h)
      rw [hcatalog]
      exact ⟨entry, fun other hmem => hentry other (List.mem_cons_of_mem _ hmem), hdiffers⟩
  · refine ⟨fun entry ⟨other, hmem, hpath⟩ => ?_, fun h => ?_, fun _ => ?_⟩
    · rw [hother entry fun hsame => fresh other hmem (hsame.symm.trans hpath)]
      exact marks.ahead entry ⟨other, List.mem_cons_of_mem _ hmem, hpath⟩
    · cases hchanged.symm.trans h
    · refine ⟨entry, fun other hmem hsame => fresh other hmem (hentry.symm.trans hsame), ?_⟩
      rwa [← marks.ahead entry ⟨file, List.mem_cons_self, hentry⟩]

/-- When all files are read, a change is marked exactly if there is one. -/
theorem Marks.last {start : Catalog} {draining : Draining} {files : List Path}
    (marks : Marks start files draining) (sound : draining.session.Sound)
    (distinct : files.Pairwise fun a b => a.components ≠ b.components) :
    Marks start [] (files.foldlM (drainFile world) draining).value := by
  induction files generalizing draining with
  | nil => exact marks
  | cons file rest ih =>
    obtain ⟨hfresh, hrest⟩ := List.pairwise_cons.mp distinct
    rw [List.foldlM_cons, Turn.value_bind]
    exact ih (marks.next world sound hfresh) (sound.drained (drainFile_drained world draining file)) hrest

/-- A drain sets the mark of a change exactly if the modules are not those from before. -/
theorem drain_marks (world : Surroundings) {session : Session} (sound : session.Sound) :
    Marks session.catalog []
      (session.pending.paths.foldlM (drainFile world) ⟨{ session with drainDue := none }, false⟩).value := by
  have hbegun : ({ session with drainDue := none } : Session).Sound := sound.of_same rfl rfl
  refine Marks.last world ⟨fun _ _ => Iff.rfl, fun _ => rfl, ?_⟩ hbegun sound.rising.paths_distinct
  intro h
  cases h

end

/-! ## Each piece of work relays -/

/-- Only the catalog of what can be looked up can change in a drain. -/
theorem foldlM_drainFile_settings (world : Surroundings) (files : List Path) (draining : Draining) :
    (files.foldlM (drainFile world) draining).value.session.settings = draining.session.settings := by
  refine foldlM_drainFile_invariant (P := fun session => session.settings = draining.session.settings)
    (fun _ _ before after hbefore hdrained => ?_) rfl
  obtain ⟨pending, catalog, rfl⟩ := hdrained.frame
  exact hbefore

/-- Putting off files changes nothing that is shown. -/
theorem scheduleRetry_shown (session : Session) : (session.scheduleRetry now).shown = session.shown := by
  unfold scheduleRetry
  split <;> rfl

/-- A drain publishes what it leaves. -/
theorem drain_relays {session : Session} (sound : session.Sound) :
    Relays session.shown (session.drain world now).effects (session.drain world now).value.shown := by
  obtain ⟨read, hread, hdrain⟩ := drain_eq world now session
  have hmarks := drain_marks world sound
  have hsettings := foldlM_drainFile_settings world session.pending.paths
    ⟨{ session with drainDue := none }, false⟩
  have hquiet := foldlM_drainFile_quiet world session.pending.paths
    ⟨{ session with drainDue := none }, false⟩
  rw [← hread] at hmarks hsettings hquiet
  rw [hdrain, scheduleRetry_shown]
  refine (Relays.of_quiet hquiet session.shown).append ?_
  have hshown : read.value.session.shown = { session.shown with catalog := read.value.session.catalog } :=
    congrArg (Published.mk read.value.session.catalog) hsettings
  rw [hshown]
  split
  · exact .publication _ _
  · next hchanged =>
    rw [hmarks.same (Bool.not_eq_true _ ▸ hchanged)]
    exact .done _

/-- A scan publishes what it leaves. -/
theorem rebuild_relays (session : Session) :
    Relays session.shown (session.rebuild world now).effects (session.rebuild world now).value.1.shown := by
  have hscanned := rebuild_scanned world now session
  generalize session.rebuild world now = turn at hscanned
  cases hscanned with
  | scanned found asides =>
    rw [scheduleRetry_shown]
    refine (Relays.of_quiet (fun effect heffect => ?_) session.shown).append (.publication _ _)
    rcases List.mem_append.mp heffect with hread | hreport
    · obtain ⟨entry, -, rfl⟩ := List.mem_map.mp hread
      exact .inr ⟨_, _, rfl⟩
    · exact .inl (asides effect hreport)
  | emptied => exact (Relays.publication _ _).append (.quiet rfl (fun _ => rfl) (.done _))
  | failed => exact .quiet rfl (fun _ => rfl) (.done _)

/-- A session under new settings shows these, and the modules as they are. -/
theorem underSettings_shown (session : Session) (settings : Settings) :
    (session.underSettings world settings).shown = { session.shown with settings := settings } := by
  unfold underSettings
  split <;> rfl

variable {world now} in
/-- Settings that are put in effect are published, and so is the catalog of the scan that they ask for. -/
theorem applied_relays {session : Session} {settings : Settings} {turn : Turn Session}
    (applied : SettingsApplied world now session settings turn) :
    Relays session.shown turn.effects turn.value.shown := by
  cases applied with
  | same => exact .done _
  | announced asides => exact .settings (.of_asides asides _)
  | rebuilt asides =>
    have hrebuilt := rebuild_relays world now (session.underSettings world settings)
    rw [underSettings_shown] at hrebuilt
    exact .settings ((Relays.of_asides asides _).append hrebuilt)

variable {world now} in
/-- Loading the settings file publishes what it leaves. -/
theorem loaded_relays {session : Session} {attempts : Nat} {turn : Turn Session}
    (loaded : SettingsLoaded world now session attempts turn) :
    Relays session.shown turn.effects turn.value.shown := by
  cases loaded with
  | applied outcome =>
    have happlied := applied_relays outcome
    exact .quiet rfl (fun _ => rfl) happlied
  | refused asides => exact .quiet rfl (fun _ => rfl) (.of_asides asides _)
  | postponed => exact .quiet rfl (fun _ => rfl) (.done _)

/-- The reload of a poll publishes what it leaves. -/
theorem reloadIfDue_relays (session : Session) :
    Relays session.shown (session.reloadIfDue world now).effects (session.reloadIfDue world now).value.shown := by
  unfold reloadIfDue
  split
  · split
    · exact loaded_relays (reloadSettings_loaded world now session _)
    · exact .done _
  · exact .done _

/-- The scan of a poll publishes what it leaves. -/
theorem rescanIfDue_relays (session : Session) :
    Relays session.shown (session.rescanIfDue world now).effects (session.rescanIfDue world now).value.shown := by
  unfold rescanIfDue
  split
  · rw [Turn.effects_bind, Turn.effects_pure, List.append_nil]
    exact rebuild_relays world now session
  · exact .done _

/-- The drain of a poll publishes what it leaves. -/
theorem drainIfDue_relays {session : Session} (sound : session.Sound) :
    Relays session.shown (session.drainIfDue world now).effects (session.drainIfDue world now).value.shown := by
  unfold drainIfDue
  split
  · exact drain_relays world now sound
  · exact .done _

/-- Every deed publishes what it leaves. -/
theorem act_relays {session : Session} (sound : session.Sound) (deed : Deed) :
    Relays session.shown (session.act deed).effects (session.act deed).value.shown := by
  cases deed with
  | handle world now command =>
    cases command with
    | touched path =>
      rw [act_touched, Turn.value_pure, touch_shown]
      exact .done _
    | removed path =>
      rw [act_removed]
      exact remove_relays session path
    | renamed source target =>
      rw [act_renamed]
      exact rename_relays world now session source target
    | settingsTouched => exact .done _
    | settingsRemoved =>
      have happlied := applied_relays (applySettings_applied world now { session with reload := none } .default)
      rw [act_settingsRemoved]
      exact happlied
    | rebuild =>
      rw [act_rebuild, Turn.effects_map, Turn.value_map]
      exact rebuild_relays world now session
    | shutdown => exact .done _
  | poll atReload atRescan atDrain now =>
    have hreload := reloadIfDue_relays atReload now session
    have hreloaded : (session.reloadIfDue atReload now).value.Sound := sound.reloadIfDue
    have hrescan := rescanIfDue_relays atRescan now (session.reloadIfDue atReload now).value
    have hrescanned : ((session.reloadIfDue atReload now).value.rescanIfDue atRescan now).value.Sound :=
      hreloaded.rescanIfDue
    have hdrain := drainIfDue_relays atDrain now hrescanned
    exact hreload.append (hrescan.append hdrain)

/-- The effects of a run relay what can be looked up. -/
theorem run_relays {session : Session} (sound : session.Sound) (deeds : List Deed) :
    Relays session.shown (session.run deeds).effects (session.run deeds).value.shown := by
  induction deeds generalizing session with
  | nil => exact .done _
  | cons deed rest ih =>
    have hrest := ih (sound.act deed)
    unfold run at hrest ⊢
    rw [List.foldlM_cons, Turn.effects_bind, Turn.value_bind]
    exact (act_relays sound deed).append hrest

/-! ## How often a catalog is told -/

/-- A turn tells of one catalog, the new one, if it has changed the list of modules, and of none if not. -/
def TellsOnChange (before : Session) (turn : Turn Session) : Prop :=
  Effect.told turn.effects =
    if turn.value.catalog.modules = before.catalog.modules then [] else [turn.value.catalog]

variable {session : Session}

/-- A turn that changes no module and tells of no catalog tells on a change. -/
theorem TellsOnChange.of_same {turn : Turn Session} (untold : Effect.told turn.effects = [])
    (same : turn.value.catalog.modules = session.catalog.modules) : session.TellsOnChange turn := by
  unfold TellsOnChange
  rw [if_pos same, untold]

/-- A turn that changes the modules and tells of the new catalog once tells on a change. -/
theorem TellsOnChange.of_changed {turn : Turn Session}
    (told : Effect.told turn.effects = [turn.value.catalog])
    (changed : turn.value.catalog.modules ≠ session.catalog.modules) : session.TellsOnChange turn := by
  unfold TellsOnChange
  rw [if_neg changed, told]

/-- Where something is at or below a path, taking that out changes the modules. -/
theorem catalogWithout?_changes {catalog after : Catalog} {path : Path} (consistent : catalog.Consistent)
    (h : catalogWithout? catalog path = some after) : after.modules ≠ catalog.modules := by
  intro hsame
  unfold catalogWithout? at h
  split at h
  · obtain ⟨taken, htaken, rfl⟩ := Option.map_eq_some_iff.mp h
    obtain ⟨entry, hentry, hpath⟩ := Catalog.exists_of_erase? consistent htaken
    rw [← hsame] at hentry
    exact ((Catalog.mem_erase? consistent htaken).mp hentry).2 hpath
  · split at h
    · next hbelow =>
      obtain rfl := Option.some.inj h
      obtain ⟨entry, hentry, hat⟩ := List.any_eq_true.mp hbelow
      rw [← hsame] at hentry
      cases hat.symm.trans (Catalog.mem_eraseBelow.mp hentry).2
    · cases h

/-- The news of a removal tell of a catalog once if they drop a module, and of none if not. -/
theorem remove_tells (sound : session.Sound) (path : Path) : session.TellsOnChange (session.remove path) := by
  have heffects := remove_effects session path
  have hvalue := remove_value session path
  cases hwithout : catalogWithout? session.catalog path with
  | none =>
    rw [hwithout] at heffects hvalue
    refine .of_same ?_ ?_
    · rw [heffects, Effect.told_nil]
    · rw [hvalue]
      rfl
  | some after =>
    rw [hwithout] at heffects hvalue
    refine .of_changed ?_ ?_
    · rw [heffects, hvalue]
      exact Effect.told_publication after
    · rw [hvalue]
      exact catalogWithout?_changes sound.consistent hwithout

/-- The news of a renaming tell of a catalog once if they change the modules, and of none if not. -/
theorem rename_tells (sound : session.Sound) (source target : Path) :
    session.TellsOnChange (session.rename world now source target) := by
  have hrenamed := rename_renamed world now session source target
  generalize session.rename world now source target = turn at hrenamed
  cases hrenamed with
  | ignored | rescanned => exact .of_same rfl rfl
  | @moved catalog taken =>
    obtain ⟨-, hrename⟩ := catalogRenamed?_eq_some session source taken
    obtain ⟨hsource, hfree, names, -, hmem⟩ := Catalog.mem_rename? sound.consistent hrename
    obtain ⟨old, hold, hpath⟩ := (Catalog.contains_iff sound.consistent).mp hsource
    refine .of_changed (Effect.told_publication catalog) fun hsame => ?_
    -- the new path had no module before
    have hmoved := (hmem { old with file := target, names := names }).mpr (.inr ⟨old, hold, hpath, rfl⟩)
    rw [hsame] at hmoved
    cases hfree.symm.trans ((Catalog.contains_iff sound.consistent).mpr ⟨_, hmoved, rfl⟩)
  | replaced =>
    have hremoved := remove_tells sound source
    unfold TellsOnChange at hremoved ⊢
    rw [touch_catalog]
    exact hremoved
  | arrived =>
    refine .of_same rfl ?_
    rw [touch_catalog]

/-- A drain tells of a catalog once if it changes the modules, and of none if not. -/
theorem drain_tells (sound : session.Sound) : session.TellsOnChange (session.drain world now) := by
  obtain ⟨read, hread, hdrain⟩ := drain_eq world now session
  have hmarks := drain_marks world sound
  have hquiet := foldlM_drainFile_quiet world session.pending.paths ⟨{ session with drainDue := none }, false⟩
  rw [← hread] at hmarks hquiet
  have huntold : Effect.told read.effects = [] := by
    refine Effect.told_quiet fun effect heffect => ?_
    rcases hquiet effect heffect with haside | ⟨file, reading, rfl⟩
    · exact haside.toldCatalog?
    · rfl
  rw [hdrain]
  cases hchanged : read.value.changed with
  | true =>
    refine .of_changed ?_ fun hsame => ?_
    · simp [huntold]
    · obtain ⟨entry, -, hdiffers⟩ := hmarks.differs hchanged
      rw [scheduleRetry_catalog] at hsame
      exact hdiffers (by rw [hsame])
  | false =>
    refine .of_same ?_ ?_
    · simp [huntold]
    · rw [scheduleRetry_catalog, hmarks.same hchanged]

/-- How often each piece of work tells of a catalog. -/
structure Announces (session : Session) : Prop where
  touched : ∀ world now path, session.TellsOnChange (session.act (.handle world now (.touched path)))
  removed : ∀ world now path, session.TellsOnChange (session.act (.handle world now (.removed path)))
  renamed : ∀ world now source target,
    session.TellsOnChange (session.act (.handle world now (.renamed source target)))
  drained : ∀ world now, session.TellsOnChange (session.drain world now)
  scanned : ∀ world now report, (session.rebuild world now).value.2 = .ok report →
    Effect.told (session.rebuild world now).effects = [(session.rebuild world now).value.1.catalog]
  lost : ∀ world now failure, (session.rebuild world now).value.2 = .error failure →
    Effect.told (session.rebuild world now).effects =
      if session.catalog.isEmpty = false ∧ (session.rebuild world now).value.1.catalog.isEmpty = true
      then [.empty] else []
  /-- New settings tell of a catalog only by their scan, if they ask for one. -/
  resettled : ∀ world now settings,
    Effect.told (session.applySettings world now settings).effects =
      if (SettingsChange.between session.settings settings).needsRebuild
      then Effect.told ((session.underSettings world settings).rebuild world now).effects else []

/-- What a scan tells of, whatever the session: of its catalog if it succeeds, and if it fails of the empty one if it
has emptied the catalog. -/
theorem rebuild_told (session : Session) :
    (∀ report, (session.rebuild world now).value.2 = .ok report →
        Effect.told (session.rebuild world now).effects = [(session.rebuild world now).value.1.catalog])
      ∧ ∀ failure, (session.rebuild world now).value.2 = .error failure →
        Effect.told (session.rebuild world now).effects =
          if session.catalog.isEmpty = false ∧ (session.rebuild world now).value.1.catalog.isEmpty = true
          then [.empty] else [] := by
  have hscanned := rebuild_scanned world now session
  generalize session.rebuild world now = turn at hscanned
  cases hscanned with
  | @scanned scan reports found asides =>
    have hquiet : Effect.told (scan.readings.map (fun entry => .read entry.1 entry.2) ++ reports) = [] := by
      refine Effect.told_quiet fun effect heffect => ?_
      rcases List.mem_append.mp heffect with hread | hreport
      · obtain ⟨entry, -, rfl⟩ := List.mem_map.mp hread
        rfl
      · exact (asides effect hreport).toldCatalog?
    refine ⟨fun _ _ => ?_, fun _ h => by cases h⟩
    rw [Effect.told_append, hquiet, scheduleRetry_catalog]
    rfl
  | emptied lost some =>
    refine ⟨fun _ h => (by cases h), fun _ _ => ?_⟩
    rw [if_pos ⟨some, rfl⟩]
    rfl
  | failed lost =>
    refine ⟨fun _ h => (by cases h), fun _ _ => ?_⟩
    have hsame : ¬ (session.catalog.isEmpty = false ∧ session.catalog.isEmpty = true) := by simp
    rw [if_neg hsame]
    rfl

/-- Beside the catalog of their scan, new settings tell of none. -/
theorem applySettings_told (session : Session) (settings : Settings) :
    Effect.told (session.applySettings world now settings).effects =
      if (SettingsChange.between session.settings settings).needsRebuild
      then Effect.told ((session.underSettings world settings).rebuild world now).effects else [] := by
  have happlied := applySettings_applied world now session settings
  generalize session.applySettings world now settings = turn at happlied
  have hquiet : ∀ told : List Effect, (∀ effect ∈ told, effect.IsAside) → Effect.told told = [] :=
    fun told hasides => Effect.told_quiet fun effect heffect => (hasides effect heffect).toldCatalog?
  cases happlied with
  | same halike =>
    rw [halike]
    rfl
  | announced hasides _ halike =>
    rw [halike, Effect.told_publishSettings, hquiet _ hasides]
    rfl
  | rebuilt hasides _ hdifferent =>
    rw [if_pos hdifferent, List.cons_append, Effect.told_publishSettings, Effect.told_append, hquiet _ hasides,
      List.nil_append]

/-- Every session whose catalog is consistent announces what it does. -/
theorem Sound.announces (sound : session.Sound) : session.Announces where
  touched world now path := by
    rw [act_touched]
    exact .of_same rfl (congrArg Catalog.modules (touch_catalog world now session path))
  removed world now path := by
    rw [act_removed]
    exact remove_tells sound path
  renamed world now source target := by
    rw [act_renamed]
    exact rename_tells world now sound source target
  drained world now := drain_tells world now sound
  scanned world now := (rebuild_told world now session).1
  lost world now := (rebuild_told world now session).2
  resettled world now settings := applySettings_told world now session settings

/-- The sessions that runs come by: those between two deeds, those between two parts of a poll, and those under new
settings, from which the scan that these ask for is made. -/
inductive Visits (opened : Session) : Session → Prop where
  | between (deeds : List Deed) : Visits opened (opened.run deeds).value
  | reloaded {session : Session} (atReload : Surroundings) (now : Nat) (visits : Visits opened session) :
      Visits opened (session.reloadIfDue atReload now).value
  | rescanned {session : Session} (atRescan : Surroundings) (now : Nat) (visits : Visits opened session) :
      Visits opened (session.rescanIfDue atRescan now).value
  | resettled {session : Session} (world : Surroundings) (settings : Settings) (visits : Visits opened session) :
      Visits opened (({ session with reload := none } : Session).underSettings world settings)

/-- Every session that a run comes by is sound if the one that it starts from is. -/
theorem Visits.sound {opened : Session} (sound : opened.Sound) (visits : opened.Visits session) :
    session.Sound := by
  induction visits with
  | between deeds => exact sound.run deeds
  | reloaded _ _ _ ih => exact ih.reloadIfDue
  | rescanned _ _ _ ih => exact ih.rescanIfDue
  | @resettled before _ settings _ ih =>
    have hsound : ({ before with reload := none } : Session).Sound := ih.of_same rfl rfl
    exact hsound.underSettings settings

/-- After any run the published catalog and settings are those of the session, every catalog that was told of was
the published one at that moment, and the last of them, or the empty one if there was none, is the catalog of
the session. And wherever a run may come by, news of files and a drain tell of the new catalog once if they have
changed the modules and of none otherwise, a scan that succeeds tells of its catalog once, and one that fails
tells of the empty one if it has emptied the catalog and of none otherwise; new settings tell of nothing but what
the scan tells of that they ask for. -/
theorem run_publishes (world : Surroundings) (base : Path) (settings : Settings) (timing : Timing) :
    let opened := Session.start world base settings timing
    (∀ deeds : List Deed,
      (⟨.empty, settings⟩ : Published).after (opened.run deeds).effects =
          ⟨(opened.run deeds).value.catalog, (opened.run deeds).value.settings⟩
        ∧ (∀ front catalog back, (opened.run deeds).effects = front ++ .emit (.catalogChanged catalog) :: back →
          ((⟨.empty, settings⟩ : Published).after front).catalog = catalog)
        ∧ (Effect.told (opened.run deeds).effects).getLast?.getD .empty = (opened.run deeds).value.catalog)
      ∧ ∀ session, opened.Visits session → session.Announces := by
  intro opened
  have hsound : opened.Sound := .start world base settings timing
  refine ⟨fun deeds => ?_, fun session visits => (visits.sound hsound).announces⟩
  have hrelays : Relays ⟨.empty, settings⟩ (opened.run deeds).effects (opened.run deeds).value.shown :=
    run_relays hsound deeds
  exact ⟨hrelays.after_eq, fun _ _ _ told => hrelays.catalog_of_told told, hrelays.last_told⟩

/-- A first scan that finds one file tells of a catalog once. -/
theorem run_publishes_scan :
    let world := Surroundings.ofFile ⟨"/w/a.d.ts"⟩ (.content "export declare function f(): void;")
    let opened := Session.start world ⟨"/w"⟩ .default {}
    (opened.rebuild world 0).value.2 = .ok ⟨1, []⟩
      ∧ Effect.told (opened.run [.handle world 0 .rebuild]).effects =
        [(opened.run [.handle world 0 .rebuild]).value.catalog] := by
  intro world opened
  have hscanned : (opened.rebuild world 0).value.2 = .ok ⟨1, []⟩ := by decide +kernel
  obtain ⟨-, hannounces⟩ := run_publishes world ⟨"/w"⟩ .default {}
  have htold := (hannounces opened (.between [])).scanned world 0 _ hscanned
  refine ⟨hscanned, ?_⟩
  rw [run_singleton, act_rebuild, Turn.effects_map, Turn.value_map]
  exact htold

end Session

end TypingsIndex
