import Mathlib.Data.Set.Function
import TypingsIndex.Proofs.Watch.Provenance
import TypingsIndex.Proofs.Watch.Publication
import TypingsIndex.Proofs.Watch.Still.Kept

/-!
# Content that has not changed

A drain does not parse content whose digest the module of the file already has. That digest was stored by another
operation, a scan or an earlier drain, and has since been carried along by renamings and by scans in which the file
failed; so it says something about the functions of the module only because of an invariant of whole runs: every
module is made from a text that was read (`Draws`). Given that no two of these texts share a digest, content that is
skipped would have been parsed to the very functions that are there, and to put these in changes nothing. So a drain
that parses all that it reads (`drainAnew`) reads the same, reports the same and ends in the same session; it only
publishes more often.
-/

set_option autoImplicit false

namespace TypingsIndex

namespace Effect

/-- The texts that were read. -/
def contents (effects : List Effect) : Set String :=
  {text | ∃ file reading, .read file reading ∈ effects ∧ reading.result = .ok text}

/-- More effects read more texts. -/
theorem contents_mono {effects more : List Effect} (h : ∀ effect ∈ effects, effect ∈ more) :
    contents effects ⊆ contents more := by
  rintro text ⟨file, reading, hread, hresult⟩
  exact ⟨file, reading, h _ hread, hresult⟩

end Effect

/-- Every module is made from one of some texts. -/
def Catalog.MadeOf (texts : Set String) (catalog : Catalog) : Prop :=
  ∀ entry ∈ catalog.modules, ∃ text ∈ texts, entry.MadeFrom text

/-- The modules of a catalog that effects lead to are made from texts that were read, as far as the modules of the
catalog before were. -/
def Draws (effects : List Effect) (before after : Catalog) : Prop :=
  ∀ texts, Effect.contents effects ⊆ texts → before.MadeOf texts → after.MadeOf texts

namespace Draws

variable {before between after : Catalog} {effects more : List Effect}

/-- What draws on the texts that were read in one piece of work and then in another draws on those of both. -/
theorem append (h : Draws effects before between) (hmore : Draws more between after) :
    Draws (effects ++ more) before after := by
  intro texts hread hmade
  have hfirst := (Effect.contents_mono fun _ => List.mem_append_left more).trans hread
  have hsecond := (Effect.contents_mono fun _ => List.mem_append_right effects).trans hread
  exact hmore texts hsecond (h texts hfirst hmade)

/-- Modules may be taken out at any time. -/
theorem of_subset (effects : List Effect) (h : ∀ entry ∈ after.modules, entry ∈ before.modules) :
    Draws effects before after :=
  fun _ _ hmade entry hentry => hmade entry (h entry hentry)

/-- A catalog that stays draws on nothing. -/
theorem refl (effects : List Effect) (catalog : Catalog) : Draws effects catalog catalog :=
  of_subset effects fun _ hentry => hentry

/-- A module that moves is made from what it was made from. -/
theorem of_rename {source target root : Path} (effects : List Effect) (consistent : before.Consistent)
    (h : before.rename? source target root = some after) : Draws effects before after := by
  obtain ⟨-, -, names, -, hmem⟩ := Catalog.mem_rename? consistent h
  intro texts _ hmade entry hentry
  rcases (hmem entry).mp hentry with ⟨hold, -⟩ | ⟨old, hold, -, rfl⟩
  · exact hmade entry hold
  · obtain ⟨text, htext, hfrom⟩ := hmade old hold
    exact ⟨text, htext, hfrom⟩

end Draws

namespace Session

variable {world : Surroundings} {now : Nat} {session : Session}

/-! ## What modules are made from -/

/-- A pending file that is read gives its module the text of the reading, if any. -/
theorem FileDrained.madeOf {file : Path} {before after : Session} {texts : Set String}
    (drained : FileDrained world file before after) (consistent : before.catalog.Consistent)
    (read : ∀ text, (world.read file).result = .ok text → text ∈ texts) (made : before.catalog.MadeOf texts) :
    after.catalog.MadeOf texts := by
  cases drained with
  | @parsed text functions catalog reading accepted taken =>
    have hsettled : (before.settled file).catalog.Consistent := consistent
    obtain ⟨new, -, hfunctions, hdigest, -, hmem⟩ := mem_catalogWith? hsettled taken
    intro entry hentry
    rcases (hmem entry).mp hentry with rfl | ⟨hold, -⟩
    · exact ⟨text, read text reading, hdigest, hfunctions ▸ functionsOf_eq_ok.mp accepted⟩
    · exact made entry hold
  | vanished reading verdict taken =>
    exact fun entry hentry => made entry ((Catalog.mem_erase? consistent taken).mp hentry).1
  | _ => exact made

/-- The modules that a drain leaves are made from what it has read, or were there before. -/
theorem drain_draws (world : Surroundings) (now : Nat) (sound : session.Sound) :
    Draws (session.drain world now).effects session.catalog (session.drain world now).value.catalog := by
  obtain ⟨read, rfl, hdrain⟩ := drain_eq world now session
  obtain ⟨-, hreads⟩ :=
    foldlM_drainFile_effects world ⟨{ session with drainDue := none }, false⟩ session.pending.paths
  intro texts hread hmade
  have hbegun : ({ session with drainDue := none } : Session).Sound := sound.of_same rfl rfl
  have hstep : ∀ file ∈ session.pending.paths, ∀ before after : Session,
      before.Sound ∧ before.catalog.MadeOf texts → FileDrained world file before after →
        after.Sound ∧ after.catalog.MadeOf texts := by
    rintro file hfile before after ⟨hsound, hbefore⟩ hdrained
    refine ⟨hsound.drained hdrained, hdrained.madeOf hsound.consistent (fun text htext => hread ?_) hbefore⟩
    rw [hdrain]
    exact ⟨file, world.read file, List.mem_append_left _ (hreads file hfile), htext⟩
  obtain ⟨last, ⟨-, hlast⟩, hvalue⟩ := drain_invariant now hstep ⟨hbegun, hmade⟩
  rw [hvalue, scheduleRetry_catalog]
  exact hlast

/-- The modules that a scan leaves are made from what it has read, or were there before. -/
theorem rebuild_draws (world : Surroundings) (now : Nat) (sound : session.Sound) :
    Draws (session.rebuild world now).effects session.catalog (session.rebuild world now).value.1.catalog := by
  have hscanned := rebuild_scanned world now session
  generalize session.rebuild world now = turn at hscanned
  cases hscanned with
  | @scanned scan reports found asides =>
    have hroot := Scan.isDirectory_of_ok found
    intro texts hread hmade entry hentry
    rw [scheduleRetry_catalog] at hentry
    obtain ⟨file, hlisted, hmodule⟩ := mem_scanned hroot found hentry
    rcases (Scan.moduleOf?_cases hmodule).2 with ⟨text, hresult, haccepted, hdigest⟩ | ⟨old, hold, hfunctions, hdigest⟩
    · refine ⟨text, hread ⟨file, world.read file, ?_, hresult⟩, hdigest, functionsOf_eq_ok.mp haccepted⟩
      have hreading : (file, world.read file) ∈ scan.readings :=
        Scan.mem_readings_of_ok world session.root session.catalog hroot found hlisted (Scan.moduleOf?_reads hmodule)
      exact List.mem_append_left _ (List.mem_append_left _ (List.mem_map.mpr ⟨_, hreading, rfl⟩))
    · obtain ⟨text, htext, hfrom⟩ := hmade old ((Catalog.find?_eq_some_iff sound.consistent).mp hold).1
      exact ⟨text, htext, hdigest.trans hfrom.1, hfunctions ▸ hfrom.2⟩
  | emptied => exact .of_subset _ fun _ hentry => absurd hentry List.not_mem_nil
  | failed => exact .refl _ _

/-- The modules that new settings leave are made from what their scan has read, or were there before. -/
theorem applied_draws {settings : Settings} {turn : Turn Session} (sound : session.Sound)
    (applied : SettingsApplied world now session settings turn) :
    Draws turn.effects session.catalog turn.value.catalog := by
  cases applied with
  | same => exact .refl _ _
  | announced => exact .refl _ _
  | @rebuilt told asides moved =>
    have hmoved : (session.underSettings world settings).Sound := sound.underSettings settings
    have hrebuilt := rebuild_draws world now hmoved
    rw [underSettings_catalog] at hrebuilt
    exact (Draws.refl (.publishSettings settings :: told) session.catalog).append hrebuilt

/-- The modules that loading the settings file leaves are made from what was read then, or were there before. -/
theorem loaded_draws {attempts : Nat} {turn : Turn Session} (sound : session.Sound)
    (loaded : SettingsLoaded world now session attempts turn) :
    Draws turn.effects session.catalog turn.value.catalog := by
  have hforgotten : ({ session with reload := none } : Session).Sound := sound.of_same rfl rfl
  cases loaded with
  | applied outcome =>
    have happlied := applied_draws hforgotten outcome
    exact (Draws.refl [.read session.settingsFile (world.read session.settingsFile)] session.catalog).append happlied
  | refused | postponed => exact .refl _ _

/-- The modules that the reload of a poll leaves are made from what it has read, or were there before. -/
theorem reloadIfDue_draws (world : Surroundings) (now : Nat) (sound : session.Sound) :
    Draws (session.reloadIfDue world now).effects session.catalog (session.reloadIfDue world now).value.catalog := by
  unfold reloadIfDue
  split
  · split
    · exact loaded_draws sound (reloadSettings_loaded world now session _)
    · exact .refl _ _
  · exact .refl _ _

/-- The modules that the scan of a poll leaves are made from what it has read, or were there before. -/
theorem rescanIfDue_draws (world : Surroundings) (now : Nat) (sound : session.Sound) :
    Draws (session.rescanIfDue world now).effects session.catalog (session.rescanIfDue world now).value.catalog := by
  unfold rescanIfDue
  split
  · rw [Turn.effects_bind, Turn.effects_pure, List.append_nil]
    exact rebuild_draws world now sound
  · exact .refl _ _

/-- The modules that the drain of a poll leaves are made from what it has read, or were there before. -/
theorem drainIfDue_draws (world : Surroundings) (now : Nat) (sound : session.Sound) :
    Draws (session.drainIfDue world now).effects session.catalog (session.drainIfDue world now).value.catalog := by
  unfold drainIfDue
  split
  · exact drain_draws world now sound
  · exact .refl _ _

/-- The modules that the news of a removal leave were there before. -/
theorem remove_draws (sound : session.Sound) (path : Path) :
    Draws (session.remove path).effects session.catalog (session.remove path).value.catalog := by
  rw [remove_value]
  cases hwithout : catalogWithout? session.catalog path with
  | none => exact .refl _ _
  | some after => exact .of_subset _ fun entry hentry => mem_of_catalogWithout? sound.consistent hwithout hentry

/-- The modules that the news of a renaming leave were there before, under whatever name. -/
theorem rename_draws (world : Surroundings) (now : Nat) (sound : session.Sound) (source target : Path) :
    Draws (session.rename world now source target).effects session.catalog
      (session.rename world now source target).value.catalog := by
  have hrenamed := rename_renamed world now session source target
  generalize session.rename world now source target = turn at hrenamed
  cases hrenamed with
  | ignored | rescanned => exact .refl _ _
  | moved taken => exact .of_rename _ sound.consistent (catalogRenamed?_eq_some session source taken).2
  | replaced =>
    rw [touch_catalog]
    exact remove_draws sound source
  | arrived =>
    rw [touch_catalog]
    exact .refl _ _

/-- The modules that a deed leaves are made from what it has read, or were there before. -/
theorem act_draws (sound : session.Sound) (deed : Deed) :
    Draws (session.act deed).effects session.catalog (session.act deed).value.catalog := by
  cases deed with
  | handle world now command =>
    cases command with
    | touched path =>
      rw [act_touched, Turn.value_pure, touch_catalog]
      exact .refl _ _
    | removed path =>
      rw [act_removed]
      exact remove_draws sound path
    | renamed source target =>
      rw [act_renamed]
      exact rename_draws world now sound source target
    | settingsTouched => exact .refl _ _
    | settingsRemoved =>
      have hforgotten : ({ session with reload := none } : Session).Sound := sound.of_same rfl rfl
      have happlied := applied_draws hforgotten (applySettings_applied world now _ .default)
      rw [act_settingsRemoved]
      exact happlied
    | rebuild =>
      rw [act_rebuild, Turn.effects_map, Turn.value_map]
      exact rebuild_draws world now sound
    | shutdown => exact .refl _ _
  | poll atReload atRescan atDrain now =>
    have hreloaded : (session.reloadIfDue atReload now).value.Sound := sound.reloadIfDue
    have hrescanned : ((session.reloadIfDue atReload now).value.rescanIfDue atRescan now).value.Sound :=
      hreloaded.rescanIfDue
    have hreload := reloadIfDue_draws atReload now sound
    have hrescan := rescanIfDue_draws atRescan now hreloaded
    have hdrain := drainIfDue_draws atDrain now hrescanned
    exact hreload.append (hrescan.append hdrain)

/-- The modules that a run leaves are made from what it has read, or were there before. -/
theorem run_draws (sound : session.Sound) (deeds : List Deed) :
    Draws (session.run deeds).effects session.catalog (session.run deeds).value.catalog := by
  induction deeds generalizing session with
  | nil => exact .refl _ _
  | cons deed rest ih =>
    rw [run_cons, Turn.effects_bind, Turn.value_bind]
    exact (act_draws sound deed).append (ih (sound.act deed))

/-- The sessions that runs come by, between two deeds and between two parts of a poll, each with all that was done
until then. -/
inductive Passes (opened : Session) : List Effect → Session → Prop where
  | between (deeds : List Deed) : Passes opened (opened.run deeds).effects (opened.run deeds).value
  | reloaded {effects : List Effect} {session : Session} (atReload : Surroundings) (now : Nat)
      (passes : Passes opened effects session) :
      Passes opened (effects ++ (session.reloadIfDue atReload now).effects) (session.reloadIfDue atReload now).value
  | rescanned {effects : List Effect} {session : Session} (atRescan : Surroundings) (now : Nat)
      (passes : Passes opened effects session) :
      Passes opened (effects ++ (session.rescanIfDue atRescan now).effects) (session.rescanIfDue atRescan now).value

/-- A session that a run comes by with what was done until then is one that it comes by. -/
theorem Passes.visits {opened : Session} {effects : List Effect} (passes : opened.Passes effects session) :
    opened.Visits session := by
  induction passes with
  | between deeds => exact .between deeds
  | reloaded atReload now _ ih => exact .reloaded atReload now ih
  | rescanned atRescan now _ ih => exact .rescanned atRescan now ih

/-- The modules of a session that a run comes by are made from what was read until then. -/
theorem Passes.draws {opened : Session} {effects : List Effect} (sound : opened.Sound)
    (passes : opened.Passes effects session) : Draws effects opened.catalog session.catalog := by
  induction passes with
  | between deeds => exact run_draws sound deeds
  | reloaded atReload now hbefore ih => exact ih.append (reloadIfDue_draws atReload now (hbefore.visits.sound sound))
  | rescanned atRescan now hbefore ih => exact ih.append (rescanIfDue_draws atRescan now (hbefore.visits.sound sound))

/-! ## Parsing all that is read -/

/-- Take in the content of a file, whatever its digest. -/
def absorbAnew (draining : Draining) (file : Path) (content : String) : Turn Draining :=
  match functionsOf file content with
  | .error failure => do
    Turn.report failure
    return draining
  | .ok functions =>
    match draining.session.catalogWith? file functions content with
    | some catalog => pure ⟨{ draining.session with catalog := catalog }, true⟩
    | none => pure draining

/-- Only content with another digest is parsed. -/
theorem absorb_eq (draining : Draining) (file : Path) (content : String) :
    absorb draining file content =
      if draining.session.hasDigest file (Digest.ofText content) then pure draining
      else absorbAnew draining file content := rfl

section

variable (take : Draining → Path → String → Turn Draining)

/-- Read one pending file, where the content is taken in in a way of its own. -/
def drainFileWith (world : Surroundings) (draining : Draining) (file : Path) : Turn Draining := do
  let reading := world.read file
  Turn.perform (.read file reading)
  match reading.result with
  | .ok content => take (settle draining file) file content
  | .error fault =>
    match fault.verdict with
    | .missing => return forget (settle draining file) file
    | .undecodable => do
      Turn.report (.unreadable file fault)
      return settle draining file
    | .transient => postpone draining file

/-- Read all pending files, where content is taken in in a way of its own. -/
def drainWith (world : Surroundings) (now : Nat) (session : Session) : Turn Session := do
  let start : Draining := ⟨{ session with drainDue := none }, false⟩
  let draining ← session.pending.paths.foldlM (drainFileWith take world) start
  let session ← if draining.changed then draining.session.publish else pure draining.session
  return session.scheduleRetry now

end

/-- The reading of a file is the one in which known content is not parsed. -/
theorem drainFile_eq_drainFileWith : drainFile = drainFileWith absorb := rfl

/-- A drain is the one in which known content is not parsed. -/
theorem drain_eq_drainWith (world : Surroundings) (now : Nat) (session : Session) :
    session.drain world now = session.drainWith absorb world now := rfl

/-- Such a drain, too, publishes the catalog if one of the files has changed it. -/
theorem drainWith_eq (take : Draining → Path → String → Turn Draining) (world : Surroundings) (now : Nat)
    (session : Session) :
    ∃ read : Turn Draining,
      read = session.pending.paths.foldlM (drainFileWith take world) ⟨{ session with drainDue := none }, false⟩
        ∧ session.drainWith take world now = ⟨read.value.session.scheduleRetry now,
          read.effects ++ if read.value.changed then Effect.publication read.value.session.catalog else []⟩ := by
  refine ⟨_, rfl, ?_⟩
  unfold drainWith
  simp only [bind, pure]
  split <;> simp

/-- Read all pending files, and parse whatever is read. -/
def drainAnew (world : Surroundings) (now : Nat) (session : Session) : Turn Session :=
  session.drainWith absorbAnew world now

/-- To parse content of a known digest gives the functions that are there, and to put them in changes nothing. -/
theorem absorbAnew_known {draining : Draining} {file : Path} {content : String} {texts : Set String}
    (consistent : draining.session.catalog.Consistent) (made : draining.session.catalog.MadeOf texts)
    (apart : Set.InjOn Digest.ofText texts) (read : content ∈ texts)
    (known : draining.session.hasDigest file (Digest.ofText content) = true) :
    absorbAnew draining file content = pure ⟨draining.session, true⟩ := by
  obtain ⟨entry, hentry, hpath, hdigest⟩ := (hasDigest_iff consistent).mp known
  obtain ⟨text, htext, hmade⟩ := made entry hentry
  obtain rfl : text = content := apart htext read (Option.some.inj (hmade.1.symm.trans hdigest))
  have haccepted : functionsOf file text = .ok entry.functions := functionsOf_eq_ok.mpr hmade.2
  have hsame := Catalog.replaceFunctions?_same ((Catalog.find?_eq_some_iff consistent).mpr ⟨hentry, hpath⟩)
  rw [hdigest] at hsame
  have htaken : draining.session.catalogWith? file entry.functions text = some draining.session.catalog := by
    unfold catalogWith?
    rw [hsame]
  unfold absorbAnew
  simp only [haccepted, htaken]

/-- Two turns in the middle of a drain that have done the same and lead to the same session. What differs at most is
the mark of a change, since what was there may have been put in again. -/
structure Alike (quick full : Turn Draining) : Prop where
  session : quick.value.session = full.value.session
  effects : quick.effects = full.effects

/-- Turns that are alike go on alike. -/
theorem Alike.bind {quick full : Turn Draining} {quickNext fullNext : Draining → Turn Draining}
    (alike : Alike quick full) (next : Alike (quickNext quick.value) (fullNext full.value)) :
    Alike (quick >>= quickNext) (full >>= fullNext) := by
  refine ⟨next.session, ?_⟩
  rw [Turn.effects_bind, Turn.effects_bind, alike.effects, next.effects]

/-- The same effect before turns that are alike leaves them alike. -/
theorem Alike.perform (effect : Effect) {quick full : Turn Draining} (alike : Alike quick full) :
    Alike (Turn.perform effect >>= fun _ => quick) (Turn.perform effect >>= fun _ => full) := by
  refine ⟨alike.session, ?_⟩
  rw [Turn.effects_bind, Turn.effects_bind, alike.effects]

section

variable {quick full : Draining} (same : quick.session = full.session)

include same

/-- Where all content is parsed, the mark of a change does not matter to what else is done. -/
theorem absorbAnew_alike (file : Path) (content : String) :
    Alike (absorbAnew quick file content) (absorbAnew full file content) := by
  unfold absorbAnew
  rw [same]
  cases functionsOf file content with
  | error failure => exact ⟨same, rfl⟩
  | ok functions =>
    cases htaken : full.session.catalogWith? file functions content with
    | none =>
      simp only [htaken]
      exact ⟨same, rfl⟩
    | some catalog =>
      simp only [htaken]
      exact ⟨rfl, rfl⟩

/-- To settle a file, the mark of a change does not matter. -/
theorem settle_session (file : Path) : (settle quick file).session = (settle full file).session := by
  unfold settle
  rw [same]

/-- To forget a file, the mark of a change does not matter to the session. -/
theorem forget_session (file : Path) : (forget quick file).session = (forget full file).session := by
  unfold forget
  rw [same]
  split
  · rfl
  · exact same

/-- To put off a file, the mark of a change does not matter. -/
theorem postpone_alike (file : Path) : Alike (postpone quick file) (postpone full file) := by
  simp only [postpone]
  rw [same]
  split
  · exact ⟨settle_session same file, rfl⟩
  · exact ⟨rfl, rfl⟩

end

section

variable {texts : Set String} (apart : Set.InjOn Digest.ofText texts)

include apart

/-- Content that is read is taken in alike with the shortcut and without. -/
theorem absorb_alike {quick full : Draining} (same : quick.session = full.session)
    (consistent : quick.session.catalog.Consistent) (made : quick.session.catalog.MadeOf texts) (file : Path)
    {content : String} (read : content ∈ texts) :
    Alike (absorb quick file content) (absorbAnew full file content) := by
  rw [absorb_eq]
  split
  · next hknown =>
    rw [same] at consistent made hknown
    rw [absorbAnew_known consistent made apart read hknown]
    exact ⟨same, rfl⟩
  · exact absorbAnew_alike same file content

/-- To read a file and parse its content even if it is known comes to the same, up to the mark of a change. -/
theorem drainFile_alike (world : Surroundings) {quick full : Draining} (same : quick.session = full.session)
    (consistent : quick.session.catalog.Consistent) (made : quick.session.catalog.MadeOf texts) (file : Path)
    (read : ∀ text, (world.read file).result = .ok text → text ∈ texts) :
    Alike (drainFile world quick file) (drainFileWith absorbAnew world full file) := by
  have hsettled : (settle quick file).session = (settle full file).session := settle_session same file
  rw [drainFile_eq_drainFileWith]
  refine Alike.perform _ ?_
  cases hresult : (world.read file).result with
  | ok content => exact absorb_alike apart hsettled consistent made file (read content hresult)
  | error fault =>
    cases hverdict : fault.verdict with
    | missing =>
      simp only [hverdict]
      exact ⟨forget_session hsettled file, rfl⟩
    | undecodable =>
      simp only [hverdict]
      exact ⟨hsettled, rfl⟩
    | transient =>
      simp only [hverdict]
      exact postpone_alike same file

/-- To read files and parse their content even if it is known comes to the same, up to the mark of a change. -/
theorem foldlM_drainFile_alike (world : Surroundings) (files : List Path) {quick full : Draining}
    (same : quick.session = full.session) (sound : quick.session.Sound) (made : quick.session.catalog.MadeOf texts)
    (read : ∀ file ∈ files, ∀ text, (world.read file).result = .ok text → text ∈ texts) :
    Alike (files.foldlM (drainFile world) quick) (files.foldlM (drainFileWith absorbAnew world) full) := by
  -- the two sides stay in one session, whose modules stay made from the texts; their marks of a change drift apart
  induction files generalizing quick full with
  | nil => exact ⟨same, rfl⟩
  | cons file rest ih =>
    obtain ⟨hfile, hrest⟩ := List.forall_mem_cons.mp read
    have hfirst := drainFile_alike apart world same sound.consistent made file hfile
    have hdrained := drainFile_drained world quick file
    rw [List.foldlM_cons, List.foldlM_cons]
    exact hfirst.bind
      (ih hfirst.session (sound.drained hdrained) (hdrained.madeOf sound.consistent hfile made) hrest)

end

/-- Wherever a run may come by, a drain ends in the same session as one that parses all content that it reads, with
the same readings and reports on the way; and it tells of the catalog if that other drain has changed the modules, and
only then. That no two texts which were read until then share a digest is assumed. -/
theorem drain_as_anew (world : Surroundings) (base : Path) (settings : Settings) (timing : Timing)
    {past : List Effect} {session : Session} (passes : (Session.start world base settings timing).Passes past session)
    (atDrain : Surroundings) (now : Nat)
    (apart : Set.InjOn Digest.ofText (Effect.contents (past ++ (session.drain atDrain now).effects))) :
    let quick := session.drain atDrain now
    let full := session.drainAnew atDrain now
    quick.value = full.value
      ∧ ∃ work, (∀ effect ∈ work, effect.IsAside ∨ ∃ file reading, effect = .read file reading)
        ∧ quick.effects = work ++ (if full.value.catalog.modules = session.catalog.modules then []
          else Effect.publication full.value.catalog)
        ∧ (full.effects = work ∨ full.effects = work ++ Effect.publication full.value.catalog) := by
  intro quick full
  let begun : Draining := ⟨{ session with drainDue := none }, false⟩
  let texts := Effect.contents (past ++ quick.effects)
  have hstart : (Session.start world base settings timing).Sound := .start world base settings timing
  have hsound : session.Sound := passes.visits.sound hstart
  have hbegun : begun.session.Sound := hsound.of_same rfl rfl
  have hmade : begun.session.catalog.MadeOf texts :=
    passes.draws hstart texts (Effect.contents_mono fun _ => List.mem_append_left _)
      fun _ hentry => absurd hentry List.not_mem_nil
  obtain ⟨read, hread, hquick⟩ := drainWith_eq absorb atDrain now session
  obtain ⟨again, hagain, hfull⟩ := drainWith_eq absorbAnew atDrain now session
  rw [← drain_eq_drainWith] at hquick
  rw [← drainFile_eq_drainFileWith] at hread
  -- the texts are those of the past and of this drain, since two that are read now may share a digest as well
  have halike : Alike read again := by
    rw [hread, hagain]
    refine foldlM_drainFile_alike apart atDrain _ rfl hbegun hmade fun file hfile text htext => ?_
    refine ⟨file, atDrain.read file, List.mem_append_right past ?_, htext⟩
    rw [hquick, hread]
    exact List.mem_append_left _ ((foldlM_drainFile_effects atDrain begun session.pending.paths).2 file hfile)
  have hquiet := foldlM_drainFile_quiet atDrain session.pending.paths begun
  have hmarks := drain_marks atDrain hsound
  rw [← hread] at hquiet hmarks
  have hvalue : full.value = read.value.session.scheduleRetry now := by
    rw [halike.session]
    exact congrArg Turn.value hfull
  have hpublished : (if read.value.changed then Effect.publication read.value.session.catalog else []) =
      if read.value.session.catalog.modules = session.catalog.modules then []
        else Effect.publication read.value.session.catalog := by
    cases hchanged : read.value.changed with
    | true =>
      obtain ⟨entry, -, hdiffers⟩ := hmarks.differs hchanged
      have hother : read.value.session.catalog.modules ≠ session.catalog.modules :=
        fun hsame => hdiffers (by rw [hsame])
      rw [if_pos rfl, if_neg hother]
    | false =>
      have hsame := congrArg Catalog.modules (hmarks.same hchanged)
      rw [if_neg Bool.false_ne_true, if_pos hsame]
  refine ⟨?_, read.effects, hquiet, ?_, ?_⟩
  · calc quick.value = read.value.session.scheduleRetry now := congrArg Turn.value hquick
      _ = full.value := hvalue.symm
  · rw [hvalue, scheduleRetry_catalog, ← hpublished]
    exact congrArg Turn.effects hquick
  · have heffects : full.effects =
        again.effects ++ if again.value.changed then Effect.publication again.value.session.catalog else [] :=
      congrArg Turn.effects hfull
    rw [heffects, ← halike.effects, hvalue, scheduleRetry_catalog, halike.session]
    cases again.value.changed with
    | true => exact .inr rfl
    | false => exact .inl (List.append_nil _)

/-- Of two files that were read and are touched again one has other content, and only that one is parsed: to parse
both gives the same session. -/
theorem drain_as_anew_two :
    let one := "export declare function f(): void;"
    let two := "export declare function g(): void;"
    let early : Surroundings := .ofFile ⟨"/w/a.d.ts"⟩ (.content one)
    let later : Surroundings :=
      { early with read := fun file => .content (if file.text = "/w/b.d.ts" then two else one) }
    let opened := Session.start early ⟨"/w"⟩ .default {}
    let touches : List Deed := [.handle early 0 (.touched ⟨"/w/a.d.ts"⟩), .handle early 0 (.touched ⟨"/w/b.d.ts"⟩)]
    let deeds := touches ++ [.poll early early early 500] ++ touches
    let session := (opened.run deeds).value
    Set.InjOn Digest.ofText (Effect.contents ((opened.run deeds).effects ++ (session.drain later 1000).effects))
      ∧ session.pending.paths.map (fun file => session.hasDigest file (Digest.ofText one)) = [true, true]
      ∧ (session.drain later 1000).value = (session.drainAnew later 1000).value := by
  intro one two early later opened touches deeds session
  have hreadings : ((opened.run deeds).effects ++ (session.drain later 1000).effects).filterMap Effect.reading? =
      [(⟨"/w/a.d.ts"⟩, .content one), (⟨"/w/b.d.ts"⟩, .content one), (⟨"/w/a.d.ts"⟩, .content one),
        (⟨"/w/b.d.ts"⟩, .content two)] := by decide +kernel
  have honly : ∀ text ∈ Effect.contents ((opened.run deeds).effects ++ (session.drain later 1000).effects),
      text = one ∨ text = two := by
    rintro text ⟨file, reading, hread, hresult⟩
    have hmem := List.mem_filterMap.mpr ⟨_, hread, (rfl : (Effect.read file reading).reading? = some (file, reading))⟩
    rw [hreadings] at hmem
    simp only [List.mem_cons, Prod.mk.injEq, List.not_mem_nil, or_false] at hmem
    rcases hmem with ⟨-, rfl⟩ | ⟨-, rfl⟩ | ⟨-, rfl⟩ | ⟨-, rfl⟩ <;> cases hresult <;> simp
  have hdistinct : Digest.ofText one ≠ Digest.ofText two := by decide +kernel
  have apart : Set.InjOn Digest.ofText
      (Effect.contents ((opened.run deeds).effects ++ (session.drain later 1000).effects)) := by
    intro a ha b hb hsame
    rcases honly a ha with rfl | rfl <;> rcases honly b hb with rfl | rfl
    · rfl
    · exact absurd hsame hdistinct
    · exact absurd hsame.symm hdistinct
    · rfl
  have hknown : session.pending.paths.map (fun file => session.hasDigest file (Digest.ofText one)) = [true, true] := by
    decide +kernel
  exact ⟨apart, hknown, (drain_as_anew early ⟨"/w"⟩ .default {} (.between deeds) later 1000 apart).1⟩

end Session

end TypingsIndex
