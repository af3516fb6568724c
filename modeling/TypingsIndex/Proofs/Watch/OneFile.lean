import TypingsIndex.Proofs.Scan.Accounts
import TypingsIndex.Proofs.Watch.SettingsInEffect

/-!
# One file in a drain and in a rebuild

A drain and a rebuild decide by the same table what becomes of a file: text that keeps to the grammar gives it a module,
a failure leaves it the module that it has, and only a failure that may pass leaves it pending. They differ where the
file is not there: a drain takes its module away, and a rebuild, which found the file in the directory a moment ago,
keeps it. A drain follows its table for the one file among all that are pending (`drain_at`), and may find the digest of
the text in the module, which then has the functions of the text already; a rebuild follows it for the one file among
all that are listed.
-/

set_option autoImplicit false

namespace TypingsIndex

/-- Whether a reading failed because the file is not there. -/
def Reading.isMissing (reading : Reading) : Bool :=
  match reading.result with
  | .ok _ => false
  | .error fault => fault.verdict = .missing

/-- Which module a catalog has for a file depends on the components of its path only. -/
theorem Catalog.find?_congr {catalog : Catalog} (consistent : catalog.Consistent) {file other : Path}
    (same : file.components = other.components) : catalog.find? file = catalog.find? other := by
  apply Option.ext
  intro entry
  rw [find?_eq_some_iff consistent, find?_eq_some_iff consistent, same]

/-- A catalog without a module of a path finds none. -/
theorem Catalog.find?_eq_none_of {catalog : Catalog} (consistent : catalog.Consistent) {file : Path}
    (unknown : ∀ entry ∈ catalog.modules, entry.file.components ≠ file.components) : catalog.find? file = none := by
  rw [Option.eq_none_iff_forall_ne_some]
  intro entry hfound
  obtain ⟨hentry, hsame⟩ := (find?_eq_some_iff consistent).mp hfound
  exact unknown entry hentry hsame

namespace Session

/-- What the module of a file was made of: its functions and the digest of its text. -/
def contents? (session : Session) (file : Path) : Option (List Signature × Option Digest) :=
  (session.catalog.find? file).map fun entry => (entry.functions, entry.digest)

/-- The entry of a file: the names of its module, its functions and the digest of its text. -/
def entryOf? (session : Session) (file : Path) : Option (ModuleNames × List Signature × Option Digest) :=
  (session.catalog.find? file).map fun entry => (entry.names, entry.functions, entry.digest)

/-- The names of an entry are those that its file has below the root. -/
theorem Named.entryOf?_eq {session : Session} (named : session.Named) (sound : session.Sound) (file : Path) :
    session.entryOf? file =
      (session.contents? file).bind fun made =>
        (ModuleNames.ofFile? file session.root).map fun names => (names, made) := by
  unfold entryOf? contents?
  cases hfound : session.catalog.find? file with
  | none => rfl
  | some entry =>
    obtain ⟨hentry, hsame⟩ := (Catalog.find?_eq_some_iff sound.consistent).mp hfound
    have hnames := named.named entry hentry
    rw [ModuleNames.ofFile?_congr hsame] at hnames
    simp [hnames]

/-! ## Runs keep the timing -/

section

variable {world : Surroundings} {now : Nat} {session : Session}

/-- Settings that are put in effect leave the timing alone. -/
theorem applied_timing {settings : Settings} {turn : Turn Session}
    (applied : SettingsApplied world now session settings turn) : turn.value.timing = session.timing := by
  cases applied with
  | same => rfl
  | announced => rfl
  | rebuilt =>
    have hunder : (session.underSettings world settings).timing = session.timing := by
      unfold underSettings
      split <;> rfl
    exact (KeepsSettings.rebuild world now _).timing.trans hunder

/-- A reload leaves the timing alone. -/
theorem reloadIfDue_timing : (session.reloadIfDue world now).value.timing = session.timing := by
  unfold reloadIfDue
  split
  · split
    · next reload _ _ =>
      have hloaded := reloadSettings_loaded world now session reload.attempts
      generalize session.reloadSettings world now reload.attempts = turn at hloaded
      cases hloaded with
      | applied outcome =>
        have htiming := applied_timing outcome
        exact htiming
      | refused => rfl
      | postponed => rfl
    · rfl
  · rfl

/-- No deed changes the timing. -/
theorem act_timing (deed : Deed) : (session.act deed).value.timing = session.timing := by
  cases deed with
  | handle world now command =>
    by_cases htouched : command = .settingsTouched
    · subst htouched
      rfl
    · by_cases hremoved : command = .settingsRemoved
      · subst hremoved
        rw [act_settingsRemoved]
        have htiming := applied_timing (applySettings_applied world now { session with reload := none } .default)
        exact htiming
      · exact (KeepsSettings.handled world now session htouched hremoved).timing
  | poll atReload atRescan atDrain now =>
    exact (KeepsSettings.polled atReload atRescan atDrain now session).timing.trans reloadIfDue_timing

/-- No run changes the timing. -/
theorem run_timing (deeds : List Deed) : (session.run deeds).value.timing = session.timing :=
  run_invariant (P := fun before => before.timing = session.timing) deeds rfl fun before deed _ hbefore =>
    calc (before.act deed).value.timing = before.timing := act_timing deed
      _ = session.timing := hbefore

end

/-- A touch does not move the root. -/
theorem touch_root {world : Surroundings} {now : Nat} {session : Session} {path : Path} :
    (session.touch world now path).root = session.root := by
  have htouched := touch_touched world now session path
  generalize session.touch world now path = after at htouched
  cases htouched <;> rfl

/-! ## One file in a drain -/

/-- Two sessions agree about one file: its module, and whether it is pending. -/
structure AlikeAt (file : Path) (before after : Session) : Prop where
  find? : after.catalog.find? file = before.catalog.find? file
  contains : after.pending.contains file = before.pending.contains file

namespace AlikeAt

variable {file : Path} {before between after : Session}

/-- Sessions that agree about a file with one in between agree about it with each other. -/
theorem trans (first : AlikeAt file before between) (second : AlikeAt file between after) : AlikeAt file before after :=
  ⟨second.find?.trans first.find?, second.contains.trans first.contains⟩

/-- Reading one pending file leaves every other as it is. -/
theorem of_drained {world : Surroundings} {other : Path} (sound : before.Sound)
    (drained : FileDrained world other before after) (ne : file.components ≠ other.components) :
    AlikeAt file before after := by
  constructor
  · apply Option.ext
    intro entry
    rw [Catalog.find?_eq_some_iff (drained.consistent sound.consistent), Catalog.find?_eq_some_iff sound.consistent]
    refine and_congr_left fun hsame => drained.mem_other sound.consistent ?_
    rwa [hsame]
  · rw [Bool.eq_iff_iff]
    constructor
    · intro hafter
      obtain ⟨marked, hmarked, hsame⟩ := Pending.contains_iff.mp hafter
      exact Pending.contains_iff.mpr ⟨marked, drained.paths_subset marked hmarked, hsame⟩
    · exact drained.contains_other ne

end AlikeAt

/-- A drain does to a pending file what the reading of this one file does, under the spelling under which it is marked,
in a session that agrees about the file with the one before the drain. -/
theorem drain_at (world : Surroundings) (now : Nat) {session : Session} {file : Path} (sound : session.Sound)
    (pending : session.pending.contains file = true) :
    ∃ marked ∈ session.pending.paths, marked.components = file.components ∧ ∃ before after : Session,
      before.Sound ∧ before.root = session.root ∧ before.timing = session.timing
        ∧ AlikeAt file session before ∧ FileDrained world marked before after
        ∧ AlikeAt file after (session.drain world now).value := by
  obtain ⟨marked, hmarked, hsame⟩ := Pending.contains_iff.mp pending
  obtain ⟨front, back, hpaths⟩ := List.append_of_mem hmarked
  have hdistinct := sound.rising.paths_distinct
  rw [hpaths, List.pairwise_append, List.pairwise_cons] at hdistinct
  obtain ⟨-, ⟨hback, -⟩, hfront⟩ := hdistinct
  let begun : Draining := ⟨{ session with drainDue := none }, false⟩
  let atMarked := (front.foldlM (drainFile world) begun).value
  let read := (drainFile world atMarked marked).value
  -- nothing that is read before the file concerns it
  have hbefore : atMarked.session.Sound ∧ atMarked.session.root = session.root
      ∧ atMarked.session.timing = session.timing ∧ AlikeAt file session atMarked.session := by
    refine foldlM_drainFile_invariant (P := fun before => before.Sound ∧ before.root = session.root
      ∧ before.timing = session.timing ∧ AlikeAt file session before) ?_ ⟨sound.of_same rfl rfl, rfl, rfl, rfl, rfl⟩
    rintro other hother before after ⟨hsound, hroot, htiming, halike⟩ hdrained
    have hne : file.components ≠ other.components := fun heq =>
      hfront other hother marked List.mem_cons_self (heq.symm.trans hsame.symm)
    have hafter := halike.trans (.of_drained hsound hdrained hne)
    refine ⟨hsound.drained hdrained, ?_, ?_, hafter⟩
    · obtain ⟨_, _, rfl⟩ := hdrained.frame
      exact hroot
    · obtain ⟨_, _, rfl⟩ := hdrained.frame
      exact htiming
  have hread : FileDrained world marked atMarked.session read.session := drainFile_drained world atMarked marked
  -- and nothing that is read after it
  have hafter : (back.foldlM (drainFile world) read).value.session.Sound
      ∧ AlikeAt file read.session (back.foldlM (drainFile world) read).value.session := by
    refine foldlM_drainFile_invariant (P := fun before => before.Sound ∧ AlikeAt file read.session before) ?_
      ⟨hbefore.1.drained hread, rfl, rfl⟩
    rintro other hother before after ⟨hsound, halike⟩ hdrained
    have hne : file.components ≠ other.components := fun heq =>
      hback other hother (hsame.trans heq)
    exact ⟨hsound.drained hdrained, halike.trans (.of_drained hsound hdrained hne)⟩
  have hall : (session.pending.paths.foldlM (drainFile world) begun).value =
      (back.foldlM (drainFile world) read).value := by
    rw [hpaths, List.foldlM_append, Turn.value_bind, List.foldlM_cons, Turn.value_bind]
  refine ⟨marked, hmarked, hsame, atMarked.session, read.session, hbefore.1, hbefore.2.1, hbefore.2.2.1,
    hbefore.2.2.2, hread, ?_⟩
  obtain ⟨turn, rfl, hdrain⟩ := drain_eq world now session
  rw [hdrain]
  dsimp only
  rw [hall]
  exact ⟨by rw [scheduleRetry_catalog, hafter.2.find?], by rw [scheduleRetry_pending, hafter.2.contains]⟩

/-! ## The table -/

/-- What becomes of a file that had some contents when it is read: it has the new contents, or keeps the old ones if it
cannot be read or breaks the grammar. -/
def contentsAfter (reading : Reading) (before : Option (List Signature × Option Digest)) :
    Option (List Signature × Option Digest) :=
  match reading.result with
  | .error _ => before
  | .ok text =>
    match Signature.parseText text with
    | .error _ => before
    | .ok functions => some (functions, some (Digest.ofText text))

/-- A file that is not there keeps what it has in the table. -/
theorem contentsAfter_of_missing {reading : Reading} (missing : reading.isMissing = true)
    (before : Option (List Signature × Option Digest)) : contentsAfter reading before = before := by
  unfold Reading.isMissing at missing
  unfold contentsAfter
  split at missing
  · cases missing
  · next hread => simp only [hread]

/-- If the module of a file has the digest of the text that is read, it has the functions of the text. -/
def Faithful (session : Session) (file : Path) (reading : Reading) : Prop :=
  ∀ entry text, session.catalog.find? file = some entry → reading.result = .ok text →
    entry.digest = some (Digest.ofText text) → Signature.parseText text = .ok entry.functions

section

variable {world : Surroundings} {file : Path} {before after : Session}

/-- The reading of one pending file follows the table, but that a file which is not there loses its module. -/
theorem FileDrained.table (drained : FileDrained world file before after) (sound : before.Sound)
    (named : ∃ fresh, Module.empty? file before.root = some fresh) (unlimited : before.timing.maxAttempts = none)
    (pending : before.pending.contains file = true) (faithful : before.Faithful file (world.read file)) :
    after.pending.contains file = (world.read file).isTransient
      ∧ after.contents? file =
        if (world.read file).isMissing then none else contentsAfter (world.read file) (before.contents? file) := by
  have hsettled : (before.settled file).pending.contains file = false := by
    rw [← Bool.not_eq_true, Pending.contains_iff]
    rintro ⟨marked, hmarked, hsame⟩
    exact (Pending.mem_paths_erase.mp hmarked).2 hsame
  have hnever : ∀ attempts, before.timing.exhausted attempts = false := by
    intro attempts
    unfold Timing.exhausted
    rw [unlimited]
    rfl
  -- The verdict on the reading decides about the mark, and what the catalog does with the text about the module.
  cases drained with
  | known reading same =>
    obtain ⟨entry, hentry, hsame, hdigest⟩ := (hasDigest_iff sound.consistent).mp same
    have hfound := (Catalog.find?_eq_some_iff sound.consistent).mpr ⟨hentry, hsame⟩
    have hparsed := faithful entry _ hfound reading hdigest
    refine ⟨by simp [hsettled, Reading.isTransient, reading], ?_⟩
    simp [contents?, settled, Reading.isMissing, contentsAfter, reading, hfound, hparsed, hdigest]
  | malformed reading refused =>
    obtain ⟨fault, hrefused, -⟩ := functionsOf_eq_error.mp refused
    refine ⟨by simp [hsettled, Reading.isTransient, reading], ?_⟩
    simp [contents?, settled, Reading.isMissing, contentsAfter, reading, hrefused]
  | parsed reading accepted taken =>
    obtain ⟨new, hsame, rfl, hdigest, -, hmem⟩ := mem_catalogWith? sound.consistent taken
    have hconsistent := catalogWith?_consistent sound.consistent taken
    have hfound := (Catalog.find?_eq_some_iff hconsistent).mpr ⟨(hmem new).mpr (.inl rfl), hsame⟩
    have hparsed := functionsOf_eq_ok.mp accepted
    refine ⟨by simp [hsettled, Reading.isTransient, reading], ?_⟩
    simp [contents?, Reading.isMissing, contentsAfter, reading, hfound, hparsed, hdigest]
  | foreign reading accepted refused =>
    obtain ⟨fresh, hfresh⟩ := named
    have hforeign := catalogWith?_eq_none refused
    have hroot : (before.settled file).root = before.root := rfl
    rw [hroot, hfresh] at hforeign
    cases hforeign
  | vanished reading verdict taken =>
    have hconsistent := Catalog.erase?_consistent sound.consistent taken
    have hgone := Catalog.find?_eq_none_of hconsistent fun entry hentry =>
      ((Catalog.mem_erase? sound.consistent taken).mp hentry).2
    refine ⟨by simp [hsettled, Reading.isTransient, reading, verdict], ?_⟩
    simp [contents?, Reading.isMissing, reading, verdict, hgone]
  | absent reading verdict unknown =>
    have hgone := Catalog.find?_eq_none_of sound.consistent (Catalog.erase?_eq_none sound.consistent unknown)
    refine ⟨by simp [hsettled, Reading.isTransient, reading, verdict], ?_⟩
    simp [contents?, settled, Reading.isMissing, reading, verdict, hgone]
  | undecodable reading verdict =>
    refine ⟨by simp [hsettled, Reading.isTransient, reading, verdict], ?_⟩
    simp [contents?, settled, Reading.isMissing, contentsAfter, reading, verdict]
  | retried reading verdict patient =>
    refine ⟨by simp [Pending.contains_countFailure, pending, Reading.isTransient, reading, verdict], ?_⟩
    simp [contents?, Reading.isMissing, contentsAfter, reading, verdict]
  | exhausted reading verdict impatient =>
    rw [hnever] at impatient
    cases impatient

/-- A scan follows the table for a file that can have a module. -/
theorem moduleOf?_contents {root : Path} {names : ModuleNames} (previous : Catalog)
    (named : ModuleNames.ofFile? file root = some names) :
    (Scan.moduleOf? world root previous file).map (fun entry => (entry.functions, entry.digest)) =
      contentsAfter (world.read file) ((previous.find? file).map fun entry => (entry.functions, entry.digest)) := by
  unfold Scan.moduleOf? Scan.keptModule? contentsAfter
  rw [Scan.loadModule_outcome named]
  unfold Reading.outcome
  cases hread : (world.read file).result with
  | error fault =>
    simp only [Except.map]
    cases previous.find? file <;> simp [Module.relocate?, named]
  | ok text =>
    cases hparsed : Signature.parseText text with
    | error fault =>
      simp only [hparsed, Except.map]
      cases previous.find? file <;> simp [Module.relocate?, named]
    | ok functions => simp only [hparsed, Except.map, Option.map_some]

/-- A rebuild follows the table for a listed file. -/
theorem rebuild_table {session : Session} (now : Nat) (walks : world.WalksOnce session.root)
    (exists_root : world.isDirectory session.root = true) (listed : file ∈ Scan.listed world session.root) :
    (session.rebuild world now).value.1.pending.contains file = (world.read file).isTransient
      ∧ (session.rebuild world now).value.1.contents? file =
          contentsAfter (world.read file) (session.contents? file) := by
  obtain ⟨scan, hscan, hvalue⟩ := rebuild_value now exists_root
  obtain ⟨names, hnamed⟩ := Scan.exists_ofFile? walks listed
  have hfound := Scan.find?_scanned walks exists_root hscan listed
  have hpending := Scan.contains_pendingAfter_iff walks exists_root hscan listed
  rw [hvalue]
  unfold contents?
  rw [scheduleRetry_pending, scheduleRetry_catalog, hpending, hfound]
  exact ⟨rfl, moduleOf?_contents session.catalog hnamed⟩

/-- A drain after a touch follows the table for the touched file, but that a file which is not there loses its
module. -/
theorem drain_table {session : Session} (now later : Nat) (sound : session.Sound)
    (accepted : session.accepts file = true) (named : ∃ names, ModuleNames.ofFile? file session.root = some names)
    (unlimited : session.timing.maxAttempts = none) (faithful : session.Faithful file (world.read file))
    (spelled : ∀ marked ∈ session.pending.paths, marked.components = file.components →
      world.read marked = world.read file) :
    ((session.touch world now file).drain world later).value.pending.contains file = (world.read file).isTransient
      ∧ ((session.touch world now file).drain world later).value.contents? file =
          if (world.read file).isMissing then none
          else contentsAfter (world.read file) (session.contents? file) := by
  have htouched : session.touch world now file =
      ({ session with pending := session.pending.insert file }.requestDrain now) := by
    unfold touch
    rw [if_pos accepted]
  have hsound : (session.touch world now file).Sound := sound.touch file
  have hmarks : (session.touch world now file).pending.contains file = true := by
    rw [htouched]
    exact Pending.contains_insert.mpr (.inl rfl)
  -- The file is read under the spelling that its mark has, by a session with the same catalog entry as the first one.
  obtain ⟨marked, hmarked, hsame, before, after, hbefore, hroot, htiming, halike, hdrained, hafter⟩ :=
    drain_at world later hsound hmarks
  have hread : world.read marked = world.read file := by
    rw [htouched] at hmarked
    rcases Pending.paths_insert hmarked with rfl | hold
    · rfl
    · exact spelled marked hold hsame
  have hrootSession : before.root = session.root := by
    rw [hroot, htouched]
    rfl
  have hunlimited : before.timing.maxAttempts = none := by
    rw [htiming, htouched]
    exact unlimited
  have hfound : before.catalog.find? marked = session.catalog.find? file := by
    rw [Catalog.find?_congr hbefore.consistent hsame, halike.find?, touch_catalog]
  have hnamed : ∃ fresh, Module.empty? marked before.root = some fresh := by
    obtain ⟨names, hnames⟩ := named
    rw [← ModuleNames.ofFile?_congr hsame, ← hrootSession] at hnames
    unfold Module.empty?
    exact ⟨_, by rw [hnames, Option.map_some]⟩
  have hmarkedPending : before.pending.contains marked = true := by
    rw [Pending.contains_congr hsame, halike.contains, hmarks]
  have hfaithful : before.Faithful marked (world.read marked) := by
    intro entry text hentry
    rw [hfound] at hentry
    rw [hread]
    exact faithful entry text hentry
  -- The table speaks of the spelling of the mark, and the catalog finds the same under both.
  obtain ⟨hpending, hcontents⟩ := hdrained.table hbefore hnamed hunlimited hmarkedPending hfaithful
  rw [hread] at hpending hcontents
  constructor
  · rw [hafter.contains, ← Pending.contains_congr hsame, hpending]
  · unfold contents? at hcontents ⊢
    rw [hafter.find?, ← Catalog.find?_congr (hdrained.consistent hbefore.consistent) hsame, hcontents, hfound]

end

/-- In every session that a run comes to without an attempt limit, whatever the reading of a listed file gives: a touch
of the file and a drain leave it pending exactly if a rebuild does, and leave the same entry for it, both none or the
same names, functions and digest; but if the file is not there, the drain leaves no entry and the rebuild leaves the one
that the session had. No other text of the digest of this one may have been read, and if the file is pending under
another spelling, it has to read the same under it. -/
theorem drain_and_rebuild_alike (first : Surroundings) (base : Path) (settings : Settings) (timing : Timing)
    (unlimited : timing.maxAttempts = none) (deeds : List Deed)
    (walked : ∀ deed ∈ deeds, ∀ seen ∈ deed.worlds, seen.WalksBelow ∧ seen.ListsOnce)
    (world : Surroundings) (below : world.WalksBelow) (file : Path) :
    let opened := Session.start first base settings timing
    let session := (opened.run deeds).value
    world.isDirectory session.root = true → world.WalksOnce session.root →
    file ∈ Scan.listed world session.root →
    (∀ text other, (world.read file).result = .ok text → Happening.WasRead (opened.history deeds) other →
      Digest.ofText other = Digest.ofText text → other = text) →
    (∀ marked ∈ session.pending.paths, marked.components = file.components → world.read marked = world.read file) →
    ∀ now later again : Nat,
      let drained := ((session.touch world now file).drain world later).value
      let rebuilt := (session.rebuild world again).value.1
      drained.pending.contains file = rebuilt.pending.contains file
        ∧ ((world.read file).isMissing = false → drained.entryOf? file = rebuilt.entryOf? file)
        ∧ ((world.read file).isMissing = true →
          drained.entryOf? file = none ∧ rebuilt.entryOf? file = session.entryOf? file) := by
  intro opened session exists_root walks listed apart spelled now later again drained rebuilt
  have hopened : opened.Sound := .start first base settings timing
  have hsound : session.Sound := hopened.run deeds
  have hnamed : session.Named :=
    (Named.start first base settings timing).run hopened deeds fun deed hdeed seen hseen =>
      (walked deed hdeed seen hseen).1
  have hunlimited : session.timing.maxAttempts = none := by
    have htiming : session.timing = timing := run_timing deeds
    rw [htiming]
    exact unlimited
  have haccepted : session.accepts file = true := accepts_listed below listed
  have hfaithful : session.Faithful file (world.read file) := by
    intro entry text hfound hread hdigest
    obtain ⟨hentry, -⟩ := (Catalog.find?_eq_some_iff hsound.consistent).mp hfound
    obtain ⟨-, made, -, hmade, -, hfrom⟩ := exists_madeFrom hopened rfl
      (fun deed hdeed seen hseen => (walked deed hdeed seen hseen).2) hentry
    obtain rfl := apart text made hread hmade (Option.some.inj (hfrom.1.symm.trans hdigest))
    exact hfrom.2
  have hnames := Scan.exists_ofFile? walks listed
  obtain ⟨hdrainedPending, hdrained⟩ := drain_table now later hsound haccepted hnames
    hunlimited hfaithful spelled
  obtain ⟨hrebuiltPending, hrebuilt⟩ := rebuild_table again walks exists_root listed
  -- the names of an entry follow from its file, so that the contents decide
  have hdrainedEntry : drained.entryOf? file = (drained.contents? file).bind fun made =>
      (ModuleNames.ofFile? file session.root).map fun names => (names, made) := by
    have hafter : drained.Named := (hnamed.touch file).drain (hsound.touch file)
    have hroot : drained.root = session.root := by
      obtain ⟨_, _, hvalue⟩ := drain_frame world later (session.touch world now file)
      change ((session.touch world now file).drain world later).value.root = session.root
      rw [hvalue]
      exact touch_root
    rw [hafter.entryOf?_eq (hsound.touch file).drain, hroot]
  have hrebuiltEntry : rebuilt.entryOf? file = (rebuilt.contents? file).bind fun made =>
      (ModuleNames.ofFile? file session.root).map fun names => (names, made) := by
    have hafter : rebuilt.Named := .rebuild below hnamed.accepted
    have hroot : rebuilt.root = session.root := by
      obtain ⟨_, _, _, hvalue, -⟩ := rebuild_frame world again session
      change (session.rebuild world again).value.1.root = session.root
      rw [hvalue]
    rw [hafter.entryOf?_eq hsound.rebuild, hroot]
  refine ⟨hdrainedPending.trans hrebuiltPending.symm, ?_, ?_⟩
  · intro hthere
    rw [hdrainedEntry, hrebuiltEntry, hdrained, hrebuilt, hthere, if_neg Bool.false_ne_true]
  · intro hmissing
    rw [hdrainedEntry, hrebuiltEntry, hdrained, hrebuilt, hmissing, if_pos rfl, hnamed.entryOf?_eq hsound,
      contentsAfter_of_missing hmissing]
    exact ⟨rfl, rfl⟩

/-- A locked file keeps its entry and stays pending, whether it is drained or found by a rebuild. -/
theorem drain_and_rebuild_alike_locked :
    let file : Path := ⟨"/w/a.d.ts"⟩
    let there := Surroundings.around file fun _ => .content "export declare function f(): void;"
    let locked := Surroundings.around file fun _ => .failed ⟨.permissionDenied, "denied"⟩
    let session := ((Session.start there ⟨"/w"⟩ .default {}).run [.handle there 0 .rebuild]).value
    let drained := ((session.touch locked 1 file).drain locked 501).value
    let rebuilt := (session.rebuild locked 1).value.1
    drained.pending.contains file = true ∧ rebuilt.pending.contains file = true
      ∧ (session.entryOf? file).isSome = true ∧ drained.entryOf? file = rebuilt.entryOf? file := by
  intro file there locked session drained rebuilt
  have honce : there.ListsOnce := by
    intro directory a ha b hb _
    unfold there Surroundings.around at ha hb
    dsimp only at ha hb
    split at ha
    · rw [if_pos ‹_›] at hb
      rw [List.mem_singleton.mp ha, List.mem_singleton.mp hb]
    · cases ha
  have hwalked : ∀ deed ∈ [Deed.handle there 0 .rebuild], ∀ seen ∈ deed.worlds, seen.WalksBelow ∧ seen.ListsOnce := by
    intro deed hdeed seen hseen
    obtain rfl := List.mem_singleton.mp hdeed
    obtain rfl := List.mem_singleton.mp hseen
    exact ⟨Surroundings.around_walksBelow file _, honce⟩
  have hroot : session.root = ⟨"/w"⟩ := by decide +kernel
  have hexists : locked.isDirectory session.root = true := by decide +kernel
  have hlisted : file ∈ Scan.listed locked session.root := by decide +kernel
  have hwalk : (locked.walk session.root).1 = [file] := by decide +kernel
  have hwalks : locked.WalksOnce session.root := by
    constructor
    · intro path hpath
      rw [hwalk] at hpath
      rw [List.mem_singleton.mp hpath, hroot]
      exact ⟨["a.d.ts"], by decide, by decide +kernel⟩
    · rw [hwalk]
      exact List.pairwise_singleton _ _
  have hunmarked : session.pending.paths = [] := by decide +kernel
  have hentry : (session.entryOf? file).isSome = true := by decide +kernel
  have hpending : rebuilt.pending.contains file = true := by decide +kernel
  have hapart : ∀ text other, (locked.read file).result = .ok text →
      Happening.WasRead ((Session.start there ⟨"/w"⟩ .default {}).history [.handle there 0 .rebuild]) other →
      Digest.ofText other = Digest.ofText text → other = text := by
    intro text other hread
    cases hread
  have hspelled : ∀ marked ∈ session.pending.paths, marked.components = file.components →
      locked.read marked = locked.read file := by
    rw [hunmarked]
    intro marked hmarked
    cases hmarked
  have hthere : (locked.read file).isMissing = false := by decide +kernel
  obtain ⟨hmarks, hkept, -⟩ := drain_and_rebuild_alike there ⟨"/w"⟩ .default {} rfl [.handle there 0 .rebuild] hwalked
    locked (Surroundings.around_walksBelow file _) file hexists hwalks hlisted hapart hspelled 1 501 1
  simp only [drained, rebuilt, session] at hpending ⊢
  exact ⟨hmarks.trans hpending, hpending, hentry, hkept hthere⟩

/-- A listed file that is not there any more when it is read loses its module in a drain and keeps it in a rebuild. And
a file that is marked under a spelling which cannot be read stays pending in a drain, though a rebuild reads it. -/
theorem drain_and_rebuild_differ :
    (let file : Path := ⟨"/w/a.d.ts"⟩
      let there := Surroundings.around file fun _ => .content "export declare function f(): void;"
      let gone := Surroundings.around file fun _ => .failed .notFound
      let session := ((Session.start there ⟨"/w"⟩ .default {}).run [.handle there 0 .rebuild]).value
      let drained := ((session.touch gone 1 file).drain gone 501).value
      let rebuilt := (session.rebuild gone 1).value.1
      file ∈ Scan.listed gone session.root ∧ drained.entryOf? file = none ∧ (rebuilt.entryOf? file).isSome = true)
    ∧ (let file : Path := ⟨"/w/a.d.ts"⟩
      let slashed : Path := ⟨"/w/a.d.ts/"⟩
      let world := Surroundings.around file fun path =>
        if path = slashed then .failed .notADirectory else .content "export declare function f(): void;"
      let session := ((Session.start world ⟨"/w"⟩ .default {}).run [.handle world 0 (.touched slashed)]).value
      let drained := ((session.touch world 1 file).drain world 501).value
      let rebuilt := (session.rebuild world 1).value.1
      file ∈ Scan.listed world session.root ∧ drained.pending.contains file = true
        ∧ drained.entryOf? file = none ∧ rebuilt.pending.contains file = false
        ∧ (rebuilt.entryOf? file).isSome = true) := by
  decide +kernel

end Session

end TypingsIndex
