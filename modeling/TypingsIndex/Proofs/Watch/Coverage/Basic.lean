import TypingsIndex.Proofs.Catalog.Consistency
import TypingsIndex.Proofs.Watch.Marks
import TypingsIndex.Proofs.Watch.News

/-!
# Every difference between catalog and disk is covered

A catalog may differ from the disk, but never unnoticed. Of a file that the catalog does not agree with, news
of a touch is on the way, or the session will read it again, or it will scan the whole root; of a module whose
file is gone, news of the removal is on the way, or the session will look for the file again. A change of the
disk is covered by its own news (`Session.Covers.changed`).

The news may be old. A removal is told of a file that has come back since: the session then drops a module
that it should have. This does no harm because the touch that came after the removal is told after it
(`Returns`).
-/

set_option autoImplicit false

namespace TypingsIndex

/-! ## What is known of a session at all times -/

/-- A module of a tracked file, no directory on the way to which has the name of a declaration file, with the
functions and the digest of one text. -/
def Site.Owns (site : Site) (texts : String → Prop) (entry : Module) : Prop :=
  ∃ names text, Trackable names ∧ (∀ name ∈ names.dropLast, ¬ IsDeclarationName name)
    ∧ entry.file = site.file names ∧ texts text ∧ Signature.parseText text = .ok entry.functions
    ∧ entry.digest = some (Digest.ofText text)

/-- A session that works on the root of a site, with no limit of attempts and no settings to load. -/
structure Session.Tracks (session : Session) (site : Site) (texts : String → Prop) : Prop where
  root : session.root = site.path
  unlimited : session.timing.maxAttempts = none
  no_reload : session.reload = none
  consistent : session.catalog.Consistent
  pending : ∀ path ∈ session.pending.paths, ∃ names, Trackable names ∧ path = site.file names
  modules : ∀ entry ∈ session.catalog.modules, site.Owns texts entry

/-- The session will read a file again, or scan the whole root. -/
def Session.Awaits (session : Session) (path : Path) : Prop :=
  session.pending.contains path = true ∨ session.rescanDue.isSome = true

/-- If the content of a file keeps to the grammar, the module of the file was made from content with the same
digest. -/
def Catalog.Agrees (catalog : Catalog) (path : Path) (content : Disk.Content) : Prop :=
  ∀ text functions, content = .text text → Signature.parseText text = .ok functions →
    ∃ entry ∈ catalog.modules, entry.file.components = path.components
      ∧ entry.digest = some (Digest.ofText text)

/-- A catalog agrees with a text if it has a module of its digest wherever the text keeps to the grammar. -/
theorem Catalog.Agrees.of_text {catalog : Catalog} {path : Path} {text : String}
    (h : ∀ functions, Signature.parseText text = .ok functions →
      ∃ entry ∈ catalog.modules, entry.file.components = path.components
        ∧ entry.digest = some (Digest.ofText text)) : catalog.Agrees path (.text text) := by
  intro other functions hcontent hparsed
  cases hcontent
  exact h functions hparsed

/-- Pending files will be read. -/
def Session.Scheduled (session : Session) : Prop :=
  session.pending.paths ≠ [] → session.drainDue.isSome = true

/-- Every difference between the catalog and the disk will be noticed. -/
structure Session.Covers (session : Session) (site : Site) (disk : Disk) (queue : List Command) :
    Prop where
  fresh : ∀ names content, Trackable names → disk.node? (site.locate names) = some (.file content) →
    Heralded (site.file names) queue ∨ session.Awaits (site.file names)
      ∨ session.catalog.Agrees (site.file names) content
  gone : ∀ names, Trackable names → ∀ entry ∈ session.catalog.modules, entry.file = site.file names →
    (∃ content, disk.node? (site.locate names) = some (.file content))
      ∨ Revoked (site.file names) queue ∨ session.Awaits (site.file names)

/-- A plain disk with texts of a kind, and news on the way that are all of places below the root; what is on the
disk is not removed by the last news of it. -/
structure Disk.Told (disk : Disk) (site : Site) (texts : String → Prop) (queue : List Command) :
    Prop where
  plain : disk.Plain site
  holds : disk.HoldsOnly site texts
  is_local : ∀ command ∈ queue, site.Local command
  returns : ∀ names content, disk.node? (site.locate names) = some (.file content) →
    Returns (site.file names) queue

/-! ## What a reading tells -/

section

variable {reading : Reading} {node : Option Disk.Node}

/-- A reading of a file gives its text, or a fault that may pass or says what is there. -/
theorem Reading.Tells.outcome (tells : reading.Tells node) :
    (∃ text, reading.result = .ok text ∧ node = some (.file (.text text)))
      ∨ ∃ fault, reading.result = .error fault ∧ (fault.verdict = .transient
        ∨ (fault.verdict = .undecodable ∧ node = some (.file .binary))
        ∨ (fault.verdict = .missing ∧ ∀ content, node ≠ some (.file content))) := by
  unfold Reading.Tells at tells
  split at tells
  · next text =>
    rcases tells with rfl | ⟨fault, rfl, htransient⟩
    · exact .inl ⟨text, rfl, rfl⟩
    · exact .inr ⟨fault, rfl, .inl htransient⟩
  · rcases tells with ⟨fault, rfl, hundecodable⟩ | ⟨fault, rfl, htransient⟩
    · exact .inr ⟨fault, rfl, .inr (.inl ⟨hundecodable, rfl⟩)⟩
    · exact .inr ⟨fault, rfl, .inl htransient⟩
  · next hnoText hnoBinary =>
    rcases tells with ⟨fault, rfl, hmissing⟩ | ⟨fault, rfl, htransient⟩
    · refine .inr ⟨fault, rfl, .inr (.inr ⟨hmissing, fun content hnode => ?_⟩)⟩
      cases content with
      | text text => exact hnoText text hnode
      | binary => exact hnoBinary hnode
    · exact .inr ⟨fault, rfl, .inl htransient⟩

/-- A text that is read is there. -/
theorem Reading.Tells.of_text {text : String} (tells : reading.Tells node)
    (h : reading.result = .ok text) : node = some (.file (.text text)) := by
  rcases tells.outcome with ⟨other, hother, hnode⟩ | ⟨fault, hfault, -⟩
  · rw [hnode, Except.ok.inj (h.symm.trans hother)]
  · cases h.symm.trans hfault

/-- A text that is read of a file is its content. -/
theorem Reading.Tells.content_eq {content : Disk.Content} {text : String} (tells : reading.Tells (some (.file content)))
    (h : reading.result = .ok text) : content = .text text :=
  Disk.Node.file.inj (Option.some.inj (tells.of_text h))

/-- A fault that cannot pass says what is there. -/
theorem Reading.Tells.of_fault {fault : ReadFault} (tells : reading.Tells node)
    (h : reading.result = .error fault) (lasting : fault.verdict ≠ .transient) :
    (fault.verdict = .undecodable ∧ node = some (.file .binary))
      ∨ (fault.verdict = .missing ∧ ∀ content, node ≠ some (.file content)) := by
  rcases tells.outcome with ⟨text, htext, -⟩ | ⟨other, hother, htold⟩
  · cases h.symm.trans htext
  · obtain rfl := Except.error.inj (h.symm.trans hother)
    exact htold.resolve_left lasting

end

section

variable {site : Site} {texts : String → Prop} {disk after : Disk} {queue rest : List Command}
  {command : Command} {session : Session}

/-! ## What is known of a session, put to use -/

/-- A session that has not begun to work knows nothing. -/
theorem Session.Tracks.start {world : Surroundings} {base : Path} {settings : Settings} {timing : Timing}
    (root : Session.resolveRoot world base settings = site.path) (unlimited : timing.maxAttempts = none) :
    (Session.start world base settings timing).Tracks site texts :=
  ⟨root, unlimited, rfl, Catalog.empty_consistent, fun _ h => absurd h List.not_mem_nil,
    fun _ h => absurd h List.not_mem_nil⟩

/-- A tracked file can have a module below the root. -/
theorem Session.Tracks.empty?_isSome (tracks : session.Tracks site texts) {names : List String}
    (tracked : Trackable names) :
    ∃ fresh, Module.empty? (site.file names) session.root = some fresh := by
  obtain ⟨moduleNames, hnames⟩ := tracked.ofFile? site.path
  rw [tracks.root]
  unfold Module.empty? Site.file
  rw [hnames]
  exact ⟨_, rfl⟩

/-- With no limit of attempts no file is given up. -/
theorem Session.Tracks.patient (tracks : session.Tracks site texts) (attempts : Nat) :
    session.timing.exhausted attempts = false := by
  unfold Timing.exhausted
  rw [tracks.unlimited]
  rfl

/-- After the time of the next try was set, it is set if it has to be. -/
theorem Session.scheduleRetry_scheduled (session : Session) (now : Nat) :
    (session.scheduleRetry now).Scheduled := by
  intro hpending
  unfold scheduleRetry at hpending ⊢
  split
  · next hempty =>
    rw [if_pos hempty] at hpending
    exact absurd (Pending.isEmpty_iff.mp hempty) hpending
  · rfl

/-- Setting the time of the next try changes nothing else. -/
theorem Session.scheduleRetry_frame (session : Session) (now : Nat) :
    ∃ due, session.scheduleRetry now = { session with drainDue := due } := by
  unfold scheduleRetry
  split
  · exact ⟨session.drainDue, rfl⟩
  · exact ⟨some (now + session.timing.retry), rfl⟩

/-! ## A change of the disk -/

/-- A change keeps the order of the news. -/
theorem Disk.Told.changed (told : disk.Told site texts queue) (change : site.Change disk command after)
    (plain : after.Plain site) (holds : after.HoldsOnly site texts) :
    after.Told site texts (queue ++ [command]) where
  plain := plain
  holds := holds
  is_local other hother := by
    rcases List.mem_append.mp hother with hold | hnew
    · exact told.is_local other hold
    · rw [List.mem_singleton.mp hnew]
      exact change.is_local told.plain plain
  returns names content there := by
    rcases change.file_after told.plain plain there with ⟨hbefore, hkept⟩ | hheralded
    · exact (told.returns names content hbefore).append hkept
    · exact Returns.append_heralded hheralded

/-- News that is handled leaves the order of the others. -/
theorem Disk.Told.delivered (told : disk.Told site texts (command :: rest)) :
    disk.Told site texts rest where
  plain := told.plain
  holds := told.holds
  is_local other hother := told.is_local other (List.mem_cons_of_mem command hother)
  returns names content there := (told.returns names content there).2

/-- A change is covered by its own news. -/
theorem Session.Covers.changed (covers : session.Covers site disk queue)
    (change : site.Change disk command after) (before : disk.Plain site) (plain : after.Plain site) :
    session.Covers site after (queue ++ [command]) where
  fresh names content tracked there := by
    rcases change.file_after before plain there with ⟨hbefore, -⟩ | hheralded
    · rcases covers.fresh names content tracked hbefore with h | h
      · exact .inl (heralded_append.mpr (.inl h))
      · exact .inr h
    · exact .inl (heralded_append.mpr (.inr hheralded))
  gone names tracked entry hentry hfile := by
    rcases covers.gone names tracked entry hentry hfile with ⟨content, there⟩ | h | h
    · rcases change.file_before before plain there with h | h
      · exact .inl h
      · exact .inr (.inl (revoked_append.mpr (.inr h)))
    · exact .inr (.inl (revoked_append.mpr (.inl h)))
    · exact .inr (.inr h)

end

end TypingsIndex
