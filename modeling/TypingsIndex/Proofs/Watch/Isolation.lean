import TypingsIndex.Proofs.Catalog.Without
import TypingsIndex.Proofs.Watch.Effects

/-!
# One file does not disturb the others

Two runs of the same work, in surroundings that differ in what reading one file gives, come to the same as soon as
this file is left out of both: its module, its mark and what was told of its failures. In a drain the two runs are
followed side by side. They read the same files in the same order. Reading the file in question changes nothing but
the module and the mark of the file, in either run, and reading another one does the same in both, because it depends
on nothing but the modules and marks that the runs share. A scan has no state, so that its files can be compared one
by one.
-/

set_option autoImplicit false

namespace TypingsIndex

/-- Surroundings that differ from others in nothing but what reading one file gives, under any spelling of it. -/
structure Surroundings.AlikeBesides (file : Path) (world other : Surroundings) : Prop where
  read : ∀ path, path.components ≠ file.components → world.read path = other.read path
  rest : other = { world with read := other.read }

/-- Whether a failure is not that of a file. -/
def Failure.isBesides (file : Path) (failure : Failure) : Bool :=
  !failure.file?.any fun failed => failed.same file

/-- Whether an event tells of a failure that is not that of a file. -/
def Event.isFailureBesides (file : Path) : Event → Bool
  | .moduleFailed path _ => !Path.same ⟨path⟩ file
  | .fault _ => true
  | _ => false

/-- The failures that effects tell of, without those of a file. -/
def Effect.failuresBesides (file : Path) (effects : List Effect) : List Event :=
  (effects.filterMap Effect.event?).filter (Event.isFailureBesides file)

/-- What is left of the modules, the marks and the failures told if one leaves out a file. -/
structure Remainder where
  modules : List Module
  pending : Pending
  failures : List Event

/-- What is left of a turn if one leaves out a file. -/
def Turn.besides (file : Path) (turn : Turn Session) : Remainder where
  modules := (turn.value.catalog.erased file).modules
  pending := turn.value.pending.erase file
  failures := Effect.failuresBesides file turn.effects

/-- The modules and the failures that are left of a scan if one leaves out a file. -/
def ScanReport.besides (file : Path) (scan : ScanReport) : List Module × List Failure :=
  ((scan.catalog.erased file).modules, scan.failures.filter (Failure.isBesides file))

/-! ## Telling of failures -/

namespace Effect

/-- The failures told by effects after others come behind theirs. -/
theorem failuresBesides_append (file : Path) (first second : List Effect) :
    failuresBesides file (first ++ second) = failuresBesides file first ++ failuresBesides file second := by
  unfold failuresBesides
  rw [List.filterMap_append, List.filter_append]

/-- A publication tells of no failure. -/
theorem failuresBesides_publication (file : Path) (catalog : Catalog) :
    failuresBesides file (publication catalog) = [] := rfl

/-- Reading files tells of no failure. -/
theorem failuresBesides_readings (file : Path) (readings : List (Path × Reading)) :
    failuresBesides file (readings.map fun entry => .read entry.1 entry.2) = [] := by
  have hnone : (readings.map fun entry => Effect.read entry.1 entry.2).filterMap event? = [] := by
    rw [List.filterMap_eq_nil_iff]
    intro effect heffect
    obtain ⟨entry, -, rfl⟩ := List.mem_map.mp heffect
    rfl
  unfold failuresBesides
  rw [hnone, List.filter_nil]

end Effect

/-- A failure is told unless it is left out. -/
theorem Turn.report_besides (file : Path) (failure : Failure) :
    Effect.failuresBesides file (Turn.report failure).effects =
      if failure.isBesides file then (Turn.report failure).effects.filterMap Effect.event? else [] := by
  unfold Turn.report Failure.isBesides
  cases failure.file? with
  | none => rfl
  | some failed =>
    cases hsame : failed.same file with
    | true => simp [Effect.failuresBesides, Turn.emit, Turn.perform, Effect.event?, Event.isFailureBesides, hsame]
    | false => simp [Effect.failuresBesides, Turn.emit, Turn.perform, Effect.event?, Event.isFailureBesides, hsame]

/-- To report failures and leave out those of a file is to report the failures besides that file. -/
theorem Turn.forM_report_besides (file : Path) (failures : List Failure) :
    Effect.failuresBesides file (failures.forM Turn.report).effects =
      ((failures.filter (Failure.isBesides file)).forM Turn.report).effects.filterMap Effect.event? := by
  induction failures with
  | nil => rfl
  | cons failure rest ih =>
    have hcons : ∀ others : List Failure, ((failure :: others).forM Turn.report).effects =
        (Turn.report failure).effects ++ (others.forM Turn.report).effects := fun _ => rfl
    rw [hcons, Effect.failuresBesides_append, ih, Turn.report_besides]
    cases hother : failure.isBesides file with
    | true => rw [List.filter_cons_of_pos hother, hcons, List.filterMap_append, if_pos rfl]
    | false =>
      rw [List.filter_cons_of_neg (Bool.not_eq_true _ ▸ hother), if_neg Bool.false_ne_true, List.nil_append]

namespace Session

/-! ## Reading the pending files -/

/-- Sessions that differ in the module and the mark of one file only, at the same root and with the same patience. -/
structure AgreeBesides (file : Path) (left right : Session) : Prop where
  root : left.root = right.root
  timing : left.timing = right.timing
  modules : Listing.without left.catalog.modules file = Listing.without right.catalog.modules file
  pending : left.pending.erase file = right.pending.erase file
  consistent : left.catalog.Consistent ∧ right.catalog.Consistent

/-- The modules after functions were taken in: the module of the file with these functions, or one more. -/
theorem catalogWith?_map {session : Session} (consistent : session.catalog.Consistent) (path : Path)
    (functions : List Signature) (content : String) :
    (session.catalogWith? path functions content).map Catalog.modules =
      (Listing.refill? session.catalog.modules path functions (some (Digest.ofText content))).or
        ((Module.empty? path session.root).map fun entry =>
          Listing.put session.catalog.modules (entry.withContent functions content)) := by
  unfold catalogWith?
  rw [← Catalog.replaceFunctions?_map consistent]
  cases session.catalog.replaceFunctions? path functions (some (Digest.ofText content)) with
  | some replaced => rfl
  | none =>
    cases Module.empty? path session.root with
    | none => rfl
    | some entry =>
      change some (session.catalog.insert _).modules = some _
      rw [Catalog.insert_modules consistent]

namespace AgreeBesides

variable {file path : Path} {left right : Session}

/-- A session agrees with itself. -/
theorem refl {session : Session} (consistent : session.catalog.Consistent) : AgreeBesides file session session :=
  ⟨rfl, rfl, rfl, rfl, consistent, consistent⟩

/-- Agreement besides a file goes both ways. -/
theorem symm (agree : AgreeBesides file left right) : AgreeBesides file right left :=
  ⟨agree.root.symm, agree.timing.symm, agree.modules.symm, agree.pending.symm, agree.consistent.symm⟩

/-- Sessions that agree with the same one besides a file agree with each other besides it. -/
theorem trans {last : Session} (first : AgreeBesides file left right) (second : AgreeBesides file right last) :
    AgreeBesides file left last :=
  ⟨first.root.trans second.root, first.timing.trans second.timing, first.modules.trans second.modules,
    first.pending.trans second.pending, first.consistent.1, second.consistent.2⟩

section

variable (agree : AgreeBesides file left right) (ne : path.components ≠ file.components)

include agree

/-- Both sessions unmark a file. -/
theorem settled : AgreeBesides file (left.settled path) (right.settled path) := by
  refine ⟨agree.root, agree.timing, agree.modules, ?_, agree.consistent⟩
  unfold Session.settled
  rw [Pending.erase_comm, agree.pending, Pending.erase_comm]

/-- Both sessions count a failure. -/
theorem counted : AgreeBesides file { left with pending := left.pending.countFailure path }
    { right with pending := right.pending.countFailure path } := by
  refine ⟨agree.root, agree.timing, agree.modules, ?_, agree.consistent⟩
  rw [Pending.erase_countFailure, agree.pending, Pending.erase_countFailure]

include ne

/-- Both sessions have the same module of any other file. -/
theorem find? : left.catalog.find? path = right.catalog.find? path := by
  obtain ⟨hleft, hright⟩ := agree.consistent
  calc left.catalog.find? path = Listing.lookUp? left.catalog.modules path := hleft.find?_eq path
    _ = Listing.lookUp? (Listing.without left.catalog.modules file) path := (Listing.lookUp?_without ne).symm
    _ = Listing.lookUp? (Listing.without right.catalog.modules file) path := by rw [agree.modules]
    _ = Listing.lookUp? right.catalog.modules path := Listing.lookUp?_without ne
    _ = right.catalog.find? path := (hright.find?_eq path).symm

/-- Both sessions have seen the same content of any other file. -/
theorem hasDigest (digest : Digest) : left.hasDigest path digest = right.hasDigest path digest := by
  unfold Session.hasDigest
  rw [agree.find? ne]

/-- Both sessions have counted the same failures of any other file. -/
theorem failures? : left.pending.failures? path = right.pending.failures? path := by
  rw [← Pending.failures?_erase ne, agree.pending, Pending.failures?_erase ne]

/-- Functions go into both catalogs or into neither, and to the same place besides the module in question. -/
theorem catalogWith? (functions : List Signature) (content : String) :
    (left.catalogWith? path functions content).map (fun catalog => Listing.without catalog.modules file) =
      (right.catalogWith? path functions content).map (fun catalog => Listing.without catalog.modules file) := by
  have hwithout : ∀ session : Session, session.catalog.Consistent →
      (session.catalogWith? path functions content).map (fun catalog => Listing.without catalog.modules file) =
        (Listing.refill? (Listing.without session.catalog.modules file) path functions
            (some (Digest.ofText content))).or
          ((Module.empty? path session.root).map fun entry =>
            Listing.put (Listing.without session.catalog.modules file) (entry.withContent functions content)) := by
    intro session consistent
    have hmodules := congrArg (Option.map (Listing.without · file))
      (catalogWith?_map consistent path functions content)
    rw [Option.map_map, Option.map_or, Listing.without_refill? ne, Option.map_map] at hmodules
    refine hmodules.trans ?_
    cases hempty : Module.empty? path session.root with
    | none => rfl
    | some entry =>
      obtain ⟨names, -, rfl⟩ := Option.map_eq_some_iff.mp hempty
      rw [Option.map_some, Option.map_some, Function.comp_apply, Listing.without_put]
      exact ne
  rw [hwithout left agree.consistent.1, hwithout right agree.consistent.2, agree.modules, agree.root]

/-- A module is taken out of both catalogs or of neither, and the same is left besides the module in question. -/
theorem erase? :
    (left.catalog.erase? path).map (fun taken => Listing.without taken.2.modules file) =
      (right.catalog.erase? path).map (fun taken => Listing.without taken.2.modules file) := by
  have hwithout : ∀ catalog : Catalog, catalog.Consistent →
      (catalog.erase? path).map (fun taken => Listing.without taken.2.modules file) =
        (Listing.take? (Listing.without catalog.modules file) path).map Prod.snd := by
    intro catalog consistent
    rw [← Listing.without_take? ne, ← Catalog.erase?_map consistent, Option.map_map, Option.map_map]
    rfl
  rw [hwithout _ agree.consistent.1, hwithout _ agree.consistent.2, agree.modules]

end

/-- Both sessions take in a catalog. -/
theorem withCatalogs (agree : AgreeBesides file left right) {first second : Catalog}
    (modules : Listing.without first.modules file = Listing.without second.modules file)
    (consistent : first.Consistent ∧ second.Consistent) :
    AgreeBesides file { left with catalog := first } { right with catalog := second } :=
  ⟨agree.root, agree.timing, modules, agree.pending, consistent⟩

end AgreeBesides

/-- Reading a file changes nothing but the module and the mark of that file. -/
theorem FileDrained.agree {world : Surroundings} {file path : Path} {before after : Session}
    (drained : FileDrained world path before after) (same : path.components = file.components)
    (consistent : before.catalog.Consistent) : AgreeBesides file before after := by
  have hafter := drained.consistent consistent
  have hsettled : AgreeBesides file before (before.settled path) :=
    ⟨rfl, rfl, rfl, (Pending.erase_same same).symm, consistent, consistent⟩
  cases drained with
  | @parsed text functions catalog reading accepted taken =>
    have hmodules : Listing.without before.catalog.modules file = Listing.without catalog.modules file := by
      have hmap : some catalog.modules = _ :=
        taken ▸ catalogWith?_map (show (before.settled path).catalog.Consistent from consistent) path functions text
      rcases Option.or_eq_some_iff.mp hmap.symm with hrefilled | ⟨-, hput⟩
      · unfold Listing.refill? at hrefilled
        obtain ⟨-, hchanged⟩ := Option.ite_none_right_eq_some.mp hrefilled
        rw [← Option.some.inj hchanged]
        symm
        apply Listing.without_change_same same
        intro entry hentry
        exact hentry
      · obtain ⟨fresh, hfresh, hput⟩ := Option.map_eq_some_iff.mp hput
        obtain ⟨names, -, rfl⟩ := Option.map_eq_some_iff.mp hfresh
        rw [← hput]
        exact (Listing.without_put_same same).symm
    exact hsettled.withCatalogs hmodules ⟨consistent, hafter⟩
  | vanished reading verdict taken =>
    refine hsettled.withCatalogs ?_ ⟨consistent, hafter⟩
    rw [Catalog.erase?_modules consistent taken]
    exact (Listing.without_same same).symm
  | retried => exact ⟨rfl, rfl, rfl, (Pending.erase_countFailure_same same).symm, consistent, consistent⟩
  | _ => exact hsettled

section

variable {file path : Path} {left right : Draining}

/-- Taking in the content of another file keeps the agreement, and has the same effects in both sessions. -/
theorem absorb_agree (agree : AgreeBesides file left.session right.session)
    (ne : path.components ≠ file.components) (content : String) :
    AgreeBesides file (absorb left path content).value.session (absorb right path content).value.session
      ∧ (absorb left path content).effects = (absorb right path content).effects := by
  unfold absorb
  rw [agree.hasDigest ne]
  split
  · exact ⟨agree, rfl⟩
  · cases functionsOf path content with
    | error failure => exact ⟨agree, rfl⟩
    | ok functions =>
      have hwith := agree.catalogWith? ne functions content
      cases hleft : left.session.catalogWith? path functions content with
      | none =>
        rw [hleft, Option.map_none] at hwith
        simp only [hleft, Option.map_eq_none_iff.mp hwith.symm]
        exact ⟨agree, rfl⟩
      | some first =>
        rw [hleft, Option.map_some] at hwith
        obtain ⟨second, hright, hmodules⟩ := Option.map_eq_some_iff.mp hwith.symm
        simp only [hleft, hright]
        exact ⟨agree.withCatalogs hmodules.symm
          ⟨catalogWith?_consistent agree.consistent.1 hleft, catalogWith?_consistent agree.consistent.2 hright⟩, rfl⟩

/-- Forgetting another file keeps the agreement. -/
theorem forget_agree (agree : AgreeBesides file left.session right.session)
    (ne : path.components ≠ file.components) :
    AgreeBesides file (forget left path).session (forget right path).session := by
  have herase := agree.erase? ne
  unfold forget
  cases hleft : left.session.catalog.erase? path with
  | none =>
    rw [hleft, Option.map_none] at herase
    rw [Option.map_eq_none_iff.mp herase.symm]
    exact agree
  | some first =>
    rw [hleft, Option.map_some] at herase
    obtain ⟨second, hright, hmodules⟩ := Option.map_eq_some_iff.mp herase.symm
    rw [hright]
    exact agree.withCatalogs hmodules.symm
      ⟨Catalog.erase?_consistent agree.consistent.1 hleft, Catalog.erase?_consistent agree.consistent.2 hright⟩

/-- Putting off another file keeps the agreement, and has the same effects in both sessions. -/
theorem postpone_agree (agree : AgreeBesides file left.session right.session)
    (ne : path.components ≠ file.components) :
    AgreeBesides file (postpone left path).value.session (postpone right path).value.session
      ∧ (postpone left path).effects = (postpone right path).effects := by
  have hcounted : AgreeBesides file
      { left.session with pending := left.session.pending.countFailure path }
      { right.session with pending := right.session.pending.countFailure path } := agree.counted
  have hfailures : (left.session.pending.countFailure path).failures? path =
      (right.session.pending.countFailure path).failures? path := hcounted.failures? ne
  have hpatience : ∀ attempts, left.session.timing.exhausted attempts = right.session.timing.exhausted attempts := by
    intro attempts
    rw [agree.timing]
  unfold postpone
  dsimp only
  rw [hfailures, hpatience]
  split
  · exact ⟨agree.settled, rfl⟩
  · exact ⟨hcounted, rfl⟩

/-- Reading another file does the same in both runs. -/
theorem drainFile_agree {world other : Surroundings} (agree : AgreeBesides file left.session right.session)
    (ne : path.components ≠ file.components) (reading : world.read path = other.read path) :
    AgreeBesides file (drainFile world left path).value.session (drainFile other right path).value.session
      ∧ (drainFile world left path).effects = (drainFile other right path).effects := by
  have hsettled : AgreeBesides file (settle left path).session (settle right path).session := agree.settled
  unfold drainFile
  simp only [Turn.value_bind, Turn.effects_bind, ← reading, List.append_cancel_left_eq]
  cases (world.read path).result with
  | ok content => exact absorb_agree hsettled ne content
  | error fault =>
    cases hverdict : fault.verdict with
    | missing =>
      simp only [hverdict]
      exact ⟨forget_agree hsettled ne, rfl⟩
    | undecodable =>
      simp only [hverdict]
      exact ⟨hsettled, rfl⟩
    | transient =>
      simp only [hverdict]
      exact postpone_agree agree ne

/-- What is told of the reading of a file are failures of that file. -/
theorem drainFile_tells (world : Surroundings) (draining : Draining) (same : path.components = file.components) :
    Effect.failuresBesides file (drainFile world draining path).effects = [] := by
  have hreport : ∀ failure : Failure, failure.file? = some path →
      Effect.failuresBesides file (Turn.report failure).effects = [] := by
    intro failure hfile
    rw [Turn.report_besides, if_neg]
    simp [Failure.isBesides, hfile, Path.same_iff.mpr same]
  have hread : ∀ effects : List Effect, Effect.failuresBesides file effects = [] →
      Effect.failuresBesides file (.read path (world.read path) :: effects) = [] := fun _ h => h
  unfold drainFile
  rw [Turn.effects_bind]
  apply hread
  cases (world.read path).result with
  | ok content =>
    unfold absorb
    dsimp only
    split
    · rfl
    · rcases Scan.functionsOf_cases path content with ⟨functions, haccepted⟩ | ⟨line, fault, hrefused⟩
      · rw [haccepted]
        dsimp only
        split <;> rfl
      · rw [hrefused]
        simpa using hreport (.grammar path line fault) rfl
  | error fault =>
    cases hverdict : fault.verdict with
    | missing =>
      simp only [hverdict]
      rfl
    | undecodable =>
      simp only [hverdict]
      simpa using hreport (.unreadable path fault) rfl
    | transient =>
      simp only [hverdict, postpone]
      split
      · simpa using hreport (.retriesExhausted path _) rfl
      · rfl

/-- Two runs over the same files agree besides the one that they may read differently. -/
theorem foldlM_drainFile_agree {world other : Surroundings} (alike : world.AlikeBesides file other)
    (files : List Path) (left right : Draining) (agree : AgreeBesides file left.session right.session) :
    AgreeBesides file (files.foldlM (drainFile world) left).value.session
        (files.foldlM (drainFile other) right).value.session
      ∧ Effect.failuresBesides file (files.foldlM (drainFile world) left).effects =
          Effect.failuresBesides file (files.foldlM (drainFile other) right).effects := by
  induction files generalizing left right with
  | nil => exact ⟨agree, rfl⟩
  | cons path rest ih =>
    have hstep : AgreeBesides file (drainFile world left path).value.session
          (drainFile other right path).value.session
        ∧ Effect.failuresBesides file (drainFile world left path).effects =
            Effect.failuresBesides file (drainFile other right path).effects := by
      by_cases hpath : path.components = file.components
      · have hleft := (drainFile_drained world left path).agree hpath agree.consistent.1
        have hright := (drainFile_drained other right path).agree hpath agree.consistent.2
        refine ⟨hleft.symm.trans (agree.trans hright), ?_⟩
        rw [drainFile_tells world left hpath, drainFile_tells other right hpath]
      · obtain ⟨hagree, heffects⟩ := drainFile_agree agree hpath (alike.read path hpath)
        exact ⟨hagree, by rw [heffects]⟩
    obtain ⟨hrest, htold⟩ := ih _ _ hstep.1
    simp only [List.foldlM_cons, Turn.value_bind, Turn.effects_bind, Effect.failuresBesides_append]
    exact ⟨hrest, by rw [hstep.2, htold]⟩

end

/-- A drain comes to the same besides one file, however that file is read. -/
theorem drain_besides {world other : Surroundings} {file : Path} {session : Session}
    (alike : world.AlikeBesides file other) (now : Nat) (consistent : session.catalog.Consistent) :
    (session.drain world now).besides file = (session.drain other now).besides file := by
  obtain ⟨first, hfirst, hdrain⟩ := drain_eq world now session
  obtain ⟨second, hsecond, hother⟩ := drain_eq other now session
  have hbegun : AgreeBesides file { session with drainDue := none } { session with drainDue := none } :=
    .refl consistent
  obtain ⟨hagree, htold⟩ := foldlM_drainFile_agree alike session.pending.paths
    ⟨{ session with drainDue := none }, false⟩ ⟨{ session with drainDue := none }, false⟩ hbegun
  rw [← hfirst, ← hsecond] at hagree htold
  have hpublished : ∀ draining : Draining,
      Effect.failuresBesides file (if draining.changed then Effect.publication draining.session.catalog else [])
        = [] := by
    intro draining
    split <;> rfl
  rw [hdrain, hother]
  unfold Turn.besides
  simp only [scheduleRetry_catalog, scheduleRetry_pending, Effect.failuresBesides_append, hpublished,
    Catalog.erased_modules hagree.consistent.1, Catalog.erased_modules hagree.consistent.2, hagree.modules,
    hagree.pending, htold]

/-! ## Scanning the root -/

end Session

namespace Scan

variable {world other : Surroundings} {file : Path}

/-- What a file is loaded as depends on its own reading only. -/
theorem loadModule_congr {path : Path} (reading : world.read path = other.read path) (root : Path) :
    loadModule world root path = loadModule other root path := by
  unfold loadModule
  rw [reading]

/-- A failure in a scan is that of the file it comes from. -/
theorem failureOf?_file {root path : Path} {failure : Failure} (h : failureOf? world root path = some failure) :
    failure.file? = some path := by
  have hloaded := loadModule_loaded world root path
  unfold failureOf? at h
  cases hresult : (loadModule world root path).result with
  | ok entry =>
    rw [hresult] at h
    cases h
  | error failed =>
    rw [hresult] at h hloaded
    rw [← Option.some.inj h]
    cases hloaded <;> rfl

/-- What a scan makes of other files does not depend on the reading of one file. -/
theorem moduleOf?_besides (alike : world.AlikeBesides file other) (root : Path) (previous : Catalog) (path : Path) :
    (moduleOf? world root previous path).filter (fun entry => !entry.file.same file) =
      (moduleOf? other root previous path).filter fun entry => !entry.file.same file := by
  by_cases hpath : path.components = file.components
  · have hnone : ∀ surroundings : Surroundings,
        (moduleOf? surroundings root previous path).filter (fun entry => !entry.file.same file) = none := by
      intro surroundings
      rw [Option.filter_eq_none_iff]
      intro entry hentry
      rw [(moduleOf?_cases hentry).1, Path.same_iff.mpr hpath]
      exact Bool.false_ne_true
    rw [hnone world, hnone other]
  · unfold moduleOf?
    rw [loadModule_congr (alike.read path hpath)]

/-- How a scan fails on other files does not depend on the reading of one file. -/
theorem failureOf?_besides (alike : world.AlikeBesides file other) (root path : Path) :
    (failureOf? world root path).filter (Failure.isBesides file) =
      (failureOf? other root path).filter (Failure.isBesides file) := by
  by_cases hpath : path.components = file.components
  · have hnone : ∀ surroundings : Surroundings,
        (failureOf? surroundings root path).filter (Failure.isBesides file) = none := by
      intro surroundings
      rw [Option.filter_eq_none_iff]
      intro failure hfailure
      unfold Failure.isBesides
      rw [failureOf?_file hfailure, Option.any_some, Path.same_iff.mpr hpath]
      exact Bool.false_ne_true
    rw [hnone world, hnone other]
  · unfold failureOf?
    rw [loadModule_congr (alike.read path hpath)]

/-- Two scans of a root agree besides the file that they may read differently. -/
theorem directory_besides (alike : world.AlikeBesides file other) (root : Path) (previous : Catalog) :
    (directory world root previous).map (ScanReport.besides file) =
      (directory other root previous).map (ScanReport.besides file) := by
  have hdirectory : other.isDirectory root = world.isDirectory root := by rw [alike.rest]
  have hwalk : other.walk root = world.walk root := by rw [alike.rest]
  have hlisted : listed other root = listed world root := by
    unfold listed
    rw [hwalk]
  cases hroot : world.isDirectory root with
  | false =>
    unfold directory findFiles
    rw [hdirectory, hroot]
    rfl
  | true =>
    obtain ⟨first, hfirst, hcatalog, hfailures⟩ := directory_eq_ok world root previous hroot
    obtain ⟨second, hsecond, hcatalog', hfailures'⟩ := directory_eq_ok other root previous (hdirectory.trans hroot)
    have hmodules : (first.catalog.erased file).modules = (second.catalog.erased file).modules := by
      rw [hcatalog, hcatalog', Catalog.ofList_erased_modules, Catalog.ofList_erased_modules, hlisted]
      unfold Listing.without
      rw [List.filter_filterMap, List.filter_filterMap]
      congr 2
      funext path
      exact moduleOf?_besides alike root previous path
    have hleft : first.failures.filter (Failure.isBesides file) =
        second.failures.filter (Failure.isBesides file) := by
      rw [hfailures, hfailures', hwalk, hlisted, List.filter_append, List.filter_append, List.filter_filterMap,
        List.filter_filterMap]
      congr 2
      funext path
      exact failureOf?_besides alike root path
    rw [hfirst, hsecond]
    change Except.ok _ = Except.ok _
    unfold ScanReport.besides
    rw [hmodules, hleft]

end Scan

namespace Session

/-- The marks that a scan leaves, without that of a file, are those that the other failures leave. -/
theorem pendingAfter_erase (failures : List Failure) (file : Path) :
    (pendingAfter failures).erase file = pendingAfter (failures.filter (Failure.isBesides file)) := by
  have htransient : ∀ failure : Failure, failure.transientFile?.filter (fun path => !path.same file) =
      if failure.isBesides file then failure.transientFile? else none := by
    intro failure
    cases htransient : failure.transientFile? with
    | none => split <;> rfl
    | some path =>
      obtain ⟨fault, rfl, -⟩ := Failure.transientFile?_eq_some_iff.mp htransient
      unfold Failure.isBesides Failure.file?
      cases hsame : path.same file <;> simp [hsame]
  have hempty : Pending.empty.Rising := .empty
  unfold pendingAfter
  rw [Pending.erase_foldl_insert hempty, List.filter_filterMap, List.filterMap_filter]
  congr 2
  funext failure
  exact htransient failure

/-- The failures of other files are reported alike, whether or not one file is left out first. -/
theorem reportedOf_filter (failures : List Failure) (file : Path) :
    (reportedOf failures).filter (Failure.isBesides file) =
      reportedOf (failures.filter (Failure.isBesides file)) := by
  unfold reportedOf
  rw [List.filter_comm]

/-- Two rebuilds agree besides the file that they may read differently. -/
theorem rebuild_besides {world other : Surroundings} {file : Path} (alike : world.AlikeBesides file other)
    (now : Nat) (session : Session) :
    (Prod.fst <$> session.rebuild world now).besides file = (Prod.fst <$> session.rebuild other now).besides file
      ∧ (session.rebuild world now).value.2.map (fun report => report.failures.filter (Failure.isBesides file)) =
          (session.rebuild other now).value.2.map fun report =>
            report.failures.filter (Failure.isBesides file) := by
  have hscans := Scan.directory_besides alike session.root session.catalog
  cases hfirst : Scan.directory world session.root session.catalog with
  | error failure =>
    cases hsecond : Scan.directory other session.root session.catalog with
    | ok second =>
      rw [hfirst, hsecond] at hscans
      cases hscans
    | error failure' =>
      rw [hfirst, hsecond] at hscans
      obtain rfl := Except.error.inj hscans
      have hsame : session.rebuild world now = session.rebuild other now := by
        unfold rebuild
        simp only [hfirst, hsecond]
      rw [hsame]
      exact ⟨rfl, rfl⟩
  | ok first =>
    cases hsecond : Scan.directory other session.root session.catalog with
    | error failure =>
      rw [hfirst, hsecond] at hscans
      cases hscans
    | ok second =>
      rw [hfirst, hsecond] at hscans
      obtain ⟨hmodules, hfailures⟩ := Prod.mk.inj (Except.ok.inj hscans)
      rw [rebuild_eq_of_ok now hfirst, rebuild_eq_of_ok now hsecond]
      constructor
      · unfold Turn.besides
        simp only [Turn.value_map, Turn.effects_map, scheduleRetry_catalog, scheduleRetry_pending,
          Effect.failuresBesides_append, Effect.failuresBesides_readings, Effect.failuresBesides_publication,
          Turn.forM_report_besides, reportedOf_filter, pendingAfter_erase, hmodules, hfailures]
      · exact congrArg Except.ok hfailures

/-- One file that breaks the grammar, is locked or is gone adds, drops, moves or changes nothing of the others: what a
drain, a scan or a rebuild comes to is the same whatever reading the file gives, if the file is left out. -/
theorem failures_isolated {world other : Surroundings} {file : Path} (alike : world.AlikeBesides file other)
    (session : Session) (consistent : session.catalog.Consistent) (now : Nat) :
    (session.drain world now).besides file = (session.drain other now).besides file
      ∧ (∀ (root : Path) (previous : Catalog),
          (Scan.directory world root previous).map (ScanReport.besides file) =
            (Scan.directory other root previous).map (ScanReport.besides file))
      ∧ (Prod.fst <$> session.rebuild world now).besides file = (Prod.fst <$> session.rebuild other now).besides file
      ∧ (session.rebuild world now).value.2.map (fun report => report.failures.filter (Failure.isBesides file)) =
          (session.rebuild other now).value.2.map fun report =>
            report.failures.filter (Failure.isBesides file) :=
  ⟨drain_besides alike now consistent, Scan.directory_besides alike, rebuild_besides alike now session⟩

/-- A file that is locked for the third time, between two that can be read. -/
theorem failures_isolated_locked :
    let file : Path := ⟨"/w/b.d.ts"⟩
    let world : Surroundings := {
      read := fun _ => .content "export declare function f(): void;"
      isDirectory := fun path => path.same ⟨"/w"⟩
      canonical := fun _ => none
      walk := fun _ => ([⟨"/w/a.d.ts"⟩, file, ⟨"/w/c.d.ts"⟩], [])
      watchFault := fun _ => none }
    let other : Surroundings :=
      { world with read := fun path => if path.same file then .failed ⟨.resourceBusy, "busy"⟩ else world.read path }
    let session : Session := { start world ⟨"/w"⟩ .default ⟨500, 1000, some 3⟩ with
      pending := ⟨[(⟨"/w/a.d.ts"⟩, 0), (file, 2), (⟨"/w/c.d.ts"⟩, 1)]⟩ }
    world.AlikeBesides file other ∧ session.catalog.Consistent
      ∧ (session.drain world 0).besides file = (session.drain other 0).besides file
      ∧ (session.drain world 0).value.catalog.modules.map Module.file = [⟨"/w/a.d.ts"⟩, file, ⟨"/w/c.d.ts"⟩]
      ∧ (session.drain other 0).value.catalog.modules.map Module.file = [⟨"/w/a.d.ts"⟩, ⟨"/w/c.d.ts"⟩] := by
  intro file world other session
  have alike : world.AlikeBesides file other := by
    refine ⟨?_, rfl⟩
    intro path hpath
    have hother : path.same file = false := by
      rw [← Bool.not_eq_true, Path.same_iff]
      exact hpath
    simp [other, hother]
  have consistent : session.catalog.Consistent := Catalog.empty_consistent
  obtain ⟨hdrain, -⟩ := failures_isolated alike session consistent 0
  exact ⟨alike, consistent, hdrain, by decide +kernel, by decide +kernel⟩

end Session

end TypingsIndex
