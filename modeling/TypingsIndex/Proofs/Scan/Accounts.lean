import TypingsIndex.Proofs.Scan.Listed

/-!
# What a scan accounts for

Every listed file is accounted for once: it gives a module, or it fails, and then the module that an earlier catalog
has for it is kept under the names that it has below the root of the scan (`Account`). A rebuild takes this over: a
failure that may pass leaves its file pending, every other failure is told, and the report counts the modules that
are published (`Takes`). None of this depends on the order in which the walk finds the files.
-/

set_option autoImplicit false

namespace TypingsIndex

/-- What a file comes to by itself: the functions that its text declares, with the digest of the text, or the failure
to read the file or to understand it. -/
def Reading.outcome (file : Path) (reading : Reading) : Except Failure (List Signature × Digest) :=
  match reading.result with
  | .error fault => .error (.unreadable file fault)
  | .ok text =>
    match Signature.parseText text with
    | .error (line, fault) => .error (.grammar file line fault)
    | .ok functions => .ok (functions, Digest.ofText text)

/-- A file is to blame for its failure. -/
theorem Reading.outcome_file {file : Path} {reading : Reading} {failure : Failure}
    (h : reading.outcome file = .error failure) : failure.file? = some file := by
  unfold outcome at h
  split at h
  · cases h
    rfl
  · split at h <;> cases h
    rfl

/-- The event that tells of a failure: as that of its file if there is one to blame. -/
def Failure.event (failure : Failure) : Event :=
  match failure.file? with
  | some file => .moduleFailed file.text failure.message
  | none => .fault failure.message

/-- A failure is reported by its event. -/
theorem Turn.report_effects (failure : Failure) : (Turn.report failure).effects = [.emit failure.event] := by
  unfold Turn.report Failure.event
  cases failure.file? <;> rfl

/-- Several failures are reported one after the other. -/
theorem Turn.forM_report_effects (failures : List Failure) :
    (failures.forM Turn.report).effects = failures.map fun failure => .emit failure.event := by
  induction failures with
  | nil => rfl
  | cons failure rest ih =>
    change (Turn.report failure).effects ++ (rest.forM Turn.report).effects = _
    rw [ih, Turn.report_effects]
    rfl

/-- What is told of failures that are reported one after the other are their events, in order. -/
theorem Turn.forM_report_events (failures : List Failure) :
    (failures.forM Turn.report).effects.filterMap Effect.event? = failures.map Failure.event := by
  rw [Turn.forM_report_effects, List.filterMap_map]
  exact congrFun List.filterMap_eq_map failures

namespace Scan

/-- The account of a scan: the catalog that it gives, and the failures of the listed files, each with its file. -/
structure Account (world : Surroundings) (root : Path) (previous catalog : Catalog)
    (failed : List (Path × Failure)) : Prop where
  consistent : catalog.isConsistent = true
  rising : catalog.modules.Pairwise fun a b => Path.compare a.file b.file = .lt
  fresh : ∀ file ∈ listed world root, ∀ functions digest, (world.read file).outcome file = .ok (functions, digest) →
    ∃ names, ModuleNames.ofFile? file root = some names
      ∧ ⟨file, names, functions, some digest⟩ ∈ catalog.modules
  kept : ∀ file ∈ listed world root, ∀ failure old, (world.read file).outcome file = .error failure →
    previous.find? file = some old →
    ∃ names, ModuleNames.ofFile? file root = some names
      ∧ ⟨file, names, old.functions, old.digest⟩ ∈ catalog.modules
  only : ∀ entry ∈ catalog.modules, entry.file ∈ listed world root
    ∧ ((∃ digest, (world.read entry.file).outcome entry.file = .ok (entry.functions, digest)
        ∧ entry.digest = some digest)
      ∨ ∃ failure old, (world.read entry.file).outcome entry.file = .error failure
        ∧ previous.find? entry.file = some old ∧ entry.functions = old.functions ∧ entry.digest = old.digest)
  failures_rising : failed.Pairwise fun a b => Path.compare a.1 b.1 = .lt
  failures : ∀ file failure,
    (file, failure) ∈ failed ↔ file ∈ listed world root ∧ (world.read file).outcome file = .error failure
  blamed : ∀ entry ∈ failed, entry.2.file? = some entry.1

/-- What a rebuild takes over from a scan that has made a catalog and met failures. -/
structure Takes (now : Nat) (before : Session) (made : Catalog) (failures : List Failure)
    (turn : Turn (Session × Except Failure RebuildReport)) : Prop where
  catalog : turn.value.1.catalog = made
  published : ∀ published : Published, (published.after turn.effects).catalog = made
  report : turn.value.2 = .ok ⟨made.modules.length, failures⟩
  /-- Exactly the files whose read has failed in a way that may pass are pending, none of them with a failed try. -/
  pending : turn.value.1.pending.entries = (failures.filterMap Failure.transientFile?).map fun file => (file, 0)
  drainDue : turn.value.1.drainDue =
    if turn.value.1.pending.isEmpty then none else some (now + before.timing.retry)
  /-- Every other failure is told once, and then the catalog. -/
  events : turn.effects.filterMap Effect.event? =
    (failures.filter fun failure => failure.transientFile?.isNone).map Failure.event ++ [.catalogChanged made]

section

variable {world : Surroundings} {root file : Path} {names : ModuleNames}
  (named : ModuleNames.ofFile? file root = some names)

include named

/-- An attempt to make a module of a file that can have one gives what the file comes to by itself. -/
theorem loadModule_outcome :
    (loadModule world root file).result =
      ((world.read file).outcome file).map fun made => ⟨file, names, made.1, some made.2⟩ := by
  have hempty : Module.empty? file root = some ⟨file, names, [], none⟩ := by
    unfold Module.empty?
    rw [named, Option.map_some]
  unfold loadModule Reading.outcome functionsOf
  rw [hempty]
  cases hread : (world.read file).result with
  | error fault =>
    simp only [hread]
    rfl
  | ok text =>
    cases hparsed : Signature.parseText text <;>
      simp only [hread, hparsed] <;> rfl

/-- The failure of a file in a scan is its own. -/
theorem failureOf?_eq_some_iff {failure : Failure} :
    failureOf? world root file = some failure ↔ (world.read file).outcome file = .error failure := by
  unfold failureOf?
  rw [loadModule_outcome named]
  cases (world.read file).outcome file <;> simp [Except.map]

/-- The module of a file after a scan is made of its outcome, or else of the module that an earlier catalog has for
the file. -/
theorem moduleOf?_eq_some_iff {previous : Catalog} {entry : Module} :
    moduleOf? world root previous file = some entry ↔
      (∃ functions digest, (world.read file).outcome file = .ok (functions, digest)
          ∧ entry = ⟨file, names, functions, some digest⟩)
        ∨ ∃ failure old, (world.read file).outcome file = .error failure
          ∧ previous.find? file = some old ∧ entry = ⟨file, names, old.functions, old.digest⟩ := by
  unfold moduleOf? keptModule?
  rw [loadModule_outcome named]
  cases (world.read file).outcome file with
  | ok made =>
    obtain ⟨functions, digest⟩ := made
    simp only [Except.map, Option.some.injEq, Except.ok.injEq, Prod.mk.injEq, reduceCtorEq, false_and, exists_false,
      or_false]
    constructor
    · rintro rfl
      exact ⟨functions, digest, ⟨rfl, rfl⟩, rfl⟩
    · rintro ⟨_, _, ⟨rfl, rfl⟩, rfl⟩
      rfl
  | error failure =>
    simp only [Except.map, Module.relocate?, named, Option.map_some, Option.bind_eq_some_iff, Option.some.injEq,
      Except.error.injEq, reduceCtorEq, false_and, exists_false, false_or]
    constructor
    · rintro ⟨old, hold, rfl⟩
      exact ⟨failure, old, rfl, hold, rfl⟩
    · rintro ⟨_, old, rfl, hold, rfl⟩
      exact ⟨old, hold, rfl⟩

end

section

variable {world : Surroundings} {root : Path} (walks : world.WalksOnce root)

include walks

/-- The failures of the listed files are accounted for with their files. -/
theorem exists_failed :
    ∃ failed : List (Path × Failure),
      (inOrder (listed world root)).filterMap (failureOf? world root) = failed.map Prod.snd
        ∧ failed.Pairwise (fun a b => Path.compare a.1 b.1 = .lt)
        ∧ ∀ file failure, (file, failure) ∈ failed ↔
          file ∈ listed world root ∧ (world.read file).outcome file = .error failure := by
  refine ⟨(inOrder (listed world root)).filterMap fun file => (failureOf? world root file).map (file, ·), ?_, ?_, ?_⟩
  · rw [List.map_filterMap]
    simp [Function.comp_def]
  · refine List.pairwise_filterMap.mpr ((inOrder_rising (listed_once walks)).imp ?_)
    intro a b hlt first hfirst second hsecond
    obtain ⟨_, -, rfl⟩ := Option.map_eq_some_iff.mp hfirst
    obtain ⟨_, -, rfl⟩ := Option.map_eq_some_iff.mp hsecond
    exact hlt
  · intro file failure
    rw [List.mem_filterMap]
    constructor
    · rintro ⟨other, hother, hfailed⟩
      obtain ⟨found, hfound, heq⟩ := Option.map_eq_some_iff.mp hfailed
      obtain ⟨rfl, rfl⟩ := Prod.mk.inj heq
      obtain ⟨names, hnamed⟩ := exists_ofFile? walks (mem_inOrder.mp hother)
      exact ⟨mem_inOrder.mp hother, (failureOf?_eq_some_iff hnamed).mp hfound⟩
    · rintro ⟨hfile, houtcome⟩
      obtain ⟨names, hnamed⟩ := exists_ofFile? walks hfile
      refine ⟨file, mem_inOrder.mpr hfile, ?_⟩
      rw [(failureOf?_eq_some_iff hnamed).mpr houtcome, Option.map_some]

/-- A scan of an existing root has an account. -/
theorem exists_account (h : world.isDirectory root = true) (previous : Catalog) :
    ∃ catalog failed, Account world root previous catalog failed
      ∧ directory world root previous = .ok ⟨catalog,
        (world.walk root).2.map Failure.walk ++ failed.map Prod.snd,
        (inOrder (listed world root)).map fun file => (file, world.read file)⟩ := by
  obtain ⟨scan, hscan, -, hfailures⟩ := directory_eq_ok world root previous h
  obtain ⟨failed, hfailed, hrising, hmem⟩ := exists_failed walks
  have hreadings := readings_of_ok world root previous h hscan
  -- A listed file lies below the root, so that none of them is passed over.
  have hall : (inOrder (listed world root)).filter (reads root) = inOrder (listed world root) := by
    refine List.filter_eq_self.mpr fun file hfile => ?_
    obtain ⟨fresh, hfresh⟩ := exists_empty? walks (mem_inOrder.mp hfile)
    unfold reads
    rw [hfresh, Option.isSome_some]
  rw [hall] at hreadings
  rw [hfailed] at hfailures
  -- The parts of the account about modules are the two directions of one fact about the entries, by the outcome of
  -- the reading.
  refine ⟨scan.catalog, failed, ?_, ?_⟩
  · have hcatalog : ∀ entry, entry ∈ scan.catalog.modules ↔ ∃ file ∈ listed world root, ∃ names,
        ModuleNames.ofFile? file root = some names
          ∧ ((∃ functions digest, (world.read file).outcome file = .ok (functions, digest)
              ∧ entry = ⟨file, names, functions, some digest⟩)
            ∨ ∃ failure old, (world.read file).outcome file = .error failure
              ∧ previous.find? file = some old ∧ entry = ⟨file, names, old.functions, old.digest⟩) := by
      intro entry
      rw [mem_scanned_iff walks h hscan]
      constructor
      · rintro ⟨file, hfile, hmodule⟩
        obtain ⟨names, hnamed⟩ := exists_ofFile? walks hfile
        exact ⟨file, hfile, names, hnamed, (moduleOf?_eq_some_iff hnamed).mp hmodule⟩
      · rintro ⟨file, hfile, names, hnamed, hmade⟩
        exact ⟨file, hfile, (moduleOf?_eq_some_iff hnamed).mpr hmade⟩
    constructor
    · exact (Session.scanned_consistent h hscan).isConsistent
    · rw [scanned_modules walks h hscan]
      exact modules_rising walks previous
    · intro file hfile functions digest houtcome
      obtain ⟨names, hnamed⟩ := exists_ofFile? walks hfile
      exact ⟨names, hnamed, (hcatalog _).mpr ⟨file, hfile, names, hnamed, .inl ⟨functions, digest, houtcome, rfl⟩⟩⟩
    · intro file hfile failure old houtcome hold
      obtain ⟨names, hnamed⟩ := exists_ofFile? walks hfile
      exact ⟨names, hnamed, (hcatalog _).mpr ⟨file, hfile, names, hnamed, .inr ⟨failure, old, houtcome, hold, rfl⟩⟩⟩
    · intro entry hentry
      obtain ⟨file, hfile, names, -, hmade⟩ := (hcatalog entry).mp hentry
      rcases hmade with ⟨functions, digest, houtcome, rfl⟩ | ⟨failure, old, houtcome, hold, rfl⟩
      · exact ⟨hfile, .inl ⟨digest, houtcome, rfl⟩⟩
      · exact ⟨hfile, .inr ⟨failure, old, houtcome, hold, rfl, rfl⟩⟩
    · exact hrising
    · exact hmem
    · rintro ⟨file, failure⟩ hentry
      exact Reading.outcome_file ((hmem file failure).mp hentry).2
  · rw [hscan, ← hfailures, ← hreadings]

/-- A scan does not depend on the order in which the walk finds the files. -/
theorem directory_perm {other : Surroundings} (h : world.isDirectory root = true) (read : other.read = world.read)
    (root_exists : other.isDirectory root = true) (perm : (other.walk root).1.Perm (world.walk root).1)
    (previous : Catalog) {catalog : Catalog} {failures : List Failure} {readings : List (Path × Reading)}
    (report : directory world root previous =
      .ok ⟨catalog, (world.walk root).2.map Failure.walk ++ failures, readings⟩) :
    directory other root previous = .ok ⟨catalog, (other.walk root).2.map Failure.walk ++ failures, readings⟩ := by
  have hload : ∀ file, loadModule other root file = loadModule world root file := fun file =>
    loadModule_congr (congrFun read file) root
  have hfiles := inOrder_listed walks perm
  unfold directory findFiles at report ⊢
  rw [if_pos h] at report
  rw [if_pos root_exists]
  unfold listed at hfiles
  simp only [bind, Except.bind, pure, Except.pure, Except.ok.injEq, ScanReport.mk.injEq, hfiles, hload,
    List.append_cancel_left_eq] at report ⊢
  exact report

end

/-- A rebuild takes over what a scan has made and met. -/
theorem rebuild_takes {world : Surroundings} {session : Session} (now : Nat) {scan : ScanReport}
    (walks : world.WalksOnce session.root)
    (report : directory world session.root session.catalog = .ok scan) :
    Takes now session scan.catalog scan.failures (session.rebuild world now) := by
  have hpending := pendingAfter_scanned walks (isDirectory_of_ok report) report
  have hreads : (scan.readings.map fun entry => Effect.read entry.1 entry.2).filterMap Effect.event? = [] := by
    rw [List.filterMap_map]
    exact List.filterMap_eq_nil_iff.mpr fun _ _ => rfl
  rw [Session.rebuild_eq_of_ok now report]
  constructor
  · exact Session.scheduleRetry_catalog _ now
  · intro published
    unfold Published.after
    rw [List.foldl_append]
    rfl
  · rfl
  · rw [Session.scheduleRetry_pending, hpending]
  · rw [Session.scheduleRetry_pending]
    unfold Session.scheduleRetry
    split <;> rfl
  · rw [List.filterMap_append, List.filterMap_append, hreads, List.nil_append, Turn.forM_report_events]
    rfl

end Scan

/-- For whatever earlier catalog, and however its files read: a scan of an existing root gives one catalog and one list
of failing files, in the order of their paths, that account for every listed file, in whatever order the walk finds the
files; and a rebuild takes them over. -/
theorem scan_accounts_for_every_file {world : Surroundings} {root : Path} (exists_root : world.isDirectory root = true)
    (walks : world.WalksOnce root) (previous : Catalog) :
    ∃ catalog failed, Scan.Account world root previous catalog failed
      ∧ ∀ other : Surroundings, other.read = world.read → other.isDirectory root = true →
        (other.walk root).1.Perm (world.walk root).1 →
        let failures := (other.walk root).2.map Failure.walk ++ failed.map Prod.snd
        Scan.directory other root previous = .ok ⟨catalog, failures,
            (Scan.inOrder (Scan.listed world root)).map fun file => (file, world.read file)⟩
          ∧ ∀ (session : Session) (now : Nat), session.root = root → session.catalog = previous →
            Scan.Takes now session catalog failures (session.rebuild other now) := by
  obtain ⟨catalog, failed, haccount, hscan⟩ := Scan.exists_account walks exists_root previous
  refine ⟨catalog, failed, haccount, ?_⟩
  intro other hread hroot hperm failures
  have hother := Scan.directory_perm walks exists_root hread hroot hperm previous hscan
  refine ⟨hother, ?_⟩
  rintro session now rfl rfl
  exact Scan.rebuild_takes now (walks.of_perm hperm) hother

/-- A file that is locked when its root is scanned keeps its module under a shorter name, in whatever order the walk
finds it and another file. -/
theorem scan_accounts_for_two_orders :
    let read : Path → Reading := fun path =>
      if path = ⟨"/w/s/a.d.ts"⟩ then .content "export declare function f(): void;" else .failed ⟨.resourceBusy, "busy"⟩
    let around (files : List Path) : Surroundings :=
      ⟨read, fun _ => true, fun _ => none, fun _ => (files, []), fun _ => none⟩
    let first := around [⟨"/w/s/a.d.ts"⟩, ⟨"/w/s/b.d.ts"⟩]
    let second := around [⟨"/w/s/b.d.ts"⟩, ⟨"/w/s/a.d.ts"⟩]
    let root : Path := ⟨"/w/s"⟩
    let previous := Catalog.ofList [⟨⟨"/w/s/b.d.ts"⟩, ⟨"s/b.d.ts", "/s/b.js", "s_b"⟩, [], none⟩]
    first.isDirectory root = true ∧ first.WalksOnce root ∧ second.read = first.read
      ∧ second.isDirectory root = true ∧ (second.walk root).1.Perm (first.walk root).1
      ∧ ∃ catalog failed, Scan.Account first root previous catalog failed
        ∧ ∃ names, ModuleNames.ofFile? ⟨"/w/s/b.d.ts"⟩ root = some names
          ∧ ⟨⟨"/w/s/b.d.ts"⟩, names, [], none⟩ ∈ catalog.modules
          ∧ (Scan.directory second root previous).map ScanReport.catalog = .ok catalog := by
  intro read around first second root previous
  have exists_root : first.isDirectory root = true := rfl
  have walks : first.WalksOnce root := by
    constructor
    · intro path hpath
      rcases List.mem_pair.mp hpath with rfl | rfl
      · exact ⟨["a.d.ts"], by decide, by decide +kernel⟩
      · exact ⟨["b.d.ts"], by decide, by decide +kernel⟩
    · exact List.pairwise_pair.mpr (by decide +kernel)
  have hperm : (second.walk root).1.Perm (first.walk root).1 := List.Perm.swap _ _ _
  refine ⟨exists_root, walks, rfl, rfl, hperm, ?_⟩
  obtain ⟨catalog, failed, haccount, hall⟩ := scan_accounts_for_every_file exists_root walks previous
  obtain ⟨hscan, -⟩ := hall second rfl rfl hperm
  have hlisted : (⟨"/w/s/b.d.ts"⟩ : Path) ∈ Scan.listed first root := by decide +kernel
  have hlocked : (first.read ⟨"/w/s/b.d.ts"⟩).outcome ⟨"/w/s/b.d.ts"⟩ =
      .error (.unreadable ⟨"/w/s/b.d.ts"⟩ ⟨.resourceBusy, "busy"⟩) := by decide +kernel
  have hold : previous.find? ⟨"/w/s/b.d.ts"⟩ =
      some ⟨⟨"/w/s/b.d.ts"⟩, ⟨"s/b.d.ts", "/s/b.js", "s_b"⟩, [], none⟩ := by decide +kernel
  obtain ⟨names, hnamed, hkept⟩ := haccount.kept _ hlisted _ _ hlocked hold
  exact ⟨catalog, failed, haccount, names, hnamed, hkept, by rw [hscan]; rfl⟩

end TypingsIndex
