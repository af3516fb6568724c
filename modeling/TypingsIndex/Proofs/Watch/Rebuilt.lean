import TypingsIndex.Proofs.Catalog.Membership
import TypingsIndex.Proofs.Watch.Marks
import TypingsIndex.Watch.Rebuild

/-!
# What a scan of the root comes to

The modules after a scan of an existing root, and the files that the scan leaves to be read again, each told
by the one listed file that it comes from. The order in which a scan works does not matter here.
-/

set_option autoImplicit false

namespace TypingsIndex

/-- The failures that leave a file to be read again. -/
theorem Failure.transientFile?_eq_some_iff {failure : Failure} {file : Path} :
    failure.transientFile? = some file ↔
      ∃ fault, failure = .unreadable file fault ∧ fault.verdict = .transient := by
  unfold transientFile?
  split
  · next other fault =>
    rw [Option.ite_none_right_eq_some]
    constructor
    · rintro ⟨hverdict, heq⟩
      exact ⟨fault, by rw [Option.some.inj heq], hverdict⟩
    · rintro ⟨_, heq, hverdict⟩
      cases heq
      exact ⟨hverdict, rfl⟩
  · next hother =>
    constructor
    · intro h
      cases h
    · rintro ⟨fault, heq, -⟩
      exact absurd heq (hother _ _)

namespace Scan

variable (world : Surroundings) (root : Path) (previous : Catalog)

/-- The declaration files that a walk through the root lists. -/
def listed : List Path :=
  (world.walk root).1.filter Path.isDeclarationFile

/-- The module of a file after a scan of the root, if it has one. -/
def moduleOf? (file : Path) : Option Module :=
  keptModule? previous root file (loadModule world root file)

/-- The failure of a file in a scan of the root, if it failed. -/
def failureOf? (file : Path) : Option Failure :=
  match (loadModule world root file).result with
  | .ok _ => none
  | .error failure => some failure

/-- Putting paths in order adds and drops none. -/
theorem mem_inOrder {file : Path} {files : List Path} : file ∈ inOrder files ↔ file ∈ files := by
  unfold inOrder
  rw [List.mem_mergeSort]

/-- A scan of an existing root succeeds, file by file. -/
theorem directory_eq_ok (h : world.isDirectory root = true) :
    ∃ scan, directory world root previous = .ok scan
      ∧ scan.catalog = .ofList ((inOrder (listed world root)).filterMap (moduleOf? world root previous))
      ∧ scan.failures = (world.walk root).2.map Failure.walk
        ++ (inOrder (listed world root)).filterMap (failureOf? world root) := by
  unfold directory findFiles
  rw [if_pos h]
  refine ⟨_, rfl, ?_, ?_⟩
  · change Catalog.ofList (List.filterMap _ (List.map _ (inOrder (listed world root)))) = _
    rw [List.filterMap_map]
    rfl
  · change _ ++ List.filterMap _ (List.map _ (inOrder (listed world root))) = _
    rw [List.filterMap_map]
    rfl

/-- The catalog and the failures of a scan of an existing root. -/
theorem directory_of_ok {scan : ScanReport} (h : world.isDirectory root = true)
    (report : directory world root previous = .ok scan) :
    scan.catalog = .ofList ((inOrder (listed world root)).filterMap (moduleOf? world root previous))
      ∧ scan.failures = (world.walk root).2.map Failure.walk
        ++ (inOrder (listed world root)).filterMap (failureOf? world root) := by
  obtain ⟨_, heq, hscan⟩ := directory_eq_ok world root previous h
  obtain rfl := Except.ok.inj (report.symm.trans heq)
  exact hscan

/-- Whether a scan of the root comes to reading a file. -/
def reads (file : Path) : Bool :=
  (Module.empty? file root).isSome

/-- A scan reads the listed files that can have a module, in order. -/
theorem readings_of_ok {scan : ScanReport} (h : world.isDirectory root = true)
    (report : directory world root previous = .ok scan) :
    scan.readings = ((inOrder (listed world root)).filter (reads root)).map fun file =>
      (file, world.read file) := by
  unfold directory findFiles at report
  rw [if_pos h] at report
  obtain rfl := Except.ok.inj report
  change List.filterMap _ (List.map _ (inOrder (listed world root))) = _
  rw [List.filterMap_map, ← List.filterMap_eq_map', ← List.filterMap_eq_filter, List.filterMap_filterMap]
  refine List.filterMap_congr fun file _ => ?_
  cases named : Module.empty? file root <;> simp [loadModule, reads, named, Option.guard]

/-- A listed file that can have a module is among the readings of a scan. -/
theorem mem_readings_of_ok {scan : ScanReport} {file : Path} (h : world.isDirectory root = true)
    (report : directory world root previous = .ok scan) (hlisted : file ∈ listed world root)
    (hreads : reads root file = true) : (file, world.read file) ∈ scan.readings := by
  rw [readings_of_ok world root previous h report]
  exact List.mem_map_of_mem (List.mem_filter.mpr ⟨mem_inOrder.mpr hlisted, hreads⟩)

/-- The outcomes of an attempt to make a module of a file. -/
inductive FileLoaded (file : Path) : Except Failure Module → Prop where
  | foreign (unnamed : Module.empty? file root = none) :
      FileLoaded file (.error (.unreadable file .notADeclarationFile))
  | parsed {fresh : Module} {text : String} {functions : List Signature}
      (named : Module.empty? file root = some fresh) (reading : (world.read file).result = .ok text)
      (accepted : functionsOf file text = .ok functions) :
      FileLoaded file (.ok (fresh.withContent functions text))
  | malformed {fresh : Module} {text : String} {line : Nat} {fault : GrammarFault}
      (named : Module.empty? file root = some fresh) (reading : (world.read file).result = .ok text)
      (refused : functionsOf file text = .error (.grammar file line fault)) :
      FileLoaded file (.error (.grammar file line fault))
  | unreadable {fresh : Module} {fault : ReadFault} (named : Module.empty? file root = some fresh)
      (reading : (world.read file).result = .error fault) :
      FileLoaded file (.error (.unreadable file fault))

/-- The functions of a text can only fail on one of its lines. -/
theorem functionsOf_cases (file : Path) (text : String) :
    (∃ functions, functionsOf file text = .ok functions)
      ∨ ∃ line fault, functionsOf file text = .error (.grammar file line fault) := by
  unfold functionsOf
  cases Signature.parseText text with
  | ok functions => exact .inl ⟨functions, rfl⟩
  | error fault => exact .inr ⟨fault.1, fault.2, rfl⟩

/-- An attempt to make a module of a file has one of the outcomes. -/
theorem loadModule_loaded (file : Path) :
    FileLoaded world root file (loadModule world root file).result := by
  unfold loadModule
  cases named : Module.empty? file root with
  | none => exact .foreign named
  | some fresh =>
    cases reading : (world.read file).result with
    | error fault =>
      simp only [reading]
      exact .unreadable named reading
    | ok text =>
      rcases functionsOf_cases file text with ⟨functions, accepted⟩ | ⟨line, fault, refused⟩
      · simp only [reading, accepted]
        exact .parsed named reading accepted
      · simp only [reading, refused]
        exact .malformed named reading refused

section

variable {world root previous} {file : Path} {entry : Module}

/-- A file with content that keeps to the grammar has the module of this content after a scan. -/
theorem moduleOf?_of_content (previous : Catalog) {fresh : Module} {text : String}
    {functions : List Signature} (named : Module.empty? file root = some fresh)
    (reading : (world.read file).result = .ok text)
    (accepted : functionsOf file text = .ok functions) :
    moduleOf? world root previous file = some (fresh.withContent functions text) := by
  unfold moduleOf? keptModule? loadModule
  simp only [named, reading, accepted]
  rfl

/-- The module of a file after a scan has the very path of the file, and either was just read or has
the functions of an earlier module. -/
theorem moduleOf?_cases (h : moduleOf? world root previous file = some entry) :
    entry.file = file ∧
      ((∃ text, (world.read file).result = .ok text ∧ functionsOf file text = .ok entry.functions
          ∧ entry.digest = some (Digest.ofText text))
        ∨ ∃ old, previous.find? file = some old ∧ entry.functions = old.functions
          ∧ entry.digest = old.digest) := by
  have hloaded := loadModule_loaded world root file
  unfold moduleOf? keptModule? at h
  cases hresult : (loadModule world root file).result with
  | ok loaded =>
    rw [hresult] at h hloaded
    obtain rfl := Option.some.inj h
    cases hloaded with
    | parsed named reading accepted =>
      obtain ⟨names, -, rfl⟩ := Option.map_eq_some_iff.mp named
      exact ⟨rfl, .inl ⟨_, reading, accepted, rfl⟩⟩
  | error failure =>
    rw [hresult] at h
    obtain ⟨old, hold, hmoved⟩ := Option.bind_eq_some_iff.mp h
    obtain ⟨names, -, rfl⟩ := Option.map_eq_some_iff.mp hmoved
    exact ⟨rfl, .inr ⟨old, hold, rfl, rfl⟩⟩

/-- A file that has a module after a scan can have one, and was read. -/
theorem moduleOf?_reads (h : moduleOf? world root previous file = some entry) : reads root file = true := by
  unfold reads
  rw [Option.isSome_iff_ne_none]
  intro hforeign
  have hnames : ModuleNames.ofFile? file root = none := Option.map_eq_none_iff.mp hforeign
  unfold moduleOf? keptModule? loadModule at h
  simp only [hforeign] at h
  obtain ⟨old, -, hmoved⟩ := Option.bind_eq_some_iff.mp h
  unfold Module.relocate? at hmoved
  rw [hnames] at hmoved
  cases hmoved

/-- Of a file that a scan leaves to be read again, the read has failed in a way that may pass. -/
theorem failureOf?_transient {failure : Failure} {again : Path}
    (h : failureOf? world root file = some failure) (transient : failure.transientFile? = some again) :
    again = file := by
  have hloaded := loadModule_loaded world root file
  obtain ⟨fault, rfl, -⟩ := Failure.transientFile?_eq_some_iff.mp transient
  unfold failureOf? at h
  split at h
  · cases h
  · next hresult =>
    rw [hresult, Option.some.inj h] at hloaded
    cases hloaded <;> rfl

/-- A named file whose read fails is a failure of the scan. -/
theorem failureOf?_of_fault {fresh : Module} {fault : ReadFault}
    (named : Module.empty? file root = some fresh) (reading : (world.read file).result = .error fault) :
    failureOf? world root file = some (.unreadable file fault) := by
  unfold failureOf? loadModule
  simp only [named, reading]

end

end Scan

namespace Session

variable {world : Surroundings} {session : Session}

/-- A rebuild on an existing root takes the catalog of a scan and marks what is to be read again. -/
theorem rebuild_value (now : Nat) (h : world.isDirectory session.root = true) :
    ∃ scan, Scan.directory world session.root session.catalog = .ok scan
      ∧ (session.rebuild world now).value.1 =
        { session with
          catalog := scan.catalog
          pending := pendingAfter scan.failures
          drainDue := none
          rescanDue := none }.scheduleRetry now := by
  obtain ⟨scan, hscan, -⟩ := Scan.directory_eq_ok world session.root session.catalog h
  refine ⟨scan, hscan, ?_⟩
  unfold rebuild
  simp only [hscan]
  rfl

variable {scan : ScanReport} {root : Path} {previous : Catalog}
  (h : world.isDirectory root = true) (report : Scan.directory world root previous = .ok scan)

include h report

/-- Every module after a scan is that of a listed file. -/
theorem mem_scanned {entry : Module} (hentry : entry ∈ scan.catalog.modules) :
    ∃ file ∈ Scan.listed world root, Scan.moduleOf? world root previous file = some entry := by
  obtain ⟨hcatalog, -⟩ := Scan.directory_of_ok world root previous h report
  rw [hcatalog] at hentry
  obtain ⟨file, hfile, hmodule⟩ := List.mem_filterMap.mp (Catalog.mem_of_mem_ofList hentry)
  exact ⟨file, Scan.mem_inOrder.mp hfile, hmodule⟩

/-- Every listed file that has a module has it after the scan. -/
theorem exists_scanned {file : Path} {entry : Module} (hfile : file ∈ Scan.listed world root)
    (hmodule : Scan.moduleOf? world root previous file = some entry) :
    ∃ last ∈ scan.catalog.modules, last.file.components = entry.file.components := by
  obtain ⟨hcatalog, -⟩ := Scan.directory_of_ok world root previous h report
  rw [hcatalog]
  exact Catalog.exists_mem_ofList (List.mem_filterMap.mpr ⟨file, Scan.mem_inOrder.mpr hfile, hmodule⟩)

/-- The catalog of a scan is consistent. -/
theorem scanned_consistent : scan.catalog.Consistent := by
  obtain ⟨hcatalog, -⟩ := Scan.directory_of_ok world root previous h report
  rw [hcatalog]
  exact Catalog.ofList_consistent _

/-- What is pending after a scan are listed files. -/
theorem mem_pendingAfter {path : Path} (hpath : path ∈ (pendingAfter scan.failures).paths) :
    path ∈ Scan.listed world root := by
  obtain ⟨-, hfailures⟩ := Scan.directory_of_ok world root previous h report
  have hagain := (Pending.paths_foldl_insert hpath).resolve_right List.not_mem_nil
  obtain ⟨failure, hfailure, htransient⟩ := List.mem_filterMap.mp hagain
  rw [hfailures, List.mem_append] at hfailure
  rcases hfailure with hwalk | hfile
  · obtain ⟨reason, -, rfl⟩ := List.mem_map.mp hwalk
    cases htransient
  · obtain ⟨file, hlisted, hfailed⟩ := List.mem_filterMap.mp hfile
    rw [Scan.failureOf?_transient hfailed htransient]
    exact Scan.mem_inOrder.mp hlisted

/-- A listed file whose read failed in a way that may pass is pending after the scan. -/
theorem contains_pendingAfter {file : Path} {fresh : Module} {fault : ReadFault}
    (hfile : file ∈ Scan.listed world root) (named : Module.empty? file root = some fresh)
    (reading : (world.read file).result = .error fault) (transient : fault.verdict = .transient) :
    (pendingAfter scan.failures).contains file = true := by
  obtain ⟨-, hfailures⟩ := Scan.directory_of_ok world root previous h report
  have hfailed := Scan.failureOf?_of_fault named reading
  refine Pending.contains_foldl_insert (.inl (List.mem_filterMap.mpr ⟨_, ?_,
    Failure.transientFile?_eq_some_iff.mpr ⟨fault, rfl, transient⟩⟩))
  rw [hfailures, List.mem_append]
  exact .inr (List.mem_filterMap.mpr ⟨file, Scan.mem_inOrder.mpr hfile, hfailed⟩)

end Session

end TypingsIndex
