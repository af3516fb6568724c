import Mathlib.Data.List.Pairwise
import TypingsIndex.Proofs.Watch.Isolation
import TypingsIndex.Proofs.Watch.Naming

/-!
# Scans of the files that a walk lists

A walk finds the files below a root in no particular order, and each of them once. A scan puts them in the order of
their paths, which is strict, so that the order of the walk is forgotten (`inOrder_perm`) and every listed file is
read and stands for itself alone: the modules after the scan are those that the files have one by one
(`scanned_modules`), and so the module that is found for a file is the one that came of its own reading
(`find?_scanned`).
-/

set_option autoImplicit false

namespace TypingsIndex

/-- The walk through a directory lists paths that go down from it by names, and no path twice. -/
structure Surroundings.WalksOnce (world : Surroundings) (directory : Path) : Prop where
  below : ∀ path ∈ (world.walk directory).1,
    ∃ names : List String, names ≠ [] ∧ path.components = directory.components ++ names.map .name
  once : (world.walk directory).1.Pairwise fun a b => a.components ≠ b.components

/-- Whether a reading failed in a way that may pass. -/
def Reading.isTransient (reading : Reading) : Bool :=
  match reading.result with
  | .ok _ => false
  | .error fault => fault.verdict = .transient

/-- Walks that list the same paths list them once together. -/
theorem Surroundings.WalksOnce.of_perm {world other : Surroundings} {directory : Path}
    (walks : world.WalksOnce directory) (perm : (other.walk directory).1.Perm (world.walk directory).1) :
    other.WalksOnce directory :=
  ⟨fun path hpath => walks.below path (perm.mem_iff.mp hpath), perm.symm.pairwise walks.once fun h => h.symm⟩

namespace Scan

/-- A scan leaves a file to be read again if its read has failed in a way that may pass. -/
theorem transientFile?_failureOf? {world : Surroundings} {root file : Path} {fresh : Module}
    (named : Module.empty? file root = some fresh) :
    (failureOf? world root file).bind Failure.transientFile? =
      Option.guard (fun file => (world.read file).isTransient) file := by
  have hloaded := loadModule_loaded world root file
  unfold failureOf?
  generalize (loadModule world root file).result = result at hloaded
  cases hloaded with
  | foreign unnamed =>
    rw [unnamed] at named
    cases named
  | parsed named reading accepted => simp [Reading.isTransient, reading, Option.guard]
  | malformed named reading refused => simp [Reading.isTransient, reading, Option.guard, Failure.transientFile?]
  | @unreadable _ fault named reading =>
    by_cases hverdict : fault.verdict = .transient <;>
      simp [Reading.isTransient, reading, Option.guard, Failure.transientFile?, hverdict]

/-! ## Files in order -/

/-- Files that the walk lists once stand in strict order. -/
theorem inOrder_rising {files : List Path} (once : files.Pairwise fun a b => a.components ≠ b.components) :
    (inOrder files).Pairwise fun a b => Path.compare a b = .lt := by
  have htotal : ∀ a b, ((Path.compare a b).isLE || (Path.compare b a).isLE) = true := by
    intro a b
    have hswap : Path.compare b a = (Path.compare a b).swap := Std.OrientedCmp.eq_swap
    rw [hswap]
    cases Path.compare a b <;> rfl
  have hsorted : (inOrder files).Pairwise fun a b => (Path.compare a b).isLE = true :=
    List.pairwise_mergeSort (fun _ _ _ => Std.TransCmp.isLE_trans) htotal files
  have hdistinct : (inOrder files).Pairwise fun a b => a.components ≠ b.components :=
    (List.mergeSort_perm files _).symm.pairwise once fun h => h.symm
  refine (hsorted.and hdistinct).imp fun {a b} h => ?_
  cases hcompare : Path.compare a b with
  | lt => rfl
  | eq => exact absurd (Path.compare_eq_iff.mp hcompare) h.2
  | gt =>
    rw [hcompare] at h
    exact absurd h.1 Bool.false_ne_true

/-- The order in which the walk finds the files does not matter. -/
theorem inOrder_perm {files others : List Path} (perm : files.Perm others)
    (once : files.Pairwise fun a b => a.components ≠ b.components) : inOrder files = inOrder others := by
  have hothers : others.Pairwise fun a b => a.components ≠ b.components :=
    perm.pairwise once fun h => h.symm
  have hperm : (inOrder files).Perm (inOrder others) :=
    calc (inOrder files).Perm files := List.mergeSort_perm files _
      List.Perm _ others := perm
      List.Perm _ (inOrder others) := (List.mergeSort_perm others _).symm
  refine hperm.eq_of_pairwise (fun a b _ _ hab hba => ?_) (inOrder_rising once) (inOrder_rising hothers)
  rw [Std.OrientedCmp.gt_of_lt hab] at hba
  cases hba

/-! ## The scan of an existing root -/

section

variable {world : Surroundings} {root : Path} (walks : world.WalksOnce root)

include walks

/-- Every listed file has the names of a module. -/
theorem exists_ofFile? {file : Path} (hfile : file ∈ listed world root) :
    ∃ names, ModuleNames.ofFile? file root = some names := by
  obtain ⟨hwalked, hdeclared⟩ := List.mem_filter.mp hfile
  obtain ⟨names, hnonempty, hbelow⟩ := walks.below file hwalked
  exact ModuleNames.exists_ofFile? hdeclared hnonempty hbelow

/-- Every listed file can have a module. -/
theorem exists_empty? {file : Path} (hfile : file ∈ listed world root) :
    ∃ fresh, Module.empty? file root = some fresh := by
  obtain ⟨names, hnames⟩ := exists_ofFile? walks hfile
  unfold Module.empty?
  exact ⟨_, by rw [hnames, Option.map_some]⟩

/-- No file is listed twice. -/
theorem listed_once : (listed world root).Pairwise fun a b => a.components ≠ b.components :=
  walks.once.filter _

/-- A file is listed under one spelling only. -/
theorem listed_same {file other : Path} (hother : other ∈ listed world root) (hfile : file ∈ listed world root)
    (same : other.components = file.components) : other = file := by
  have : Std.Symm fun a b : Path => a.components ≠ b.components := ⟨fun _ _ => Ne.symm⟩
  by_contra hne
  exact (listed_once walks).forall hother hfile hne same

/-- Two walks that list the same files in another order come to the same files in order. -/
theorem inOrder_listed {other : Surroundings} (perm : (other.walk root).1.Perm (world.walk root).1) :
    inOrder (listed other root) = inOrder (listed world root) :=
  (inOrder_perm (perm.symm.filter _) (listed_once walks)).symm

/-- The modules that the files in order come to stand in strict order. -/
theorem modules_rising (previous : Catalog) :
    ((inOrder (listed world root)).filterMap (moduleOf? world root previous)).Pairwise fun a b =>
      Path.compare a.file b.file = .lt := by
  refine List.pairwise_filterMap.mpr ((inOrder_rising (listed_once walks)).imp ?_)
  intro a b hlt first hfirst second hsecond
  rw [(moduleOf?_cases hfirst).1, (moduleOf?_cases hsecond).1]
  exact hlt

variable {previous : Catalog} {scan : ScanReport} (h : world.isDirectory root = true)
  (report : directory world root previous = .ok scan)

include h report

/-- The modules after a scan are those of the listed files, one by one. -/
theorem scanned_modules :
    scan.catalog.modules = (inOrder (listed world root)).filterMap (moduleOf? world root previous) := by
  have hunique : Listing.Unique ((inOrder (listed world root)).filterMap (moduleOf? world root previous)) := by
    refine (modules_rising walks previous).imp fun {a b} hlt heq => ?_
    rw [Path.compare_eq_iff.mpr heq] at hlt
    cases hlt
  obtain ⟨hcatalog, -⟩ := directory_of_ok world root previous h report
  rw [hcatalog, Catalog.ofList_modules, Listing.ofModules_of_unique hunique]

/-- A module is there after a scan exactly if a listed file has it. -/
theorem mem_scanned_iff {entry : Module} :
    entry ∈ scan.catalog.modules ↔ ∃ file ∈ listed world root, moduleOf? world root previous file = some entry := by
  rw [scanned_modules walks h report, List.mem_filterMap]
  simp only [mem_inOrder]

/-- The module that is found for a listed file after a scan is the one that the file has. -/
theorem find?_scanned {file : Path} (hfile : file ∈ listed world root) :
    scan.catalog.find? file = moduleOf? world root previous file := by
  have hconsistent := Session.scanned_consistent h report
  apply Option.ext
  intro entry
  rw [Catalog.find?_eq_some_iff hconsistent, mem_scanned_iff walks h report]
  constructor
  · rintro ⟨⟨other, hother, hmodule⟩, hsame⟩
    rw [(moduleOf?_cases hmodule).1] at hsame
    rwa [listed_same walks hother hfile hsame] at hmodule
  · intro hmodule
    exact ⟨⟨file, hfile, hmodule⟩, congrArg Path.components (moduleOf?_cases hmodule).1⟩

/-- A scan leaves exactly those listed files to be read again, in order, whose read has failed in a way that may
pass. -/
theorem again_scanned :
    scan.failures.filterMap Failure.transientFile? =
      (inOrder (listed world root)).filter fun file => (world.read file).isTransient := by
  obtain ⟨-, hfailures⟩ := directory_of_ok world root previous h report
  have hwalk : ((world.walk root).2.map Failure.walk).filterMap Failure.transientFile? = [] := by
    rw [List.filterMap_map]
    exact List.filterMap_eq_nil_iff.mpr fun _ _ => rfl
  rw [hfailures, List.filterMap_append, hwalk, List.nil_append, List.filterMap_filterMap, ← List.filterMap_eq_filter]
  refine List.filterMap_congr fun file hfile => ?_
  obtain ⟨fresh, hfresh⟩ := exists_empty? walks (mem_inOrder.mp hfile)
  exact transientFile?_failureOf? hfresh

/-- What is to be read again after a scan is pending without a failure. -/
theorem pendingAfter_scanned :
    Session.pendingAfter scan.failures =
      ⟨(scan.failures.filterMap Failure.transientFile?).map fun file => (file, 0)⟩ := by
  have hrising : (scan.failures.filterMap Failure.transientFile?).Pairwise fun a b => Path.compare a b = .lt := by
    rw [again_scanned walks h report]
    exact (inOrder_rising (listed_once walks)).filter _
  exact @Pending.foldl_insert_rising _ [] hrising

/-- A listed file is pending after a scan exactly if its read has failed in a way that may pass. -/
theorem contains_pendingAfter_iff {file : Path} (hfile : file ∈ listed world root) :
    (Session.pendingAfter scan.failures).contains file = (world.read file).isTransient := by
  rw [Bool.eq_iff_iff, Pending.contains_iff, pendingAfter_scanned walks h report, again_scanned walks h report]
  unfold Pending.paths
  rw [List.map_map, Function.comp_def, List.map_id']
  simp only [List.mem_filter, mem_inOrder]
  constructor
  · rintro ⟨marked, ⟨hmarked, htransient⟩, hsame⟩
    rwa [listed_same walks hmarked hfile hsame] at htransient
  · intro htransient
    exact ⟨file, ⟨hfile, htransient⟩, rfl⟩

end

end Scan

end TypingsIndex
