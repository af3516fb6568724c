import TypingsIndex.Catalog
import TypingsIndex.Module.Content
import TypingsIndex.Surroundings

/-!
# Scanning a directory

A scan makes a catalog of all declaration files below a root, in path order, whatever the order in
which the walk finds them. A file that cannot be read, or breaks the grammar, is a failure of its own;
if an earlier catalog has a module for it, that one is kept, under the names that it has below the root
of this scan.
-/

set_option autoImplicit false

namespace TypingsIndex

/-- An attempt to make a module of a file. -/
structure ModuleLoad where
  /-- The reading that the attempt took, if it came to reading. -/
  reading : Option Reading
  result : Except Failure Module

/-- What a scan gives. -/
structure ScanReport where
  catalog : Catalog
  /-- What the walk could not look at, then one failure per failing file in path order. -/
  failures : List Failure
  /-- What was read, in order. -/
  readings : List (Path × Reading)
  deriving Inhabited

namespace ScanReport

/-- Nothing has failed. -/
def isClean (report : ScanReport) : Bool :=
  report.failures.isEmpty

end ScanReport

namespace Scan

/-- Read one declaration file below a root and make a module of it. -/
def loadModule (world : Surroundings) (root file : Path) : ModuleLoad :=
  match Module.empty? file root with
  | none => ⟨none, .error (.unreadable file .notADeclarationFile)⟩
  | some entry =>
    let reading := world.read file
    let result := match reading.result with
      | .ok content => (functionsOf file content).map fun functions => entry.withContent functions content
      | .error fault => .error (.unreadable file fault)
    ⟨some reading, result⟩

/-- Paths in order. -/
def inOrder (paths : List Path) : List Path :=
  paths.mergeSort fun a b => (Path.compare a b).isLE

/-- The declaration files below a root in path order, and what the walk could not look at. -/
def findFiles (world : Surroundings) (root : Path) : Except Failure (List Path × List Failure) :=
  if world.isDirectory root then
    let (found, faults) := world.walk root
    .ok (inOrder (found.filter Path.isDeclarationFile), faults.map .walk)
  else
    .error (.directoryMissing root)

/-- The declaration files below a root in path order. The first thing that the walk could not look at
fails the listing. -/
def declarationFiles (world : Surroundings) (root : Path) : Except Failure (List Path) := do
  let (files, failures) ← findFiles world root
  match failures with
  | [] => .ok files
  | failure :: _ => .error failure

/-- The module that stands for a file after an attempt to load it: the new one, or the one that an
earlier catalog has for the file. -/
def keptModule? (previous : Catalog) (root file : Path) (load : ModuleLoad) : Option Module :=
  match load.result with
  | .ok entry => some entry
  | .error _ => (previous.find? file).bind fun entry => entry.relocate? file root

/-- Scan a root, keeping the modules of an earlier catalog for files that fail. -/
def directory (world : Surroundings) (root : Path) (previous : Catalog) :
    Except Failure ScanReport := do
  let (files, walkFailures) ← findFiles world root
  let loads := files.map fun file => (file, loadModule world root file)
  return {
    catalog := .ofList (loads.filterMap fun load => keptModule? previous root load.1 load.2)
    failures := walkFailures ++ loads.filterMap fun load =>
      match load.2.result with
      | .ok _ => none
      | .error failure => some failure
    readings := loads.filterMap fun load => load.2.reading.map fun reading => (load.1, reading) }

end Scan

end TypingsIndex
