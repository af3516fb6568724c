import Std.Data.TreeMap
import TypingsIndex.Module.Basic

/-!
# The catalog of modules

All known modules in order, with a table from the path of each module to its position. Every operation
changes list and table together, so that every module has one entry in the table and every entry one
module; `isConsistent` checks just that. Paths are equal by component, so no two modules of a catalog
have the same file.
-/

set_option autoImplicit false

namespace TypingsIndex

/-- Modules in order, and the position of each by its path. -/
structure Catalog where
  modules : List Module
  /-- The position of the module of each path. -/
  positions : Std.TreeMap Path Nat Path.compare

namespace Catalog

/-- The catalog without modules. -/
def empty : Catalog :=
  ⟨[], ∅⟩

/-- A catalog that is not given is the empty one. -/
instance : Inhabited Catalog :=
  ⟨empty⟩

/-- The catalog without modules is written with empty braces. -/
instance : EmptyCollection Catalog :=
  ⟨empty⟩

/-- The number of modules. -/
def size (catalog : Catalog) : Nat :=
  catalog.modules.length

/-- Whether there is no module. -/
def isEmpty (catalog : Catalog) : Bool :=
  catalog.modules.isEmpty

/-- The position of the module of a path. -/
def position? (catalog : Catalog) (path : Path) : Option Nat :=
  catalog.positions[path]?

/-- Whether there is a module of a path. -/
def contains (catalog : Catalog) (path : Path) : Bool :=
  (catalog.position? path).isSome

/-- The module of a path. -/
def find? (catalog : Catalog) (path : Path) : Option Module := do
  catalog.modules[← catalog.position? path]?

/-- Whether there is a module at or below a directory. -/
def hasBelow (catalog : Catalog) (directory : Path) : Bool :=
  catalog.modules.any fun entry => entry.file.isAtOrBelow directory

/-- Put in a module: in place of the one with the same path, or else at the end. The position where it is
then comes with the catalog. -/
def insertWithPosition (catalog : Catalog) (entry : Module) : Nat × Catalog :=
  match catalog.position? entry.file with
  | some i => (i, { catalog with modules := catalog.modules.set i entry })
  | none =>
    (catalog.size,
      { modules := catalog.modules ++ [entry]
        positions := catalog.positions.insert entry.file catalog.size })

/-- The catalog with a module put in. -/
def insert (catalog : Catalog) (entry : Module) : Catalog :=
  (catalog.insertWithPosition entry).2

/-- The catalog of modules put in one after the other. -/
def ofList (modules : List Module) : Catalog :=
  modules.foldl insert empty

/-- Give the module of a path other functions, read from content with the given digest. -/
def replaceFunctions? (catalog : Catalog) (path : Path) (functions : List Signature)
    (digest : Option Digest) : Option Catalog :=
  (catalog.position? path).map fun i =>
    { catalog with modules := catalog.modules.modify i fun entry =>
        { entry with functions := functions, digest := digest } }

/-- Take out the module of a path; those behind it move up by one. -/
def erase? (catalog : Catalog) (path : Path) : Option (Module × Catalog) := do
  let i ← catalog.position? path
  let entry ← catalog.modules[i]?
  some (entry,
    { modules := catalog.modules.eraseIdx i
      positions := (catalog.positions.erase path).map fun _ j => if i < j then j - 1 else j })

/-- The table that belongs to a list of modules. -/
def positionsOf (modules : List Module) : Std.TreeMap Path Nat Path.compare :=
  modules.zipIdx.foldl (fun table entry => table.insert entry.1.file entry.2) ∅

/-- Take out every module at or below a directory. The others keep their order. -/
def eraseBelow (catalog : Catalog) (directory : Path) : List Module × Catalog :=
  let (removed, kept) := catalog.modules.partition fun entry => entry.file.isAtOrBelow directory
  (removed, ⟨kept, positionsOf kept⟩)

/-- Move the module of one path to another path, at the same position and with the same functions.
This fails if the first path has no module, the second has one, or the second is not a declaration
file below the root. -/
def rename? (catalog : Catalog) (source target root : Path) : Option Catalog :=
  if catalog.contains target then none
  else do
    let i ← catalog.position? source
    let entry ← catalog.modules[i]?
    let moved ← entry.relocate? target root
    some {
      modules := catalog.modules.set i moved
      positions := (catalog.positions.erase source).insert target i }

/-- Whether list and table agree, entry for entry. -/
def isConsistent (catalog : Catalog) : Bool :=
  catalog.positions.size == catalog.modules.length
    && catalog.modules.zipIdx.all fun entry => catalog.position? entry.1.file == some entry.2

/-- The number of functions of all modules. -/
def functionCount (catalog : Catalog) : Nat :=
  catalog.modules.foldl (fun count entry => count + entry.functions.length) 0

end Catalog

end TypingsIndex
