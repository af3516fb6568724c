import TypingsIndex.Surroundings
import TypingsIndex.Watch.Command

/-!
# Observations

What was seen of the world outside at some moment, as tables: files that were read, paths that were
followed, and directories with everything below them. An observation answers a step from its tables
alone; a file that is in none of them does not exist.
-/

set_option autoImplicit false

namespace TypingsIndex

/-- What an entry of a directory is. Links are entries of their own and are not followed. -/
inductive EntryKind where
  | file
  | directory
  | link
  | other
  deriving DecidableEq, Repr, Inhabited

/-- An entry somewhere below a directory. -/
structure Entry where
  path : Path
  kind : EntryKind
  /-- The entry, or a directory on the way to it, has a name that starts with a dot. -/
  hidden : Bool
  /-- A text that changes when the entry is written. -/
  stamp : String
  deriving DecidableEq, Repr, Inhabited

/-- What was seen. -/
structure Observation where
  readings : List (Path × Reading)
  /-- Paths and the absolute paths that they lead to. -/
  destinations : List (Path × Path)
  /-- Directories and everything below them. -/
  contents : List (Path × List Entry)
  deriving Inhabited

namespace Observation

/-- What a table has for a path. -/
def lookup? {α : Type} (table : List (Path × α)) (path : Path) : Option α :=
  (table.find? fun row => row.1.same path).map Prod.snd

/-- Everything that was seen below any of the directories. -/
def entries (observation : Observation) : List Entry :=
  observation.contents.flatMap Prod.snd

/-- Whether a path was seen to be that of a directory. -/
def isDirectory (observation : Observation) (path : Path) : Bool :=
  (lookup? observation.contents path).isSome
    || observation.entries.any fun entry => entry.kind = .directory && entry.path.same path

/-- The files that a walk through a directory finds. -/
def walk (observation : Observation) (directory : Path) : List Path :=
  (((lookup? observation.contents directory).getD []).filter fun entry =>
    entry.kind = .file && !entry.hidden).map Entry.path

/-- The observation as surroundings. -/
def surroundings (observation : Observation) : Surroundings where
  read path := (lookup? observation.readings path).getD (.failed .notFound)
  isDirectory := observation.isDirectory
  canonical := lookup? observation.destinations
  walk path := (observation.walk path, [])
  watchFault path :=
    if observation.isDirectory path then none else some (.watch "No path was found.")

/-- Entries as a look at directories. -/
def lookOf (entries : List Entry) : Look :=
  entries.map fun entry => (entry.path, entry.stamp)

end Observation

end TypingsIndex
