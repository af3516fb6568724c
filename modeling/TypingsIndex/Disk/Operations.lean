import TypingsIndex.Disk.Resolve
import TypingsIndex.Surroundings

/-!
# Using a disk

Reading and writing files, the changes that others make, and the answers that a disk gives as the
surroundings of a step. Single paths may be made to fail when they are read, as a locked file does.
-/

set_option autoImplicit false

namespace TypingsIndex.Disk

/-- Read a file as text. -/
def read (disk : Disk) (path : Path) : Reading :=
  match disk.locate path with
  | .error fault => .failed fault
  | .ok location =>
    match disk.node? location with
    | some (.file (.text content)) => .content content
    | some (.file .binary) => .failed .notText
    | some _ => .failed .isADirectory
    | none => .failed .notFound

/-- Whether a path leads to a directory. -/
def isDirectory (disk : Disk) (path : Path) : Bool :=
  match disk.locate path with
  | .ok location => disk.hasDirectory location
  | .error _ => false

/-- The absolute path without dots and links that a path leads to. -/
def canonical? (disk : Disk) (path : Path) : Option Path :=
  match disk.locate path with
  | .ok location => some (pathOf location)
  | .error _ => none

/-- Write a file whose directory exists. -/
def write (disk : Disk) (path : Path) (content : Content) : Except ReadFault Disk :=
  match disk.reach .write path with
  | .arrived location =>
    if disk.hasDirectory location then .error .isADirectory
    else .ok (disk.put location (.file content))
  | .vacant directory name => .ok (disk.put (directory ++ [name]) (.file content))
  | .linked .. => .error .notFound
  | .failed fault => .error fault

/-- Make a directory and all that lead to it, as far as they are missing. -/
def makeDirectories (disk : Disk) (path : Path) : Disk :=
  (prefixes (namesOf path.text)).foldl (fun disk names =>
    let text := "/".intercalate names
    match disk.reach .find ⟨if text.isEmpty then "/" else text⟩ with
    | .vacant directory name => disk.put (directory ++ [name]) .directory
    | _ => disk) disk

/-- The directory that a path lies in. -/
def parent (path : Path) : Path :=
  ⟨"/".intercalate (namesOf path.text).dropLast⟩

/-- Put something where a path says, with the directories that lead to it. -/
def place (disk : Disk) (path : Path) : Node → Disk
  | .directory => disk.makeDirectories path
  | .file content =>
    let disk := disk.makeDirectories (parent path)
    (disk.write path content).toOption.getD disk
  | .link target =>
    let disk := disk.makeDirectories (parent path)
    match disk.entryLocation? path with
    | some location => disk.put location (.link target)
    | none => disk

/-- Delete what a path names, and everything below it. -/
def delete (disk : Disk) (path : Path) : Disk :=
  match disk.entryLocation? path with
  | some location => disk.clear location
  | none => disk

/-- Move what a path names to another path. -/
def move (disk : Disk) (source target : Path) : Disk :=
  match disk.entryLocation? source, disk.entryLocation? target with
  | some here, some there =>
    if here = there ∨ (disk.node? here).isNone then disk else (disk.clear there).transfer here there
  | _, _ => disk

/-- The names of an entry below a directory, if it is a file that a walk through the directory finds:
no name below the directory starts with a dot. -/
def found? (directory : Location) (entry : Location × Node) : Option Location :=
  match directory.isPrefixOf? entry.1, entry.2 with
  | some below, .file _ =>
    if below.any fun name => name.toList.head? = some '.' then none else some below
  | _, _ => none

/-- The files that a walk through a directory finds, each under the path by which the walk started. A
lone dash names the standard input, in which there are no files. -/
def walk (disk : Disk) (path : Path) : List Path :=
  match disk.locate path with
  | .ok directory =>
    if path.same ⟨"-"⟩ then []
    else (disk.nodes.filterMap (found? directory)).map fun names => names.foldl Path.join path
  | .error _ => []

/-- The disk as surroundings, with readings that come instead of those of the disk and directories
that cannot be watched. -/
def surroundings (disk : Disk) (instead : List (Path × Reading)) (watchFault : Path → Option Failure) :
    Surroundings where
  read path :=
    match instead.find? fun entry => entry.1.same path with
    | some entry => entry.2
    | none => disk.read path
  isDirectory := disk.isDirectory
  canonical := disk.canonical?
  walk path := (disk.walk path, [])
  watchFault := watchFault

/-- Why a path cannot be watched: it leads nowhere. -/
def watchFault (disk : Disk) (path : Path) : Option Failure :=
  match disk.locate path with
  | .ok _ => none
  | .error _ => some (.watch "No path was found.")

/-- The disk as it is. -/
def undisturbed (disk : Disk) : Surroundings :=
  disk.surroundings [] disk.watchFault

/-- The absolute path of the entry that a path names, a link at its end not being followed. -/
def entryPath (disk : Disk) (path : Path) : Path :=
  ((disk.entryLocation? path).map pathOf).getD path

/-- Everything below the entry that a path names, before what it is in, and then the entry itself. -/
def entriesAt (disk : Disk) (path : Path) : List Path :=
  match disk.entryLocation? path with
  | some location =>
    let below := (disk.nodes.map Prod.fst).filter location.isPrefixOf
    (below.mergeSort fun a b => b.length ≤ a.length).map pathOf
  | none => []

end TypingsIndex.Disk
