import TypingsIndex.Disk.Basic
import TypingsIndex.Path

/-!
# Finding a path on a disk

A path is followed name by name. Every piece between slashes, the empty ones at the end included, has
to start from a directory; a dot stays where it is, two dots go up, and a symbolic link is replaced by
the path that it holds. After forty links the search is given up. A file that is to be written cannot have
slashes after its name, in the path or in a link: they ask for a directory, and the name is not even
looked up.
-/

set_option autoImplicit false

namespace TypingsIndex.Disk

/-- What a path is followed for. -/
inductive Aim where
  /-- To find what is there. -/
  | find
  /-- To write a file, which may be missing. -/
  | write
  deriving DecidableEq, Repr, Inhabited

/-- Whether what is left after a name is slashes only. -/
def isSlashes (rest : List String) : Bool :=
  !rest.isEmpty && rest.all String.isEmpty

/-- Where following some names has led. -/
inductive Reached where
  /-- All names were followed. -/
  | arrived (location : Location)
  /-- The last name is not there, in a directory that is. -/
  | vacant (directory : Location) (name : String)
  /-- A link was met, with names left to follow after it. -/
  | linked (target : String) (directory : Location) (rest : List String)
  | failed (fault : ReadFault)
  deriving DecidableEq, Repr, Inhabited

/-- The longest name that a file system takes, in bytes. -/
def longestName : Nat := 255

/-- The longest path that is looked up, in bytes. -/
def longestPath : Nat := 4095

/-- The number of links that are followed on the way to one file. -/
def mostLinks : Nat := 40

/-- Follow names from a location up to the first link. -/
def follow (disk : Disk) (aim : Aim) : Location → List String → Reached
  | location, [] => .arrived location
  | location, name :: rest =>
    if !disk.hasDirectory location then .failed .notADirectory
    else if name = "" ∨ name = "." then follow disk aim location rest
    else if name = ".." then follow disk aim location.dropLast rest
    else if aim = .write ∧ isSlashes rest then .failed .isADirectory
    else if longestName < name.utf8ByteSize then .failed .nameTooLong
    else
      match disk.node? (location ++ [name]) with
      | some (.link target) => .linked target location rest
      | some _ => follow disk aim (location ++ [name]) rest
      | none => if rest.isEmpty then .vacant location name else .failed .notFound

/-- The names between the slashes of a path. -/
def namesOf (text : String) : List String :=
  (Text.splitAt '/' text.toList).map String.ofList

/-- Follow names from a location, through so many links less one. -/
def followLinks (disk : Disk) (aim : Aim) : Nat → Location → List String → Reached
  | 0, _, _ => .failed .linkLoop
  | links + 1, location, names =>
    match follow disk aim location names with
    | .linked target directory rest =>
      if target.isEmpty then .failed .notFound
      else
        followLinks disk aim links (if Path.isAbsolute target then [] else directory)
          (namesOf target ++ rest)
    | reached => reached

/-- Where a path leads. -/
def reach (disk : Disk) (aim : Aim) (path : Path) : Reached :=
  if path.text.toList.contains '\x00' then .failed .nulInPath
  else if path.text.isEmpty then .failed .notFound
  else if longestPath < path.text.utf8ByteSize then .failed .nameTooLong
  else
    followLinks disk aim (mostLinks + 1) (if Path.isAbsolute path.text then [] else disk.here)
      (namesOf path.text)

/-- The location that a path leads to. -/
def locate (disk : Disk) (path : Path) : Except ReadFault Location :=
  match disk.reach .find path with
  | .arrived location => .ok location
  | .failed fault => .error fault
  | _ => .error .notFound

/-- A location as an absolute path. -/
def pathOf (location : Location) : Path :=
  ⟨"/" ++ "/".intercalate location⟩

/-- The location of the entry that a path names: unlike `locate`, a link at the end is not followed. Two
dots at the end name no entry. -/
def entryLocation? (disk : Disk) (path : Path) : Option Location :=
  match (namesOf path.text).reverse.dropWhile (fun name => name = "" ∨ name = ".") with
  | [] => none
  | ".." :: _ => none
  | name :: above =>
    let directory := "/".intercalate above.reverse
    let start : Path := if above.isEmpty then ⟨"."⟩ else ⟨directory ++ "/"⟩
    match disk.locate start with
    | .ok location => some (location ++ [name])
    | .error _ => none

end TypingsIndex.Disk
