import TypingsIndex.ReadFault

/-!
# Disks

A disk is a tree of directories, files and symbolic links, kept as a list of what lies where. A
location is the list of names that leads to it from the root, whose own location is the empty list; the
root is always a directory. Of a file only its text matters, or that its bytes are no text.
-/

set_option autoImplicit false

namespace TypingsIndex

namespace Disk

/-- Names from the root of the disk downwards. -/
abbrev Location := List String

/-- What a file holds. -/
inductive Content where
  | text (content : String)
  /-- Bytes that are not UTF-8. -/
  | binary
  deriving DecidableEq, Repr, Inhabited

/-- What lies at a location. -/
inductive Node where
  | file (content : Content)
  | directory
  /-- A symbolic link and the path that it holds. -/
  | link (target : String)
  deriving DecidableEq, Repr, Inhabited

end Disk

/-- What lies where, each location being listed once, and the directory that relative paths start
from. -/
structure Disk where
  nodes : List (Disk.Location × Disk.Node)
  here : Disk.Location
  deriving DecidableEq, Repr, Inhabited

namespace Disk

/-- The beginnings of a list of names, from the shortest to the whole, without the empty one. -/
def prefixes : List String → List Location
  | [] => []
  | name :: rest => [name] :: (prefixes rest).map (name :: ·)

/-- The disk whose only directories are those on the way to the one that relative paths start from. -/
def empty (here : Location) : Disk :=
  ⟨(prefixes here).map fun location => (location, .directory), here⟩

/-- What lies at a location. -/
def node? (disk : Disk) (location : Location) : Option Node :=
  if location.isEmpty then some .directory
  else (disk.nodes.find? fun entry => entry.1 == location).map Prod.snd

/-- Whether a directory lies at a location. -/
def hasDirectory (disk : Disk) (location : Location) : Bool :=
  disk.node? location == some .directory

/-- Let something lie at a location, instead of what is there. -/
def put (disk : Disk) (location : Location) (node : Node) : Disk :=
  { disk with nodes := disk.nodes.filter (fun entry => entry.1 != location) ++ [(location, node)] }

/-- Take away what lies at a location and everything below it. -/
def clear (disk : Disk) (location : Location) : Disk :=
  { disk with nodes := disk.nodes.filter fun entry => !location.isPrefixOf entry.1 }

/-- Move what lies at a location, and everything below it, to another location. -/
def transfer (disk : Disk) (source target : Location) : Disk :=
  { disk with nodes := disk.nodes.map fun entry =>
      match source.isPrefixOf? entry.1 with
      | some below => (target ++ below, entry.2)
      | none => entry }

end Disk

end TypingsIndex
