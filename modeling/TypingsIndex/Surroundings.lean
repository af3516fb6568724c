import TypingsIndex.Failure

/-!
# Surroundings

What the world outside answers while one step of work is done: what reading a file gives, which paths
are directories, what a path really is, what a walk through a directory finds, and whether a directory
can be watched. A step never changes these answers; the world changes between steps.
-/

set_option autoImplicit false

namespace TypingsIndex

/-- What reading a file gives. -/
inductive Reading where
  /-- The whole content of the file. -/
  | content (text : String)
  | failed (fault : ReadFault)
  /-- The reader broke down. Nobody who asked for the file lives to see this. -/
  | crashed (message : String)
  deriving DecidableEq, Repr, Inhabited

namespace Reading

/-- The content or the fault of a reading. -/
def result : Reading → Except ReadFault String
  | .content text => .ok text
  | .failed fault => .error fault
  | .crashed message => .error ⟨.other, message⟩

end Reading

/-- The answers of the world outside. -/
structure Surroundings where
  read : Path → Reading
  isDirectory : Path → Bool
  /-- The absolute path without dots and links that a path leads to, if it leads anywhere. -/
  canonical : Path → Option Path
  /-- The regular files below a directory that have no hidden component below it, links not followed,
  in no particular order; and the reasons why entries could not be looked at. -/
  walk : Path → List Path × List String
  /-- Why a directory cannot be watched, if it cannot. -/
  watchFault : Path → Option Failure

namespace Surroundings

/-- The path that a path leads to, or itself if it leads nowhere. -/
def canonicalOrSelf (world : Surroundings) (path : Path) : Path :=
  (world.canonical path).getD path

end Surroundings

end TypingsIndex
