import TypingsIndex.Path

/-!
# Pending files

The files that wait to be read again, in path order, each with the number of reads of it that have
failed so far. A file is pending once however often it is touched, and touching it again does not
forget its failures.
-/

set_option autoImplicit false

namespace TypingsIndex

/-- Pending files with their failure counts, in rising order of their paths. -/
structure Pending where
  entries : List (Path × Nat)
  deriving DecidableEq, Repr, Inhabited

namespace Pending

/-- Nothing is pending. -/
def empty : Pending :=
  ⟨[]⟩

/-- The dirty set without files is written with empty braces. -/
instance : EmptyCollection Pending :=
  ⟨empty⟩

/-- The number of pending files. -/
def size (pending : Pending) : Nat :=
  pending.entries.length

/-- Whether nothing is pending. -/
def isEmpty (pending : Pending) : Bool :=
  pending.entries.isEmpty

/-- The pending files in order. -/
def paths (pending : Pending) : List Path :=
  pending.entries.map Prod.fst

/-- The failures of a pending file. -/
def failures? (pending : Pending) (path : Path) : Option Nat :=
  (pending.entries.find? fun entry => entry.1.same path).map Prod.snd

/-- Whether a file is pending. -/
def contains (pending : Pending) (path : Path) : Bool :=
  (pending.failures? path).isSome

/-- Put an entry in its place. An entry of the same path keeps its spelling and takes the count. -/
def place (path : Path) (failures : Nat) : List (Path × Nat) → List (Path × Nat)
  | [] => [(path, failures)]
  | (other, count) :: rest =>
    match Path.compare path other with
    | .lt => (path, failures) :: (other, count) :: rest
    | .eq => (other, failures) :: rest
    | .gt => (other, count) :: place path failures rest

/-- Mark a file as pending. Nothing changes if it is already. -/
def insert (pending : Pending) (path : Path) : Pending :=
  if pending.contains path then pending else ⟨place path 0 pending.entries⟩

/-- Unmark a file. -/
def erase (pending : Pending) (path : Path) : Pending :=
  ⟨pending.entries.filter fun entry => !entry.1.same path⟩

/-- Unmark every file at or below a directory. -/
def eraseBelow (pending : Pending) (directory : Path) : Pending :=
  ⟨pending.entries.filter fun entry => !entry.1.isAtOrBelow directory⟩

/-- Move the mark of one file, with its failures, to another. -/
def rename (pending : Pending) (source target : Path) : Pending :=
  match pending.failures? source with
  | some failures => ⟨place target failures (pending.erase source).entries⟩
  | none => pending

/-- Count one more failed read of a pending file. -/
def countFailure (pending : Pending) (path : Path) : Pending :=
  ⟨pending.entries.map fun entry => if entry.1.same path then (entry.1, entry.2 + 1) else entry⟩

end Pending

end TypingsIndex
