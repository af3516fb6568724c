import TypingsIndex.Settings.Document
import TypingsIndex.Watch.Pending
import TypingsIndex.Watch.Turn

/-!
# Sessions

A session owns everything that a watch works on: the settings in effect, the declaration root that they
give, the catalog, the files that are to be read again, and up to three pieces of work that are due at
a time. Times are in milliseconds. Changes are gathered for a while before they are acted upon, and
what could not be read is tried again later.
-/

set_option autoImplicit false

namespace TypingsIndex

/-- How long a session waits, in milliseconds, and how often it tries. -/
structure Timing where
  /-- From the first change of a burst to the work on it. -/
  quiescence : Nat := 500
  /-- From a failed read to the next try. -/
  retry : Nat := 1000
  /-- The number of failed reads after which a file is given up, if it ever is. -/
  maxAttempts : Option Nat := none
  deriving DecidableEq, Repr, Inhabited

/-- Whether a file with so many failed reads is given up. -/
def Timing.exhausted (timing : Timing) (attempts : Nat) : Bool :=
  timing.maxAttempts.any fun most => most ≤ attempts

/-- Settings that are to be loaded again. -/
structure Reload where
  due : Nat
  /-- The reads that have failed so far. -/
  attempts : Nat
  deriving DecidableEq, Repr, Inhabited

/-- The state of a watch. -/
structure Session where
  /-- The directory with the settings file. -/
  base : Path
  /-- The settings in effect. -/
  settings : Settings
  /-- The declaration root that the settings in effect give. -/
  root : Path
  timing : Timing
  catalog : Catalog
  /-- The files that are to be read again. -/
  pending : Pending
  /-- When the pending files are read. -/
  drainDue : Option Nat
  reload : Option Reload
  /-- When the whole root is scanned again. -/
  rescanDue : Option Nat
  deriving Inhabited

/-- What a scan of the whole root came to. -/
structure RebuildReport where
  moduleCount : Nat
  /-- What could not be read or understood; earlier modules of these files are kept. -/
  failures : List Failure
  deriving DecidableEq, Repr, Inhabited

/-- Nothing has failed. -/
def RebuildReport.isClean (report : RebuildReport) : Bool :=
  report.failures.isEmpty

namespace Session

/-- The declaration root of settings in a base directory, without links and dots if it exists. -/
def resolveRoot (world : Surroundings) (base : Path) (settings : Settings) : Path :=
  world.canonicalOrSelf (settings.declarationRoot base)

/-- A session with nothing in its catalog and nothing to do. -/
def start (world : Surroundings) (base : Path) (settings : Settings) (timing : Timing) : Session where
  base := base
  settings := settings
  root := resolveRoot world base settings
  timing := timing
  catalog := .empty
  pending := .empty
  drainDue := none
  reload := none
  rescanDue := none

/-- The path of the settings file. -/
def settingsFile (session : Session) : Path :=
  Settings.fileIn session.base

/-- Point the watch on the root at the declaration root. -/
def watchRoot (world : Surroundings) (session : Session) : Turn Unit := do
  Turn.perform (.watch session.root)
  match world.watchFault session.root with
  | some failure => Turn.fault failure
  | none => pure ()

/-- Publish the catalog and tell of it. -/
def publish (session : Session) : Turn Session := do
  Turn.perform (.publishCatalog session.catalog)
  Turn.emit (.catalogChanged session.catalog)
  return session

/-- Whether a name is hidden. -/
def isHidden (name : String) : Bool :=
  name.toList.head? = some '.'

/-- Whether a path is that of a declaration file that a scan of the root could find: one at or below
the root, with names only below it, none of them hidden. -/
def accepts (session : Session) (path : Path) : Bool :=
  path.isDeclarationFile
    && ((path.below? session.root).bind Path.names?).any fun names => !names.any isHidden

/-- Scan the whole root after the time of quiescence, unless that is to be done anyway. -/
def requestRescan (session : Session) (now : Nat) : Session :=
  { session with rescanDue := session.rescanDue.or (some (now + session.timing.quiescence)) }

/-- Read the pending files after the time of quiescence, unless that is to be done anyway. -/
def requestDrain (session : Session) (now : Nat) : Session :=
  { session with drainDue := session.drainDue.or (some (now + session.timing.quiescence)) }

/-- Load the settings after the time of quiescence, unless that is to be done anyway. -/
def requestReload (session : Session) (now : Nat) : Session :=
  { session with reload := session.reload.or (some ⟨now + session.timing.quiescence, 0⟩) }

/-- Read the pending files again after the time of a retry, if there are any. -/
def scheduleRetry (session : Session) (now : Nat) : Session :=
  if session.pending.isEmpty then session
  else { session with drainDue := some (now + session.timing.retry) }

end Session

end TypingsIndex
