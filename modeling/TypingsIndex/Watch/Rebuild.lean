import TypingsIndex.Scan
import TypingsIndex.Watch.Session

/-!
# Scanning the whole root

A rebuild scans the declaration root and takes the catalog that the scan gives, which keeps the modules
of files that could not be read or understood. Nothing that was pending stays so, since everything has
just been read; only files whose read failed in a way that may pass are pending afterwards, and every
other failure is reported. A root that does not exist leaves an empty catalog.
-/

set_option autoImplicit false

namespace TypingsIndex

/-- The file whose read failed in a way that may pass, if that is what went wrong. -/
def Failure.transientFile? : Failure → Option Path
  | .unreadable file fault => if fault.verdict = .transient then some file else none
  | _ => none

namespace Session

/-- The files that a scan leaves to be read again. -/
def pendingAfter (failures : List Failure) : Pending :=
  (failures.filterMap Failure.transientFile?).foldl Pending.insert .empty

/-- The failures of a scan that are reported at once. -/
def reportedOf (failures : List Failure) : List Failure :=
  failures.filter fun failure => failure.transientFile?.isNone

/-- Take the outcome of a scan. -/
def adopt (now : Nat) (session : Session) (scan : ScanReport) : Turn (Session × RebuildReport) := do
  (reportedOf scan.failures).forM Turn.report
  let session := { session with
    catalog := scan.catalog
    pending := pendingAfter scan.failures
    drainDue := none }
  let session ← (session.scheduleRetry now).publish
  return (session, ⟨scan.catalog.size, scan.failures⟩)

/-- Take the news that the root could not be scanned. -/
def lose (session : Session) (failure : Failure) : Turn Session := do
  let missing := match failure with
    | .directoryMissing _ => true
    | _ => false
  let session ←
    if missing && !session.catalog.isEmpty then ({ session with catalog := .empty }).publish
    else pure session
  Turn.fault failure
  return session

/-- Scan the declaration root. -/
def rebuild (world : Surroundings) (now : Nat) (session : Session) :
    Turn (Session × Except Failure RebuildReport) := do
  let session := { session with rescanDue := none }
  match Scan.directory world session.root session.catalog with
  | .error failure => do
    let session ← session.lose failure
    return (session, .error failure)
  | .ok scan => do
    Turn.performAll (scan.readings.map fun entry => .read entry.1 entry.2)
    let (session, report) ← session.adopt now scan
    return (session, .ok report)

end Session

end TypingsIndex
