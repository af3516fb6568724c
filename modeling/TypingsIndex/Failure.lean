import TypingsIndex.Declaration.Fault
import TypingsIndex.Path
import TypingsIndex.ReadFault
import TypingsIndex.Settings.Basic

/-!
# Failures

Everything that can go wrong between a directory of declaration files and its catalog, as causes. A
failure is attributed to a file or directory where there is one to blame, and `message` words it for
reports and events.
-/

set_option autoImplicit false

namespace TypingsIndex

/-- What went wrong. -/
inductive Failure where
  /-- A line of a declaration file, numbered from one, breaks the grammar. -/
  | grammar (file : Path) (line : Nat) (fault : GrammarFault)
  /-- A file could not be read. -/
  | unreadable (file : Path) (fault : ReadFault)
  /-- A file could not be written. -/
  | io (fault : ReadFault)
  /-- The walk through a directory met an entry that it could not look at. -/
  | walk (reason : String)
  /-- The settings in a file could not be understood. -/
  | settings (file : Path) (fault : SettingsFault)
  /-- The declaration root does not exist. -/
  | directoryMissing (directory : Path)
  /-- A directory could not be watched. -/
  | watch (reason : String)
  /-- The worker that keeps the catalog is gone. -/
  | workerStopped
  /-- A file was not readable any of the times it was tried. -/
  | retriesExhausted (file : Path) (attempts : Nat)
  deriving DecidableEq, Repr, Inhabited

namespace Failure

/-- The file or directory that a failure is attributed to. -/
def file? : Failure → Option Path
  | .grammar file _ _ => some file
  | .unreadable file _ => some file
  | .settings file _ => some file
  | .directoryMissing directory => some directory
  | .retriesExhausted file _ => some file
  | .io _ => none
  | .walk _ => none
  | .watch _ => none
  | .workerStopped => none

/-- The wording of a failure. -/
def message : Failure → String
  | .grammar file line fault =>
    "invalid declaration in " ++ file.text ++ ":" ++ toString line ++ ": " ++ fault.message
  | .unreadable file fault => "failed to read " ++ file.text ++ ": " ++ fault.reason
  | .io fault => "IO error: " ++ fault.reason
  | .walk reason => "directory walk failed: " ++ reason
  | .settings file fault => "invalid config in " ++ file.text ++ ": " ++ fault.message
  | .directoryMissing directory => "directory not found: " ++ directory.text
  | .watch reason => "watch error: " ++ reason
  | .workerStopped => "watch pipeline is no longer running"
  | .retriesExhausted file attempts =>
    "gave up reading " ++ file.text ++ " after " ++ toString attempts ++ " attempts"

end Failure

end TypingsIndex
