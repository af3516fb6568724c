import TypingsIndex.Watch.Turn

/-!
# Lines on the console

The program writes lines: results and events to the standard output, what went wrong to the standard
error. An event is written either as a line for people, with the time of day, or as JSON.
-/

set_option autoImplicit false

namespace TypingsIndex

/-- A line that the program writes. A line feed follows it. -/
inductive Output where
  /-- To the standard output. -/
  | out (line : String)
  /-- To the standard error. -/
  | err (line : String)
  deriving DecidableEq, Repr, Inhabited

namespace Output

/-- The line, if it goes to the standard output. -/
def out? : Output → Option String
  | .out line => some line
  | .err _ => none

/-- The line, if it goes to the standard error. -/
def err? : Output → Option String
  | .out _ => none
  | .err line => some line

end Output

/-- The size of a catalog in words. -/
def Catalog.summary (catalog : Catalog) : String :=
  "✓ " ++ toString catalog.size ++ " modules, " ++ toString catalog.functionCount ++ " functions"

namespace Event

/-- An event as a line for people. -/
def consoleLine (time : String) : Event → Output
  | .catalogChanged catalog => .out ("[" ++ time ++ "] " ++ catalog.summary)
  | .classMoved path => .out ("[" ++ time ++ "] class output → " ++ path)
  | .interfaceMoved path => .out ("[" ++ time ++ "] interface output → " ++ path)
  | .settingsReloaded true => .out ("[" ++ time ++ "] config reloaded, rebuilding")
  | .settingsReloaded false => .out ("[" ++ time ++ "] config reloaded")
  | .moduleFailed _ message => .err ("[" ++ time ++ "] ✗ " ++ message)
  | .fault message => .err ("[" ++ time ++ "] error: " ++ message)

/-- An event as a line of either kind. -/
def output (json : Bool) (time : String) (event : Event) : Output :=
  if json then .out event.line else event.consoleLine time

end Event

namespace Failure

/-- What is behind a failure, in words, if it has a cause of its own. -/
def cause? : Failure → Option String
  | .grammar _ _ fault => some fault.message
  | .unreadable _ fault => some fault.reason
  | .io fault => some fault.reason
  | .walk reason => some reason
  | .watch reason => some reason
  | .settings .. => none
  | .directoryMissing _ => none
  | .workerStopped => none
  | .retriesExhausted .. => none

/-- The lines in which the program says that a failure has ended it. -/
def lastWords (failure : Failure) : List Output :=
  .err ("Error: " ++ failure.message) ::
    match failure.cause? with
    | some cause => [.err "", .err "Caused by:", .err ("    " ++ cause)]
    | none => []

end Failure

end TypingsIndex
