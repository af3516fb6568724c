import TypingsIndex.Watch.Tracking
import TypingsIndex.Watch.Command
import TypingsIndex.Watch.Drain
import TypingsIndex.Watch.Reload

/-!
# Steps of a session

A session moves in two ways: it handles a command, and it does the work that is due. Between two steps
nothing happens, so the earliest time at which there will be work can be told in advance.
-/

set_option autoImplicit false

namespace TypingsIndex

namespace Session

/-- What a handled command comes to. -/
structure Handled where
  session : Session
  /-- The session is over. -/
  stops : Bool := false
  /-- The outcome of the scan, if the command asked for one. -/
  outcome : Option (Except Failure RebuildReport) := none

/-- Handle a command. -/
def handle (world : Surroundings) (now : Nat) (session : Session) : Command → Turn Handled
  | .touched path => return { session := session.touch world now path }
  | .removed path => return { session := ← session.remove path }
  | .renamed source target => return { session := ← session.rename world now source target }
  | .settingsTouched => return { session := session.requestReload now }
  | .settingsRemoved => return { session := ← session.removeSettings world now }
  | .rebuild => do
    let (session, outcome) ← session.rebuild world now
    return { session := session, outcome := some outcome }
  | .shutdown => return { session := session, stops := true }

/-- Whether something due at a time, if it is due at all, is due by now. -/
def isDue (due : Option Nat) (now : Nat) : Bool :=
  due.any fun time => time ≤ now

/-- Load the settings if that is due. -/
def reloadIfDue (world : Surroundings) (now : Nat) (session : Session) : Turn Session :=
  match session.reload with
  | some reload =>
    if reload.due ≤ now then session.reloadSettings world now reload.attempts else pure session
  | none => pure session

/-- Scan the whole root if that is due. -/
def rescanIfDue (world : Surroundings) (now : Nat) (session : Session) : Turn Session :=
  if isDue session.rescanDue now then do
    let (session, _) ← session.rebuild world now
    return session
  else
    pure session

/-- Read the pending files if that is due. -/
def drainIfDue (world : Surroundings) (now : Nat) (session : Session) : Turn Session :=
  if isDue session.drainDue now then session.drain world now else pure session

/-- Do all work that is due: the settings first, since they may move the root; then a scan, since it
leaves little to drain; then the pending files. -/
def poll (world : Surroundings) (now : Nat) (session : Session) : Turn Session := do
  let session ← session.reloadIfDue world now
  let session ← session.rescanIfDue world now
  session.drainIfDue world now

/-- The earliest time at which there will be work to do. -/
def nextDeadline (session : Session) : Option Nat :=
  [session.reload.map Reload.due, session.rescanDue, session.drainDue].reduceOption.min?

end Session

end TypingsIndex
