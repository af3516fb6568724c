import TypingsIndex.CommandLine.Run
import TypingsIndex.Watch.Command
import TypingsIndex.Watch.Service

/-!
# The watching action

A service for the base directory that is told of every change on the disk, and the lines that the
program writes about it. The catalog is built before anything else. The directories themselves may be
watched only as long as they exist.
-/

set_option autoImplicit false

namespace TypingsIndex

/-- The watching program. -/
structure Watching where
  service : Service
  /-- The base directory without links and dots. -/
  base : Path
  /-- The declaration root, if it is being watched. -/
  watched : Option Path
  json : Bool
  deriving Inhabited

namespace Watching

/-- What is watched after an effect. -/
def stepWatched (world : Surroundings) (watched : Option Path) : Effect → Option Path
  | .watch root => if (world.watchFault root).isNone then some root else none
  | _ => watched

/-- The lines for effects. -/
def lines (json : Bool) (time : String) (effects : List Effect) : List Output :=
  (effects.filterMap Effect.event?).map (Event.output json time)

/-- Take note of what the service has done. -/
def advance (world : Surroundings) (time : String) (watching : Watching)
    (result : Service × List Effect) : Watching × List Output :=
  let (service, effects) := result
  ({ watching with
      service := service
      watched := effects.foldl (stepWatched world) watching.watched },
    lines watching.json time effects)

/-- Post a command unless the service has stopped. -/
def post (service : Service) (command : Command) : Service :=
  (service.post command).toOption.getD service

/-- Start to watch: build the catalog and do what is due then. This fails if the base directory cannot
be watched. -/
def start (world : Surroundings) (now : Nat) (time : String) (base : Path) (json : Bool)
    (timing : Timing) : Except Failure (Watching × List Output) :=
  let home := world.canonicalOrSelf base
  match world.watchFault home with
  | some failure => .error failure
  | none =>
    let (service, effects) := Service.start world base none timing
    let (watching, before) :=
      advance world time ⟨service, home, none, json⟩ (service, effects)
    let header := if json then [] else [.out ("Watching " ++ base.text ++ " (Ctrl+C to stop)")]
    let (watching, built) :=
      watching.advance world time ((post watching.service .rebuild).workAll world now)
    .ok (watching, before ++ header ++ built)

/-- Pass on what has happened on the disk. -/
def tell (world : Surroundings) (now : Nat) (time : String) (watching : Watching)
    (changes : List Change) : Watching × List Output :=
  let commands := changes.flatMap (Change.commands watching.base watching.watched)
  let service := commands.foldl post watching.service
  watching.advance world time (service.workAll world now)

/-- Do the work that is due. -/
def wake (world : Surroundings) (now : Nat) (time : String) (watching : Watching) :
    Watching × List Output :=
  watching.advance world time (watching.service.work world now)

/-- The earliest time at which there will be work to do. -/
def nextDeadline (watching : Watching) : Option Nat :=
  watching.service.nextDeadline

/-- How the program ends once the service has stopped by itself. -/
def stopped (afterStart : Bool) : Outcome :=
  let when := if afterStart then "unexpectedly" else "during the initial scan"
  ⟨[.err ("Error: watch pipeline stopped " ++ when)], 1⟩

end Watching

end TypingsIndex
