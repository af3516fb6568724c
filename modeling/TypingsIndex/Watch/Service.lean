import TypingsIndex.Watch.Step

/-!
# The watch service

A service runs one session for any number of clients. Clients put commands into an inbox and the
session takes them out one at a time, in order, doing the work that is due after each. A client that
wants the outcome of a rebuild gets a ticket and finds the outcome under it.

The session ends when it is told to shut down or when a reading breaks down. Then the inbox is closed
before anything is said about it, every ticket that is still open is answered with a failure, and
everything that clients ask from then on fails as well.
-/

set_option autoImplicit false

namespace TypingsIndex

/-- The number under which the outcome of a rebuild is found. -/
abbrev Ticket := Nat

/-- A command in an inbox. -/
structure Request where
  command : Command
  /-- Where the outcome is wanted, if it is. -/
  ticket : Option Ticket
  deriving DecidableEq, Repr, Inhabited

/-- A session and its clients. -/
structure Service where
  /-- The session, as long as it runs. -/
  session? : Option Session
  /-- What can be looked up, also after the session has ended. -/
  published : Published
  /-- The oldest request first. -/
  inbox : List Request
  /-- The number of tickets that were handed out. -/
  tickets : Nat
  /-- The outcomes found under tickets, the oldest first. -/
  answers : List (Ticket × Except Failure RebuildReport)
  deriving Inhabited

namespace Service

/-- The service of a session that has not begun to work. -/
def ofSession (session : Session) : Service where
  session? := some session
  published := ⟨session.catalog, session.settings⟩
  inbox := []
  tickets := 0
  answers := []

/-- Start a service for a base directory, with the given settings or those of its settings file. The
catalog is empty at first. -/
def start (world : Surroundings) (base : Path) (settings : Option Settings) (timing : Timing) :
    Service × List Effect :=
  let base := world.canonicalOrSelf base
  let settings := settings.getD (Settings.loadOrDefault world base)
  let session := Session.start world base settings timing
  (ofSession session, (session.watchRoot world).effects)

/-- Whether the session runs. -/
def isRunning (service : Service) : Bool :=
  service.session?.isSome

/-- The earliest time at which there will be work to do without a command. -/
def nextDeadline (service : Service) : Option Nat :=
  service.session?.bind Session.nextDeadline

/-- Put a command into the inbox. -/
def post (service : Service) (command : Command) : Except Failure Service :=
  if service.isRunning then .ok { service with inbox := service.inbox ++ [⟨command, none⟩] }
  else .error .workerStopped

/-- Ask for a rebuild and its outcome. -/
def askRebuild (service : Service) : Except Failure (Ticket × Service) :=
  if service.isRunning then
    .ok (service.tickets, { service with
      inbox := service.inbox ++ [⟨.rebuild, some service.tickets⟩]
      tickets := service.tickets + 1 })
  else
    .error .workerStopped

/-- The outcome found under a ticket. -/
def answer? (service : Service) (ticket : Ticket) : Option (Except Failure RebuildReport) :=
  (service.answers.find? fun answer => answer.1 = ticket).map Prod.snd

/-- Put an outcome under the ticket of a request, if it has one. -/
def answer (service : Service) (request : Request) (outcome : Except Failure RebuildReport) : Service :=
  match request.ticket with
  | some ticket => { service with answers := service.answers ++ [(ticket, outcome)] }
  | none => service

/-- End the session. Requests that are still waiting, and the one in hand if it was not answered, fail. -/
def close (service : Service) (inHand : List Request) : Service :=
  (inHand ++ service.inbox).foldl (fun service request => service.answer request (.error .workerStopped))
    { service with session? := none, inbox := [] }

/-- What a reading that has broken down has said is told as the last event. -/
def lastEvent (message : String) : Effect :=
  .emit (.fault ("watch coordinator panicked: " ++ message))

/-- What is done about a reading that has broken down: the inbox is closed, and only then is it told of. -/
def farewell (message : String) : List Effect :=
  [.close, lastEvent message]

/-- Let the effects of a part of a turn happen, and go on if no reading breaks down among them. -/
def proceed (service : Service) (effects : List Effect) (inHand : List Request)
    (next : Service → Service × List Effect) : Service × List Effect :=
  let (effects, crash) := Effect.untilCrash effects
  let service := { service with published := service.published.after effects }
  match crash with
  | none =>
    let (service, later) := next service
    (service, effects ++ later)
  | some message => (service.close inHand, effects ++ farewell message)

/-- Do the work that is due. -/
def workDue (world : Surroundings) (now : Nat) (session : Session) (service : Service) :
    Service × List Effect :=
  let turn := session.poll world now
  service.proceed turn.effects [] fun service => ({ service with session? := some turn.value }, [])

/-- Take the oldest request, if there is one, and do the work that is due. -/
def work (world : Surroundings) (now : Nat) (service : Service) : Service × List Effect :=
  match service.session?, service.inbox with
  | none, _ => (service, [])
  | some session, [] => service.workDue world now session
  | some session, request :: inbox =>
    let turn := session.handle world now request.command
    { service with inbox := inbox }.proceed turn.effects [request] fun service =>
      let service := match turn.value.outcome with
        | some outcome => service.answer request outcome
        | none => service
      if turn.value.stops then (service.close [], [.close])
      else service.workDue world now turn.value.session

/-- Work until nothing is left in the inbox, for at most so many requests. -/
def workThrough (world : Surroundings) (now : Nat) : Nat → Service → Service × List Effect
  | 0, service => (service, [])
  | most + 1, service =>
    if service.inbox.isEmpty then (service, [])
    else
      let (service, effects) := service.work world now
      let (service, later) := service.workThrough world now most
      (service, effects ++ later)

/-- Work until nothing is left in the inbox. -/
def workAll (world : Surroundings) (now : Nat) (service : Service) : Service × List Effect :=
  service.workThrough world now service.inbox.length

end Service

end TypingsIndex
