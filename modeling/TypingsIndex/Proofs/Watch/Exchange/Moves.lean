import TypingsIndex.Watch.Service

/-!
# Clients and the worker of a service, move by move

The service tells of a whole piece of work at once. Here the same work is taken apart into the moves of the one
worker, and between any two of them any client may make a call, also while the worker unwinds after a reading has
broken down: it drops the request in hand, then the inbox, and only then tells what has happened. An exchange keeps
beside the service what its clients have called and what the worker has handled, in order.

Undisturbed by calls, the moves of the worker come to the work of the service (`work_by_moves`).
-/

set_option autoImplicit false

namespace TypingsIndex

/-- What a client asks of a service: to take note of a command, or to rebuild and give the outcome. -/
inductive Ask where
  | tell (command : Command)
  | rebuild
  deriving DecidableEq, Repr

/-- A call of a client, and what came of it at once: a request in the inbox, or a failure. -/
structure Call where
  client : Nat
  ask : Ask
  taken : Except Failure Request

/-- A request that was handled, and the session, the surroundings and the time that it was handled with. -/
structure Handling where
  request : Request
  session : Session
  world : Surroundings
  now : Nat

/-- What handling the request comes to. -/
def Handling.turn (handling : Handling) : Turn Session.Handled :=
  handling.session.handle handling.world handling.now handling.request.command

namespace Exchange

/-- Where the worker is between two of its moves. -/
inductive Phase where
  /-- About to take the oldest request, or to look for work if there is none. -/
  | free
  | holding (request : Request)
  /-- About to do the work that is due. -/
  | polling
  /-- Told to stop. -/
  | leaving
  /-- A reading has broken down with a message, and maybe with a request in hand. -/
  | unwinding (inHand : Option Request) (message : String)
  /-- The inbox is closed, and the message is still to be told. -/
  | telling (message : String)
  | gone
  deriving DecidableEq, Repr

/-- A move: a call of a client, or the next thing that the worker does. -/
inductive Move where
  | call (client : Nat) (ask : Ask)
  | work (world : Surroundings) (now : Nat)

/-- Whether a move is the worker's. -/
def Move.isWork : Move → Bool
  | .call .. => false
  | .work .. => true

end Exchange

/-- A service, where its worker is, and what has happened so far. -/
structure Exchange where
  service : Service
  phase : Exchange.Phase
  calls : List Call
  handled : List Handling
  told : List Effect

namespace Exchange

/-- The exchange over a session that has not begun to work. -/
def start (session : Session) : Exchange where
  service := .ofSession session
  phase := .free
  calls := []
  handled := []
  told := []

/-- A client makes a call. -/
def take (client : Nat) (ask : Ask) (exchange : Exchange) : Exchange :=
  match ask with
  | .tell command =>
    match exchange.service.post command with
    | .ok service =>
      { exchange with service := service, calls := exchange.calls ++ [⟨client, ask, .ok ⟨command, none⟩⟩] }
    | .error failure => { exchange with calls := exchange.calls ++ [⟨client, ask, .error failure⟩] }
  | .rebuild =>
    match exchange.service.askRebuild with
    | .ok (ticket, service) =>
      { exchange with service := service, calls := exchange.calls ++ [⟨client, ask, .ok ⟨.rebuild, some ticket⟩⟩] }
    | .error failure => { exchange with calls := exchange.calls ++ [⟨client, ask, .error failure⟩] }

/-- A request is handled. -/
def note (handling : Handling) (exchange : Exchange) : Exchange :=
  { exchange with handled := exchange.handled ++ [handling] }

/-- Effects happen. -/
def tell (effects : List Effect) (exchange : Exchange) : Exchange :=
  { exchange with
    service := { exchange.service with published := exchange.service.published.after effects }
    told := exchange.told ++ effects }

/-- The effects of a turn happen, and if no reading breaks down among them it goes on. -/
def proceed (effects : List Effect) (inHand : Option Request) (next : Exchange → Exchange) (exchange : Exchange) :
    Exchange :=
  match Effect.untilCrash effects with
  | (effects, none) => next (exchange.tell effects)
  | (effects, some message) => { exchange.tell effects with phase := .unwinding inHand message }

/-- The inbox is closed. -/
def shut (phase : Phase) (exchange : Exchange) : Exchange :=
  { exchange with service := exchange.service.close [], phase := phase, told := exchange.told ++ [.close] }

/-- A request was handled: its outcome is found under its ticket, and the session is the one after it. -/
def finish (request : Request) (handled : Session.Handled) (exchange : Exchange) : Exchange :=
  let service := match handled.outcome with
    | some outcome => exchange.service.answer request outcome
    | none => exchange.service
  { exchange with
    service := { service with session? := some handled.session }
    phase := if handled.stops then .leaving else .polling }

/-- The worker makes its next move. -/
def advance (world : Surroundings) (now : Nat) (exchange : Exchange) : Exchange :=
  match exchange.phase, exchange.service.session? with
  | .free, some _ =>
    match exchange.service.inbox with
    | [] => { exchange with phase := .polling }
    | request :: inbox =>
      { exchange with service := { exchange.service with inbox := inbox }, phase := .holding request }
  | .holding request, some session =>
    let handling : Handling := ⟨request, session, world, now⟩
    (exchange.note handling).proceed handling.turn.effects (some request) (finish request handling.turn.value)
  | .polling, some session =>
    let turn := session.poll world now
    exchange.proceed turn.effects none fun exchange =>
      { exchange with service := { exchange.service with session? := some turn.value }, phase := .free }
  | .leaving, _ => exchange.shut .gone
  | .unwinding (some request) message, _ =>
    { exchange with
      service := exchange.service.answer request (.error .workerStopped)
      phase := .unwinding none message }
  | .unwinding none message, _ => exchange.shut (.telling message)
  | .telling message, _ =>
    { exchange with
      phase := .gone
      told := exchange.told ++ [Service.lastEvent message] }
  | _, _ => exchange

/-- A move is made. -/
def step (exchange : Exchange) : Move → Exchange
  | .call client ask => exchange.take client ask
  | .work world now => exchange.advance world now

/-- Moves are made one after the other. -/
def after (exchange : Exchange) (moves : List Move) : Exchange :=
  moves.foldl step exchange

/-- The results that a call has given so far. -/
def resultsOf (exchange : Exchange) (call : Call) : List (Except Failure RebuildReport) :=
  match call.taken with
  | .error failure => [.error failure]
  | .ok request =>
    match request.ticket with
    | some ticket => (exchange.service.answers.filter fun answer => answer.1 = ticket).map Prod.snd
    | none => []

/-- The requests of a client that were handled, the handled requests being those of the first calls. -/
def handledOf (exchange : Exchange) (client : Nat) : List Request :=
  ((exchange.calls.zip exchange.handled).filter fun pair => pair.1.client = client).map fun pair => pair.2.request

/-! ## What a move of the worker can do -/

/-- What a reading that broke down has said. -/
def crash? : Effect → Option String
  | .read _ (.crashed message) => some message
  | _ => none

/-- No reading among the effects has broken down. -/
def Calm (effects : List Effect) : Prop :=
  ∀ effect ∈ effects, crash? effect = none

/-- Either no reading breaks down, or one does for the first time, and nothing happens after it. -/
theorem untilCrash_cases (effects : List Effect) :
    (Effect.untilCrash effects = (effects, none) ∧ Calm effects)
      ∨ ∃ front file message, Calm front
        ∧ Effect.untilCrash effects = (front ++ [.read file (.crashed message)], some message) := by
  induction effects with
  | nil => exact .inl ⟨rfl, fun _ h => absurd h List.not_mem_nil⟩
  | cons effect rest ih =>
    cases hcrash : crash? effect with
    | some message =>
      obtain ⟨file, rfl⟩ : ∃ file, effect = .read file (.crashed message) := by
        unfold crash? at hcrash
        split at hcrash
        · exact ⟨_, by rw [Option.some.inj hcrash]⟩
        · cases hcrash
      exact .inr ⟨[], file, message, fun _ h => absurd h List.not_mem_nil, rfl⟩
    | none =>
      have hcons : Effect.untilCrash (effect :: rest) =
          (effect :: (Effect.untilCrash rest).1, (Effect.untilCrash rest).2) := by
        cases effect with
        | read file reading =>
          cases reading with
          | crashed message => cases hcrash
          | _ => rfl
        | _ => rfl
      rw [hcons]
      rcases ih with ⟨hrest, hcalm⟩ | ⟨front, file, message, hcalm, hrest⟩
      · exact .inl ⟨by rw [hrest], List.forall_mem_cons.mpr ⟨hcrash, hcalm⟩⟩
      · exact .inr ⟨effect :: front, file, message, List.forall_mem_cons.mpr ⟨hcrash, hcalm⟩, by rw [hrest]; rfl⟩

/-- The outcomes of a move of the worker. -/
inductive Advanced (world : Surroundings) (now : Nat) (before : Exchange) : Exchange → Prop where
  | looked (free : before.phase = .free) (idle : before.service.inbox = []) :
      Advanced world now before { before with phase := .polling }
  | took {request : Request} {inbox : List Request} (free : before.phase = .free)
      (oldest : before.service.inbox = request :: inbox) :
      Advanced world now before
        { before with service := { before.service with inbox := inbox }, phase := .holding request }
  | handled {request : Request} {session : Session} (holding : before.phase = .holding request)
      (runs : before.service.session? = some session)
      (calm : Calm (session.handle world now request.command).effects) :
      Advanced world now before
        (((before.note ⟨request, session, world, now⟩).tell (session.handle world now request.command).effects).finish
          request (session.handle world now request.command).value)
  | broke {request : Request} {session : Session} {front : List Effect} {file : Path} {message : String}
      (holding : before.phase = .holding request) (runs : before.service.session? = some session)
      (crash : Effect.untilCrash (session.handle world now request.command).effects =
        (front ++ [.read file (.crashed message)], some message)) (calm : Calm front) :
      Advanced world now before
        { (before.note ⟨request, session, world, now⟩).tell (front ++ [.read file (.crashed message)]) with
          phase := .unwinding (some request) message }
  | polled {session : Session} (polling : before.phase = .polling) (runs : before.service.session? = some session)
      (calm : Calm (session.poll world now).effects) :
      Advanced world now before
        { before.tell (session.poll world now).effects with
          service := { (before.tell (session.poll world now).effects).service with
            session? := some (session.poll world now).value }
          phase := .free }
  | stalled {session : Session} {front : List Effect} {file : Path} {message : String}
      (polling : before.phase = .polling) (runs : before.service.session? = some session)
      (crash : Effect.untilCrash (session.poll world now).effects =
        (front ++ [.read file (.crashed message)], some message)) (calm : Calm front) :
      Advanced world now before
        { before.tell (front ++ [.read file (.crashed message)]) with phase := .unwinding none message }
  | left (leaving : before.phase = .leaving) : Advanced world now before (before.shut .gone)
  | dropped {request : Request} {message : String} (unwinding : before.phase = .unwinding (some request) message) :
      Advanced world now before
        { before with
          service := before.service.answer request (.error .workerStopped)
          phase := .unwinding none message }
  | closed {message : String} (unwinding : before.phase = .unwinding none message) :
      Advanced world now before (before.shut (.telling message))
  | reported {message : String} (telling : before.phase = .telling message) :
      Advanced world now before
        { before with
          phase := .gone
          told := before.told ++ [Service.lastEvent message] }
  | ended (gone : before.phase = .gone) : Advanced world now before before
  /-- This does not happen, since a worker that is still to handle or to poll has a session. -/
  | stuck (halted : before.service.session? = none)
      (needed : before.phase = .free ∨ (∃ request, before.phase = .holding request) ∨ before.phase = .polling) :
      Advanced world now before before

/-- A move of the worker has one of the outcomes. -/
theorem advance_advanced (world : Surroundings) (now : Nat) (exchange : Exchange) :
    Advanced world now exchange (exchange.advance world now) := by
  unfold advance
  cases hphase : exchange.phase with
  | free =>
    cases hsession : exchange.service.session? with
    | none => exact .stuck hsession (.inl hphase)
    | some session =>
      cases hinbox : exchange.service.inbox with
      | nil => exact .looked hphase hinbox
      | cons request inbox => exact .took hphase hinbox
  | holding request =>
    cases hsession : exchange.service.session? with
    | none => exact .stuck hsession (.inr (.inl ⟨request, hphase⟩))
    | some session =>
      dsimp only
      unfold proceed
      rcases untilCrash_cases (session.handle world now request.command).effects with
        ⟨hnone, hcalm⟩ | ⟨front, file, message, hcalm, hcrash⟩
      · have hturn : Effect.untilCrash (Handling.turn ⟨request, session, world, now⟩).effects =
            ((session.handle world now request.command).effects, none) := hnone
        rw [hturn]
        exact .handled hphase hsession hcalm
      · have hturn : Effect.untilCrash (Handling.turn ⟨request, session, world, now⟩).effects =
            (front ++ [.read file (.crashed message)], some message) := hcrash
        rw [hturn]
        exact .broke hphase hsession hcrash hcalm
  | polling =>
    cases hsession : exchange.service.session? with
    | none => exact .stuck hsession (.inr (.inr hphase))
    | some session =>
      dsimp only
      unfold proceed
      rcases untilCrash_cases (session.poll world now).effects with
        ⟨hnone, hcalm⟩ | ⟨front, file, message, hcalm, hcrash⟩
      · rw [hnone]
        exact .polled hphase hsession hcalm
      · rw [hcrash]
        exact .stalled hphase hsession hcrash hcalm
  | leaving => exact .left hphase
  | unwinding inHand message =>
    cases inHand with
    | none => exact .closed hphase
    | some request => exact .dropped hphase
  | telling message => exact .reported hphase
  | gone => exact .ended hphase

/-! ## The work of the service -/

/-- The worker makes so many moves. -/
def advanceBy (world : Surroundings) (now moves : Nat) (exchange : Exchange) : Exchange :=
  exchange.after (List.replicate moves (.work world now))

/-- What an exchange comes to is a service that has had effects, with a worker that has come back or is gone. -/
structure ComesTo (before after : Exchange) (work : Service × List Effect) : Prop where
  service : after.service = work.1
  told : after.told = before.told ++ work.2
  calls : after.calls = before.calls
  rests : after.phase = .free ∨ after.phase = .gone

section

variable (world : Surroundings) (now : Nat) {exchange : Exchange}

/-- The first move of the worker is made, and then the others. -/
theorem advanceBy_succ (moves : Nat) :
    exchange.advanceBy world now (moves + 1) = (exchange.advance world now).advanceBy world now moves := rfl

/-- A worker that leaves closes the inbox. -/
theorem advance_leaving (leaving : exchange.phase = .leaving) : exchange.advance world now = exchange.shut .gone := by
  simp [advance, leaving]

/-- The failures that requests get from a worker that has stopped. -/
def stopped (requests : List Request) : List (Ticket × Except Failure RebuildReport) :=
  requests.filterMap fun request => request.ticket.map fun ticket => (ticket, .error .workerStopped)

/-- An outcome goes under the ticket of the request, if it has one. -/
theorem answer_eq (service : Service) (request : Request) (outcome : Except Failure RebuildReport) :
    service.answer request outcome =
      { service with answers := service.answers ++ (request.ticket.map fun ticket => (ticket, outcome)).toList } := by
  unfold Service.answer
  cases request.ticket with
  | none => simp
  | some ticket => rfl

/-- To close is to answer the requests in hand and in the inbox with a failure. -/
theorem close_eq (service : Service) (inHand : List Request) :
    service.close inHand =
      { service with
        session? := none
        inbox := []
        answers := service.answers ++ stopped (inHand ++ service.inbox) } := by
  have hall : ∀ (requests : List Request) (service : Service),
      requests.foldl (fun service request => service.answer request (.error .workerStopped)) service =
        { service with answers := service.answers ++ stopped requests } := by
    intro requests
    induction requests with
    | nil => simp [stopped]
    | cons request rest ih =>
      intro service
      rw [List.foldl_cons, ih, answer_eq]
      cases hticket : request.ticket <;> simp [stopped, hticket]
  unfold Service.close
  rw [hall]

/-- It is the same to answer the request in hand and then to close as to close with it. -/
theorem close_answer (service : Service) (request : Request) :
    (service.answer request (.error .workerStopped)).close [] = service.close [request] := by
  rw [close_eq, close_eq, answer_eq]
  cases hticket : request.ticket <;> simp [stopped, hticket]

/-- A worker that unwinds closes the inbox and then tells of it. -/
theorem unwound {inHand : Option Request} {message : String} (unwinding : exchange.phase = .unwinding inHand message) :
    ∃ moves ≤ inHand.toList.length + 2, ComesTo exchange (exchange.advanceBy world now moves)
      (exchange.service.close inHand.toList, Service.farewell message) := by
  cases inHand with
  | none =>
    refine ⟨2, Nat.le_refl _, ?_⟩
    constructor
    · simp [advanceBy, after, step, advance, unwinding, shut]
    · simp [advanceBy, after, step, advance, unwinding, shut, Service.farewell]
    · simp [advanceBy, after, step, advance, unwinding, shut]
    · simp [advanceBy, after, step, advance, unwinding, shut]
  | some request =>
    refine ⟨3, Nat.le_refl _, ?_⟩
    constructor
    · simp [advanceBy, after, step, advance, unwinding, shut, close_answer]
    · simp [advanceBy, after, step, advance, unwinding, shut, Service.farewell]
    · simp [advanceBy, after, step, advance, unwinding, shut]
    · simp [advanceBy, after, step, advance, unwinding, shut]

/-- What is told by a move comes before what the exchange comes to after it. -/
theorem ComesTo.preceded {before between after : Exchange} {work : Service × List Effect} {effects : List Effect}
    (comes : ComesTo between after work) (told : between.told = before.told ++ effects)
    (calls : between.calls = before.calls) : ComesTo before after (work.1, effects ++ work.2) where
  service := comes.service
  told := by rw [comes.told, told, List.append_assoc]
  calls := by rw [comes.calls, calls]
  rests := comes.rests

/-- The moves of a worker that polls come to the work that is due. -/
theorem due_by_moves {service : Service} {session : Session} (polling : exchange.phase = .polling)
    (runs : exchange.service = { service with session? := some session }) :
    ∃ moves ≤ 3, ComesTo exchange (exchange.advanceBy world now moves) (service.workDue world now session) := by
  have hsession : exchange.service.session? = some session := by rw [runs]
  rcases untilCrash_cases (session.poll world now).effects with ⟨hnone, -⟩ | ⟨front, file, message, -, hcrash⟩
  · refine ⟨1, by omega, ?_⟩
    constructor <;>
      simp [advanceBy, after, step, advance, polling, runs, proceed, hnone, tell, Service.workDue, Service.proceed]
  · have hmove : exchange.advance world now =
        { exchange.tell (front ++ [.read file (.crashed message)]) with phase := .unwinding none message } := by
      simp [advance, polling, hsession, proceed, hcrash]
    have hwork : service.workDue world now session = ((exchange.advance world now).service.close [],
        (front ++ [.read file (.crashed message)]) ++ Service.farewell message) := by
      rw [hmove]
      simp [Service.workDue, Service.proceed, hcrash, tell, close_eq, runs]
    have hunwinding : (exchange.advance world now).phase = .unwinding none message := by rw [hmove]
    obtain ⟨moves, hmoves, hcomes⟩ := unwound world now hunwinding
    refine ⟨moves + 1, Nat.succ_le_succ hmoves, ?_⟩
    rw [advanceBy_succ, hwork]
    exact hcomes.preceded (by rw [hmove]; rfl) (by rw [hmove]; rfl)

section

variable {service : Service} {session : Session} {request : Request} {inbox : List Request}
  (holding : exchange.phase = .holding request) (runs : service.session? = some session)
  (taken : service.inbox = request :: inbox) (left : exchange.service = { service with inbox := inbox })

include holding runs taken left

/-- If no reading breaks down the request is finished, and the worker leaves or does the work that is due. -/
theorem finished_by_moves
    (calm : Effect.untilCrash (session.handle world now request.command).effects =
      ((session.handle world now request.command).effects, none)) :
    ∃ moves ≤ 4, ComesTo exchange (exchange.advanceBy world now moves) (service.work world now) := by
  have hsession : exchange.service.session? = some session := by rw [left, ← runs]
  generalize hturn : session.handle world now request.command = turn at calm
  have hmove : exchange.advance world now =
      ((exchange.note ⟨request, session, world, now⟩).tell turn.effects).finish request turn.value := by
    simp [advance, holding, hsession, proceed, Handling.turn, hturn, calm]
  -- The service that has answered, named so that the worker and the service are both described by it.
  obtain ⟨answered, hanswered⟩ : ∃ answered : Service, answered =
      match turn.value.outcome with
      | some outcome => (exchange.tell turn.effects).service.answer request outcome
      | none => (exchange.tell turn.effects).service := ⟨_, rfl⟩
  have hservice : (exchange.advance world now).service = { answered with session? := some turn.value.session } := by
    rw [hmove, hanswered]
    rfl
  have htold : (exchange.advance world now).told = exchange.told ++ turn.effects := by
    rw [hmove]
    rfl
  have hcalls : (exchange.advance world now).calls = exchange.calls := by
    rw [hmove]
    rfl
  have hphase : (exchange.advance world now).phase = if turn.value.stops then .leaving else .polling := by
    rw [hmove]
    rfl
  -- A worker that is to stop closes the inbox with its second move; any other one goes on to the work that is due.
  cases hstops : turn.value.stops with
  | true =>
    have hwork : service.work world now = (answered.close [], turn.effects ++ [.close]) := by
      rw [hanswered]
      cases houtcome : turn.value.outcome <;>
        simp [Service.work, runs, taken, hturn, Service.proceed, calm, hstops, houtcome, tell, left]
    have hleaving : (exchange.advance world now).phase = .leaving := by rw [hphase, hstops, if_pos rfl]
    refine ⟨2, by omega, ?_⟩
    rw [advanceBy_succ, advanceBy_succ, advance_leaving world now hleaving, hwork]
    constructor
    · change (exchange.advance world now).service.close [] = _
      rw [hservice, close_eq, close_eq]
    · change (exchange.advance world now).told ++ [.close] = _
      rw [htold, List.append_assoc]
    · exact hcalls
    · exact .inr rfl
  | false =>
    have hwork : service.work world now = ((answered.workDue world now turn.value.session).1,
        turn.effects ++ (answered.workDue world now turn.value.session).2) := by
      rw [hanswered]
      cases houtcome : turn.value.outcome <;>
        simp [Service.work, runs, taken, hturn, Service.proceed, calm, hstops, houtcome, tell, left]
    have hpolling : (exchange.advance world now).phase = .polling := by
      rw [hphase, hstops, if_neg Bool.false_ne_true]
    obtain ⟨moves, hmoves, hcomes⟩ := due_by_moves world now hpolling hservice
    refine ⟨moves + 1, Nat.succ_le_succ hmoves, ?_⟩
    rw [advanceBy_succ, hwork]
    exact hcomes.preceded htold hcalls

/-- The moves of a worker with a request in hand come to the work of the service that has taken the request. -/
theorem handled_by_moves :
    ∃ moves ≤ 4, ComesTo exchange (exchange.advanceBy world now moves) (service.work world now) := by
  rcases untilCrash_cases (session.handle world now request.command).effects with
    ⟨hcalm, -⟩ | ⟨front, file, message, -, hcrash⟩
  · exact finished_by_moves world now holding runs taken left hcalm
  · have hsession : exchange.service.session? = some session := by rw [left, ← runs]
    have hmove : exchange.advance world now =
        { (exchange.note ⟨request, session, world, now⟩).tell (front ++ [.read file (.crashed message)]) with
          phase := .unwinding (some request) message } := by
      simp [advance, holding, hsession, proceed, Handling.turn, hcrash]
    have hwork : service.work world now = ((exchange.advance world now).service.close [request],
        (front ++ [.read file (.crashed message)]) ++ Service.farewell message) := by
      rw [hmove]
      simp [Service.work, runs, taken, Service.proceed, hcrash, tell, note, left]
    have hunwinding : (exchange.advance world now).phase = .unwinding (some request) message := by rw [hmove]
    obtain ⟨moves, hmoves, hcomes⟩ := unwound world now hunwinding
    refine ⟨moves + 1, Nat.succ_le_succ hmoves, ?_⟩
    rw [advanceBy_succ, hwork]
    exact hcomes.preceded (by rw [hmove]; rfl) (by rw [hmove]; rfl)

end

/-- Undisturbed by calls, a free worker comes by its moves to the work of the service. -/
theorem work_by_moves (free : exchange.phase = .free) :
    ∃ moves ≤ 5, ComesTo exchange (exchange.advanceBy world now moves) (exchange.service.work world now) := by
  cases hsession : exchange.service.session? with
  | none =>
    refine ⟨0, by omega, ?_⟩
    constructor <;> simp [advanceBy, after, Service.work, hsession, free]
  | some session =>
    have hruns : exchange.service = { exchange.service with session? := some session } := by rw [← hsession]
    cases hinbox : exchange.service.inbox with
    | nil =>
      have hmove : exchange.advance world now = { exchange with phase := .polling } := by
        simp [advance, free, hsession, hinbox]
      have hpolling : (exchange.advance world now).phase = .polling := by rw [hmove]
      have hservice : (exchange.advance world now).service = { exchange.service with session? := some session } := by
        rw [hmove, ← hruns]
      obtain ⟨moves, hmoves, hcomes⟩ := due_by_moves world now hpolling hservice
      have hwork : exchange.service.work world now = exchange.service.workDue world now session := by
        simp [Service.work, hsession, hinbox]
      refine ⟨moves + 1, by omega, ?_⟩
      rw [advanceBy_succ, hwork]
      exact ⟨hcomes.service, by rw [hcomes.told, hmove], by rw [hcomes.calls, hmove], hcomes.rests⟩
    | cons request inbox =>
      have hmove : exchange.advance world now = { exchange with
          service := { exchange.service with inbox := inbox }
          phase := .holding request } := by
        simp [advance, free, hsession, hinbox]
      have hholding : (exchange.advance world now).phase = .holding request := by rw [hmove]
      obtain ⟨moves, hmoves, hcomes⟩ := handled_by_moves world now hholding hsession hinbox (by rw [hmove])
      refine ⟨moves + 1, by omega, ?_⟩
      rw [advanceBy_succ]
      exact ⟨hcomes.service, by rw [hcomes.told, hmove], by rw [hcomes.calls, hmove], hcomes.rests⟩

end

end Exchange

end TypingsIndex
