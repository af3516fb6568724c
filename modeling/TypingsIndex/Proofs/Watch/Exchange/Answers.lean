import Mathlib.Data.List.Nodup
import Mathlib.Data.List.Range
import TypingsIndex.Proofs.Watch.Exchange.Moves

/-!
# Every request is answered once

Whatever the clients call and in whatever order clients and worker move: the requests stand in one line, those that
were handled before the one in hand and that before the inbox; and the tickets that were answered, then that of the
request in hand, then those in the inbox are all tickets that were handed out, in order. Closing the inbox answers
what is left of the line, so that nobody waits for a worker that has stopped.
-/

set_option autoImplicit false

namespace TypingsIndex

/-- The tickets of requests. -/
def Request.tickets (requests : List Request) : List Ticket :=
  requests.filterMap Request.ticket

/-- The ticket of a call, if it got one. -/
def Call.ticket? (call : Call) : Option Ticket :=
  match call.taken with
  | .ok request => request.ticket
  | .error _ => none

/-- A call is refused only by a worker that has stopped, and what is taken of it is what was asked. -/
def Call.Fits (call : Call) : Prop :=
  call.taken = .error .workerStopped ∨
    match call.ask with
    | .tell command => call.taken = .ok ⟨command, none⟩
    | .rebuild => ∃ ticket, call.taken = .ok ⟨.rebuild, some ticket⟩

namespace Exchange

namespace Phase

/-- The inbox is closed. -/
def isOver : Phase → Bool
  | .telling _ | .gone => true
  | _ => false

/-- The worker has broken down or has left. -/
def isStopping : Phase → Bool
  | .unwinding .. | .telling _ | .gone => true
  | _ => false

/-- The request that was taken and is not handled. -/
def unhandled : Phase → List Request
  | .holding request => [request]
  | _ => []

/-- The request that was taken and is not answered. -/
def unanswered : Phase → List Request
  | .holding request => [request]
  | .unwinding (some request) _ => [request]
  | _ => []

/-- What has been told when the worker is where it is: after a reading has broken down only that the inbox was closed
and, last of all, what the reading has said. -/
def Tells (told : List Effect) : Phase → Prop
  | .unwinding _ message => ∃ front file, Calm front ∧ told = front ++ [.read file (.crashed message)]
  | .telling message => ∃ front file, Calm front ∧ told = front ++ [.read file (.crashed message), .close]
  | .gone => Calm told ∨ ∃ front file message, Calm front
      ∧ told = front ++ .read file (.crashed message) :: Service.farewell message
  | _ => Calm told

end Phase

/-- What holds of an exchange between any two moves. -/
structure Regular (exchange : Exchange) : Prop where
  runs_iff : exchange.service.session?.isSome = !exchange.phase.isOver
  emptied : exchange.phase.isOver = true → exchange.service.inbox = []
  fits : ∀ call ∈ exchange.calls, call.Fits
  /-- The calls, in order: those whose requests were handled, the one in hand, those in the inbox, those that were lost
  when it was closed, and those that came too late. -/
  line : ∃ lost late, exchange.calls.map Call.taken =
      (exchange.handled.map Handling.request ++ exchange.phase.unhandled ++ exchange.service.inbox ++ lost).map .ok
        ++ List.replicate late (.error .workerStopped)
    ∧ (exchange.phase.isOver = false → lost = [] ∧ late = 0)
  handed : exchange.calls.filterMap Call.ticket? = List.range exchange.service.tickets
  /-- The tickets, in order: those that were answered, that of the request in hand, and those in the inbox. -/
  answered : exchange.service.answers.map Prod.fst
      ++ Request.tickets (exchange.phase.unanswered ++ exchange.service.inbox) =
    List.range exchange.service.tickets
  rebuilds : ∀ request ∈ exchange.phase.unanswered ++ exchange.service.inbox, request.ticket.isSome = true →
    request.command = .rebuild
  source : ∀ answer ∈ exchange.service.answers,
    answer.2 = .error .workerStopped ∧ exchange.phase.isStopping = true
      ∨ ∃ handling ∈ exchange.handled, handling.request = ⟨.rebuild, some answer.1⟩
        ∧ Calm handling.turn.effects
        ∧ answer.2 = (handling.session.rebuild handling.world handling.now).value.2
  told : exchange.phase.Tells exchange.told

/-- An exchange is regular from the start. -/
theorem Regular.start (session : Session) : (Exchange.start session).Regular where
  runs_iff := rfl
  emptied := fun h => absurd h Bool.false_ne_true
  fits := fun _ h => absurd h List.not_mem_nil
  line := ⟨[], 0, rfl, fun _ => ⟨rfl, rfl⟩⟩
  handed := rfl
  answered := rfl
  rebuilds := fun _ h => absurd h List.not_mem_nil
  source := fun _ h => absurd h List.not_mem_nil
  told := fun _ h => absurd h List.not_mem_nil

/-! ## A call -/

section

variable {exchange : Exchange}

/-- The worker can be called as long as the inbox is open. -/
theorem Regular.isRunning_eq (regular : exchange.Regular) :
    exchange.service.isRunning = !exchange.phase.isOver :=
  regular.runs_iff

/-- A call that comes too late is refused. -/
theorem Regular.refused (regular : exchange.Regular) (client : Nat) (ask : Ask)
    (halted : exchange.phase.isOver = true) :
    ({ exchange with calls := exchange.calls ++ [⟨client, ask, .error .workerStopped⟩] } : Exchange).Regular where
  runs_iff := regular.runs_iff
  emptied := regular.emptied
  fits := by
    intro call hcall
    rcases List.mem_append.mp hcall with hold | hnew
    · exact regular.fits call hold
    · exact .inl (by rw [List.mem_singleton.mp hnew])
  line := by
    obtain ⟨lost, late, hline, -⟩ := regular.line
    refine ⟨lost, late + 1, ?_, fun hnot => absurd halted (by simp [hnot])⟩
    rw [List.map_append, hline, List.append_assoc, List.replicate_succ']
    rfl
  handed := by
    rw [List.filterMap_append, regular.handed]
    exact List.append_nil _
  answered := regular.answered
  rebuilds := regular.rebuilds
  source := regular.source
  told := regular.told

/-- A call that comes in time puts a request into the inbox, with the next ticket if it asks for one. -/
theorem Regular.queued (regular : exchange.Regular) {client tickets : Nat} {ask : Ask} {request : Request}
    (open_ : exchange.phase.isOver = false) (fits : Call.Fits ⟨client, ask, .ok request⟩)
    (next : List.range tickets = List.range exchange.service.tickets ++ request.ticket.toList)
    (rebuilds : request.ticket.isSome = true → request.command = .rebuild) :
    ({ exchange with
      service := { exchange.service with inbox := exchange.service.inbox ++ [request], tickets := tickets }
      calls := exchange.calls ++ [⟨client, ask, .ok request⟩] } : Exchange).Regular where
  runs_iff := regular.runs_iff
  emptied := fun halted => absurd halted (by simp [open_])
  fits := by
    intro call hcall
    rcases List.mem_append.mp hcall with hold | hnew
    · exact regular.fits call hold
    · rw [List.mem_singleton.mp hnew]
      exact fits
  line := by
    obtain ⟨lost, late, hline, hopen⟩ := regular.line
    obtain ⟨rfl, rfl⟩ := hopen open_
    refine ⟨[], 0, ?_, fun _ => ⟨rfl, rfl⟩⟩
    rw [List.map_append, hline]
    simp
  handed := by
    have hticket : Call.ticket? ⟨client, ask, .ok request⟩ = request.ticket := rfl
    rw [List.filterMap_append, regular.handed, next]
    cases hrequest : request.ticket <;> simp [hticket, hrequest]
  answered := by
    change _ ++ Request.tickets (_ ++ (exchange.service.inbox ++ [request])) = List.range tickets
    rw [next, ← regular.answered, ← List.append_assoc exchange.phase.unanswered]
    cases hrequest : request.ticket <;> simp [Request.tickets, hrequest]
  rebuilds := by
    intro other hother
    rw [← List.append_assoc] at hother
    rcases List.mem_append.mp hother with hold | hnew
    · exact regular.rebuilds other hold
    · rw [List.mem_singleton.mp hnew]
      exact rebuilds
  source := regular.source
  told := regular.told

/-- A worker that has stopped refuses every call. -/
theorem take_of_stopped (client : Nat) (ask : Ask) (halted : exchange.service.isRunning = false) :
    exchange.take client ask =
      { exchange with calls := exchange.calls ++ [⟨client, ask, .error .workerStopped⟩] } := by
  cases ask <;> simp [Exchange.take, Service.post, Service.askRebuild, halted]

/-- A call keeps an exchange regular. -/
theorem Regular.take (regular : exchange.Regular) (client : Nat) (ask : Ask) : (exchange.take client ask).Regular := by
  have hruns := regular.isRunning_eq
  cases hover : exchange.phase.isOver with
  | true =>
    rw [take_of_stopped client ask (by rw [hruns, hover]; rfl)]
    exact regular.refused client ask hover
  | false =>
    have hrunning : exchange.service.isRunning = true := by rw [hruns, hover]; rfl
    cases ask with
    | tell command =>
      have hfits : Call.Fits ⟨client, .tell command, .ok ⟨command, none⟩⟩ := .inr rfl
      have hqueued := regular.queued hover hfits (List.append_nil _).symm (fun h => absurd h Bool.false_ne_true)
      simpa [Exchange.take, Service.post, hrunning] using hqueued
    | rebuild =>
      have hfits : Call.Fits ⟨client, .rebuild, .ok ⟨.rebuild, some exchange.service.tickets⟩⟩ := .inr ⟨_, rfl⟩
      have hqueued := regular.queued hover hfits List.range_succ (fun _ => rfl)
      simpa [Exchange.take, Service.askRebuild, hrunning] using hqueued

/-! ## A move of the worker -/

/-- Only a rebuild has an outcome, and only a request for a rebuild has a ticket. -/
theorem finish_service (exchange : Exchange) (handling : Handling)
    (rebuilds : handling.request.ticket.isSome = true → handling.request.command = .rebuild) :
    (exchange.finish handling.request handling.turn.value).service =
      { exchange.service with
        session? := some handling.turn.value.session
        answers := exchange.service.answers ++ (handling.request.ticket.map fun ticket =>
          (ticket, (handling.session.rebuild handling.world handling.now).value.2)).toList } := by
  cases hticket : handling.request.ticket with
  | none =>
    unfold finish
    cases handling.turn.value.outcome <;> simp [answer_eq, hticket]
  | some ticket =>
    have hcommand : handling.request.command = .rebuild := rebuilds (by rw [hticket]; rfl)
    have houtcome : handling.turn.value.outcome =
        some (handling.session.rebuild handling.world handling.now).value.2 := by
      unfold Handling.turn
      rw [hcommand]
      rfl
    simp [finish, houtcome, answer_eq, hticket]

/-- Effects are calm exactly if those of both parts are. -/
theorem calm_append {front rest : List Effect} : Calm (front ++ rest) ↔ Calm front ∧ Calm rest :=
  List.forall_mem_append

/-- What closing the inbox answers are the tickets of the requests that are left. -/
theorem stopped_tickets (requests : List Request) : (stopped requests).map Prod.fst = Request.tickets requests := by
  unfold stopped Request.tickets
  rw [List.map_filterMap]
  congr 1
  funext request
  cases request.ticket <;> rfl

/-- Who has a ticket of a request that is dropped hears that the worker has stopped. -/
theorem eq_stopped {requests : List Request} {answer : Ticket × Except Failure RebuildReport}
    (mem : answer ∈ stopped requests) : answer.2 = .error .workerStopped := by
  obtain ⟨request, -, hanswer⟩ := List.mem_filterMap.mp mem
  obtain ⟨ticket, -, rfl⟩ := Option.map_eq_some_iff.mp hanswer
  rfl

/-- The worker handles the request in hand, and no reading breaks down. -/
theorem Regular.handled (regular : exchange.Regular) (handling : Handling)
    (holding : exchange.phase = .holding handling.request) (calm : Calm handling.turn.effects) :
    (((exchange.note handling).tell handling.turn.effects).finish handling.request handling.turn.value).Regular := by
  obtain ⟨service, phase, calls, handled, told⟩ := exchange
  obtain rfl : phase = .holding handling.request := holding
  have hrebuilds := regular.rebuilds handling.request List.mem_cons_self
  obtain ⟨lost, late, hline, hopen⟩ := regular.line
  obtain ⟨rfl, rfl⟩ := hopen rfl
  have hservice := finish_service (((⟨service, .holding handling.request, calls, handled, told⟩ : Exchange).note
    handling).tell handling.turn.effects) handling hrebuilds
  -- Only the parts of the next exchange matter from here on, and it is taken for any exchange that has them.
  generalize hafter : Exchange.finish _ _ _ = after at hservice ⊢
  have hphase : after.phase = if handling.turn.value.stops then .leaving else .polling := by rw [← hafter]; rfl
  have hover : after.phase.isOver = false := by rw [hphase]; split <;> rfl
  have hunhandled : after.phase.unhandled = [] := by rw [hphase]; split <;> rfl
  have hunanswered : after.phase.unanswered = [] := by rw [hphase]; split <;> rfl
  have hcalls : after.calls = calls := by rw [← hafter]; rfl
  have hhandled : after.handled = handled ++ [handling] := by rw [← hafter]; rfl
  have htold : after.told = told ++ handling.turn.effects := by rw [← hafter]; rfl
  constructor
  case runs_iff => rw [hservice, hover]; rfl
  case emptied => exact fun h => absurd h (by simp [hover])
  case fits => rw [hcalls]; exact regular.fits
  case line =>
    refine ⟨[], 0, ?_, fun _ => ⟨rfl, rfl⟩⟩
    rw [hcalls, hline, hhandled, hservice, hunhandled]
    simp [Phase.unhandled, tell, note]
  case handed => rw [hcalls, hservice]; exact regular.handed
  case answered =>
    rw [hservice, hunanswered]
    refine Eq.trans ?_ regular.answered
    cases hticket : handling.request.ticket <;>
      simp [Request.tickets, Phase.unanswered, tell, note, hticket]
  case rebuilds =>
    rw [hunanswered, hservice]
    exact fun request hrequest => regular.rebuilds request (List.mem_cons_of_mem _ hrequest)
  case source =>
    rw [hservice, hhandled]
    intro answer hanswer
    rcases List.mem_append.mp hanswer with hold | hnew
    · rcases regular.source answer hold with ⟨-, hstopping⟩ | ⟨other, hother, hrest⟩
      · exact absurd hstopping Bool.false_ne_true
      · exact .inr ⟨other, List.mem_append_left _ hother, hrest⟩
    · obtain ⟨ticket, hticket, rfl⟩ := Option.map_eq_some_iff.mp (Option.mem_toList.mp hnew)
      -- Only a rebuild has a ticket, so that the new answer is the outcome of a rebuild.
      refine .inr ⟨handling, List.mem_append_right _ (List.mem_singleton.mpr rfl), ?_, calm, rfl⟩
      have hcommand := hrebuilds (by rw [hticket]; rfl)
      obtain ⟨⟨command, ticket'⟩, session, world, now⟩ := handling
      obtain rfl : command = .rebuild := hcommand
      obtain rfl : ticket' = some ticket := hticket
      rfl
  case told =>
    have hcalm : Calm after.told := by
      rw [htold]
      exact calm_append.mpr ⟨regular.told, calm⟩
    rw [hphase]
    split <;> exact hcalm

/-- The inbox is closed. -/
theorem Regular.shut (regular : exchange.Regular) (next : Phase) (open_ : exchange.phase.isOver = false)
    (idle : exchange.phase.unanswered = []) (halted : next.isOver = true) (stopping : next.isStopping = true)
    (unhandled : next.unhandled = []) (unanswered : next.unanswered = [])
    (tells : next.Tells (exchange.told ++ [.close])) :
    (exchange.shut next).Regular := by
  have hidle : exchange.phase.unhandled = [] := by
    cases hphase : exchange.phase <;> simp_all [Phase.unhandled, Phase.unanswered]
  obtain ⟨lost, late, hline, hopen⟩ := regular.line
  obtain ⟨rfl, rfl⟩ := hopen open_
  unfold Exchange.shut
  rw [close_eq]
  constructor
  case runs_iff => rw [halted]; rfl
  case emptied => exact fun _ => rfl
  case fits => exact regular.fits
  case line =>
    refine ⟨exchange.service.inbox, 0, ?_, fun h => absurd halted (by simp [h])⟩
    rw [hline, hidle, unhandled]
    simp
  case handed => exact regular.handed
  case answered =>
    refine Eq.trans ?_ regular.answered
    simp [unanswered, idle, stopped_tickets, Request.tickets]
  case rebuilds => simp [unanswered]
  case source =>
    intro answer hanswer
    rcases List.mem_append.mp hanswer with hold | hnew
    · rcases regular.source answer hold with ⟨herror, -⟩ | hhandled
      · exact .inl ⟨herror, stopping⟩
      · exact .inr hhandled
    · exact .inl ⟨eq_stopped hnew, stopping⟩
  case told => exact tells

/-- A reading breaks down while the request in hand is handled. -/
theorem Regular.broke (regular : exchange.Regular) (handling : Handling) {front : List Effect} (file : Path)
    (message : String) (holding : exchange.phase = .holding handling.request) (calm : Calm front) :
    ({ (exchange.note handling).tell (front ++ [.read file (.crashed message)]) with
      phase := .unwinding (some handling.request) message } : Exchange).Regular := by
  obtain ⟨service, phase, calls, handled, told⟩ := exchange
  obtain rfl : phase = .holding handling.request := holding
  obtain ⟨lost, late, hline, hopen⟩ := regular.line
  obtain ⟨rfl, rfl⟩ := hopen rfl
  constructor
  case runs_iff => exact regular.runs_iff
  case emptied => exact regular.emptied
  case fits => exact regular.fits
  case line =>
    refine ⟨[], 0, ?_, fun _ => ⟨rfl, rfl⟩⟩
    rw [show Exchange.calls _ = calls from rfl, hline]
    simp [Phase.unhandled, note, tell]
  case handed => exact regular.handed
  case answered => exact regular.answered
  case rebuilds => exact regular.rebuilds
  case source =>
    intro answer hanswer
    rcases regular.source answer hanswer with ⟨-, hstopping⟩ | ⟨other, hother, hrest⟩
    · exact absurd hstopping Bool.false_ne_true
    · exact .inr ⟨other, List.mem_append_left _ hother, hrest⟩
  case told =>
    exact ⟨told ++ front, file, calm_append.mpr ⟨regular.told, calm⟩, (List.append_assoc ..).symm⟩

/-- A request in hand is dropped when a reading has broken down. -/
theorem Regular.dropped (regular : exchange.Regular) {request : Request} {message : String}
    (unwinding : exchange.phase = .unwinding (some request) message) :
    ({ exchange with
      service := exchange.service.answer request (.error .workerStopped)
      phase := .unwinding none message } : Exchange).Regular := by
  obtain ⟨service, phase, calls, handled, told⟩ := exchange
  obtain rfl : phase = .unwinding (some request) message := unwinding
  rw [answer_eq]
  constructor
  case runs_iff => exact regular.runs_iff
  case emptied => exact regular.emptied
  case fits => exact regular.fits
  case line => exact regular.line
  case handed => exact regular.handed
  case answered =>
    refine Eq.trans ?_ regular.answered
    cases hticket : request.ticket <;> simp [Phase.unanswered, Request.tickets, hticket]
  case rebuilds => exact fun other hother => regular.rebuilds other (List.mem_cons_of_mem _ hother)
  case source =>
    intro answer hanswer
    rcases List.mem_append.mp hanswer with hold | hnew
    · exact regular.source answer hold
    · obtain ⟨ticket, -, rfl⟩ := Option.map_eq_some_iff.mp (Option.mem_toList.mp hnew)
      exact .inl ⟨rfl, rfl⟩
  case told => exact regular.told

/-- A move of the worker keeps an exchange regular. -/
theorem Regular.advance (regular : exchange.Regular) (world : Surroundings) (now : Nat) :
    (exchange.advance world now).Regular := by
  have hadvanced := advance_advanced world now exchange
  generalize exchange.advance world now = next at hadvanced ⊢
  cases hadvanced with
  | looked free idle =>
    obtain ⟨service, phase, calls, handled, told⟩ := exchange
    obtain rfl : phase = .free := free
    exact { regular with }
  | took free oldest =>
    obtain ⟨service, phase, calls, handled, told⟩ := exchange
    obtain rfl : phase = .free := free
    obtain ⟨session?, published, inbox, tickets, answers⟩ := service
    obtain rfl := oldest
    -- While the inbox is open nothing was lost, so that the request in hand is the oldest that is not handled.
    obtain ⟨lost, late, hline, hopen⟩ := regular.line
    obtain ⟨rfl, rfl⟩ := hopen rfl
    exact { regular with
      emptied := fun h => absurd h Bool.false_ne_true
      line := ⟨[], 0, by rw [hline]; simp [Phase.unhandled], fun _ => ⟨rfl, rfl⟩⟩ }
  | handled holding runs calm => exact regular.handled ⟨_, _, world, now⟩ holding calm
  | broke holding runs crash calm => exact regular.broke ⟨_, _, world, now⟩ _ _ holding calm
  | polled polling runs calm =>
    obtain ⟨service, phase, calls, handled, told⟩ := exchange
    obtain rfl : phase = .polling := polling
    exact { regular with
      runs_iff := rfl
      told := calm_append.mpr ⟨regular.told, calm⟩ }
  | stalled polling runs crash calm =>
    obtain ⟨service, phase, calls, handled, told⟩ := exchange
    obtain rfl : phase = .polling := polling
    exact { regular with
      source := by
        intro answer hanswer
        -- A worker that polls is not stopping, so that every answer so far is the outcome of a rebuild.
        rcases regular.source answer hanswer with ⟨-, hstopping⟩ | hhandled
        · exact absurd hstopping Bool.false_ne_true
        · exact .inr hhandled
      told := ⟨_, _, calm_append.mpr ⟨regular.told, calm⟩, (List.append_assoc ..).symm⟩ }
  | left leaving =>
    have hcalm : Calm exchange.told := by
      have htold := regular.told
      rw [leaving] at htold
      exact htold
    exact regular.shut .gone (by rw [leaving]; rfl) (by rw [leaving]; rfl) rfl rfl rfl rfl
      (.inl (calm_append.mpr ⟨hcalm, fun _ h => List.mem_singleton.mp h ▸ rfl⟩))
  | dropped unwinding => exact regular.dropped unwinding
  | closed unwinding =>
    have htold := regular.told
    rw [unwinding] at htold
    obtain ⟨front, file, hcalm, hfront⟩ := htold
    exact regular.shut (.telling _) (by rw [unwinding]; rfl) (by rw [unwinding]; rfl) rfl rfl rfl rfl
      ⟨front, file, hcalm, by rw [hfront, List.append_assoc]; rfl⟩
  | reported telling =>
    obtain ⟨service, phase, calls, handled, told⟩ := exchange
    obtain ⟨message, rfl⟩ : ∃ message, phase = .telling message := ⟨_, telling⟩
    obtain rfl := Phase.telling.inj telling
    obtain ⟨front, file, hcalm, hfront⟩ := regular.told
    exact { regular with
      told := .inr ⟨front, file, message, hcalm, by
        change told ++ _ = _
        rw [show told = _ from hfront, List.append_assoc]
        rfl⟩ }
  | ended gone => exact regular
  | stuck halted needed => exact regular

/-- Whatever the clients call and in whatever order clients and worker move, the exchange is regular. -/
theorem Regular.after (regular : exchange.Regular) (moves : List Move) : (exchange.after moves).Regular := by
  unfold Exchange.after
  induction moves generalizing exchange with
  | nil => exact regular
  | cons move moves ih =>
    cases move with
    | call client ask => exact ih (regular.take client ask)
    | work world now => exact ih (regular.advance world now)

end

end Exchange

end TypingsIndex
