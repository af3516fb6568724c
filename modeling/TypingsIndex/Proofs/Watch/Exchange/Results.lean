import TypingsIndex.Proofs.Watch.Exchange.Answers

/-!
# What clients get

A call for a rebuild has at most one result, and exactly one when the worker has stopped. It is the outcome of the very
rebuild that was called for, or the failure that says that the worker has stopped. A worker that goes on moving gives
every result in time: what a request has to wait for gets less with every move of the worker, and no call of a client
adds to it (`patience`).
-/

set_option autoImplicit false

namespace TypingsIndex

namespace Exchange

variable {exchange : Exchange}

/-! ## Calls and requests -/

/-- The call that a move is, if it is one. -/
def Move.call? : Move → Option (Nat × Ask)
  | .call client ask => some (client, ask)
  | .work .. => none

/-- The worker makes no calls. -/
theorem advance_calls (exchange : Exchange) (world : Surroundings) (now : Nat) :
    (exchange.advance world now).calls = exchange.calls := by
  have hadvanced := advance_advanced world now exchange
  generalize exchange.advance world now = next at hadvanced ⊢
  cases hadvanced <;> rfl

/-- A client that calls adds its call behind the others. -/
theorem take_calls (exchange : Exchange) (client : Nat) (ask : Ask) :
    ∃ taken, (exchange.take client ask).calls = exchange.calls ++ [⟨client, ask, taken⟩] := by
  cases ask with
  | tell command =>
    unfold Exchange.take
    dsimp only
    split <;> exact ⟨_, rfl⟩
  | rebuild =>
    unfold Exchange.take
    dsimp only
    split <;> exact ⟨_, rfl⟩

/-- The calls of an exchange are those that were made, in order. -/
theorem calls_after (exchange : Exchange) (moves : List Move) :
    (exchange.after moves).calls.map (fun call => (call.client, call.ask)) =
      exchange.calls.map (fun call => (call.client, call.ask)) ++ moves.filterMap Move.call? := by
  unfold Exchange.after
  induction moves generalizing exchange with
  | nil => simp
  | cons move moves ih =>
    rw [List.foldl_cons, ih]
    cases move with
    | call client ask =>
      obtain ⟨taken, htaken⟩ := exchange.take_calls client ask
      simp [step, htaken, Move.call?]
    | work world now =>
      rw [step, advance_calls, List.filterMap_cons_none rfl]

/-- The handled requests are those of the first calls. -/
theorem Regular.handled_prefix (regular : exchange.Regular) :
    exchange.handled.map (fun handling => .ok handling.request) <+: exchange.calls.map Call.taken := by
  obtain ⟨lost, late, hline, -⟩ := regular.line
  rw [hline]
  simp only [List.map_append, List.append_assoc, List.map_map]
  exact List.prefix_append _ _

/-- If the handled requests are those of the first calls, then those of a client are of its first calls. -/
theorem handledOf_prefix (client : Nat)
    (first : exchange.handled.map (fun handling => .ok handling.request) <+: exchange.calls.map Call.taken) :
    (exchange.handledOf client).map .ok <+: (exchange.calls.filter (·.client = client)).map Call.taken := by
  obtain ⟨service, phase, calls, handled, told⟩ := exchange
  unfold handledOf
  dsimp only at first ⊢
  induction handled generalizing calls with
  | nil => simp
  | cons handling handled ih =>
    cases calls with
    | nil => simp
    | cons call calls =>
      rw [List.map_cons, List.map_cons, List.cons_prefix_cons] at first
      have hrest := ih calls first.2
      rw [List.zip_cons_cons]
      by_cases hclient : call.client = client
      · rw [List.filter_cons_of_pos (by simpa using hclient), List.filter_cons_of_pos (by simpa using hclient)]
        simp only [List.map_cons]
        rw [List.cons_prefix_cons]
        exact ⟨first.1, hrest⟩
      · rw [List.filter_cons_of_neg (by simpa using hclient), List.filter_cons_of_neg (by simpa using hclient)]
        exact hrest

/-! ## Results -/

/-- A call for a rebuild was refused, or it has a ticket. -/
theorem Regular.rebuild_call (regular : exchange.Regular) {call : Call} (mem : call ∈ exchange.calls)
    (asks : call.ask = .rebuild) :
    call.taken = .error .workerStopped
      ∨ ∃ ticket < exchange.service.tickets, call.taken = .ok ⟨.rebuild, some ticket⟩ := by
  have hfits := regular.fits call mem
  unfold Call.Fits at hfits
  rw [asks] at hfits
  refine hfits.imp_right fun ⟨ticket, htaken⟩ => ⟨ticket, ?_, htaken⟩
  have hticket : ticket ∈ exchange.calls.filterMap Call.ticket? :=
    List.mem_filterMap.mpr ⟨call, mem, by rw [Call.ticket?, htaken]⟩
  rw [regular.handed] at hticket
  exact List.mem_range.mp hticket

/-- The tickets whose results are still to come, in order. -/
def waiting (exchange : Exchange) : List Ticket :=
  Request.tickets (exchange.phase.unanswered ++ exchange.service.inbox)

/-- Only a worker that has stopped refuses a call. -/
theorem Regular.over_of_refused (regular : exchange.Regular) {call : Call} (mem : call ∈ exchange.calls)
    {failure : Failure} (refused : call.taken = .error failure) : exchange.phase.isOver = true := by
  by_contra hopen
  obtain ⟨lost, late, hline, hnone⟩ := regular.line
  obtain ⟨-, rfl⟩ := hnone (by simpa using hopen)
  have htaken := List.mem_map_of_mem (f := Call.taken) mem
  rw [hline, List.replicate_zero, List.append_nil, refused] at htaken
  obtain ⟨request, -, hrequest⟩ := List.mem_map.mp htaken
  cases hrequest

/-- A ticket that was handed out was answered once or has still to be. -/
theorem Regular.count_answers (regular : exchange.Regular) {ticket : Ticket}
    (handed : ticket < exchange.service.tickets) :
    (exchange.service.answers.map Prod.fst).count ticket + exchange.waiting.count ticket = 1 := by
  rw [← List.count_append]
  unfold waiting
  rw [regular.answered]
  exact List.count_eq_one_of_mem List.nodup_range (List.mem_range.mpr handed)

/-- Nobody waits for a worker that has stopped. -/
theorem Regular.waiting_of_over (regular : exchange.Regular) (halted : exchange.phase.isOver = true) :
    exchange.waiting = [] := by
  have hunanswered : exchange.phase.unanswered = [] := by
    cases hphase : exchange.phase <;> simp_all [Phase.isOver, Phase.unanswered]
  unfold waiting
  rw [regular.emptied halted, hunanswered]
  rfl

/-- If the service has no session then the inbox is closed. -/
theorem Regular.over_of_stopped (regular : exchange.Regular) (stopped : exchange.service.isRunning = false) :
    exchange.phase.isOver = true := by
  have hruns := regular.isRunning_eq
  rw [stopped] at hruns
  simpa using hruns.symm

/-- A call has as many results as there are answers to its ticket. -/
theorem length_resultsOf {call : Call} {request : Request} {ticket : Ticket} (taken : call.taken = .ok request)
    (has : request.ticket = some ticket) :
    (exchange.resultsOf call).length = (exchange.service.answers.map Prod.fst).count ticket := by
  unfold resultsOf
  rw [taken, List.count_eq_countP, List.countP_map]
  dsimp only
  rw [has]
  dsimp only
  rw [List.length_map, ← List.countP_eq_length_filter]
  congr 1

/-- A call for a rebuild has at most one result, and one if nobody waits. -/
theorem Regular.results_length (regular : exchange.Regular) {call : Call} (mem : call ∈ exchange.calls)
    (asks : call.ask = .rebuild) :
    (exchange.resultsOf call).length ≤ 1
      ∧ ((∀ ticket, call.ticket? = some ticket → ticket ∉ exchange.waiting) →
        (exchange.resultsOf call).length = 1) := by
  rcases regular.rebuild_call mem asks with hrefused | ⟨ticket, hticket, htaken⟩
  · simp [resultsOf, hrefused]
  · have hcount := regular.count_answers hticket
    rw [← length_resultsOf htaken rfl] at hcount
    refine ⟨by omega, fun hanswered => ?_⟩
    have hnot := hanswered ticket (by rw [Call.ticket?, htaken])
    rw [List.count_eq_zero_of_not_mem hnot] at hcount
    exact hcount

/-- A result says that the worker has stopped, or it is that of the rebuild that was called for. -/
theorem Regular.results_source (regular : exchange.Regular) {call : Call} (mem : call ∈ exchange.calls)
    (asks : call.ask = .rebuild) {result : Except Failure RebuildReport} (found : result ∈ exchange.resultsOf call) :
    (result = .error .workerStopped ∧ exchange.phase.isStopping = true)
      ∨ ∃ handling ∈ exchange.handled, call.taken = .ok handling.request ∧ Calm handling.turn.effects
        ∧ result = (handling.session.rebuild handling.world handling.now).value.2 := by
  rcases regular.rebuild_call mem asks with hrefused | ⟨ticket, -, htaken⟩
  · have hover := regular.over_of_refused mem hrefused
    have hstopping : exchange.phase.isStopping = true := by
      cases hphase : exchange.phase <;> simp_all [Phase.isOver, Phase.isStopping]
    exact .inl ⟨by simpa [resultsOf, hrefused] using found, hstopping⟩
  · unfold resultsOf at found
    rw [htaken] at found
    obtain ⟨answer, hanswer, rfl⟩ := List.mem_map.mp found
    obtain ⟨hanswer, hsame⟩ := List.mem_filter.mp hanswer
    have hticket : answer.1 = ticket := of_decide_eq_true hsame
    refine (regular.source answer hanswer).imp_right ?_
    rintro ⟨handling, hhandled, hrequest, hrest⟩
    exact ⟨handling, hhandled, by rw [htaken, hrequest, hticket], hrest⟩

/-! ## Results in time -/

/-- Where a ticket stands in the inbox. -/
def place (ticket : Ticket) (exchange : Exchange) : Nat :=
  exchange.service.inbox.findIdx fun request => request.ticket = some ticket

/-- The moves that a worker in this phase makes at most before it answers a ticket that stands at a place of the inbox:
three for each request before it, two for its own, and some for what the worker is about to do. -/
def Phase.patience (ticket : Ticket) (place : Nat) : Phase → Nat
  | .free => 3 * place + 3
  | .polling => 3 * place + 4
  | .holding request => if request.ticket = some ticket then 2 else 3 * place + 5
  | .unwinding (some request) _ => if request.ticket = some ticket then 1 else 2
  | .unwinding none _ | .leaving => 1
  | .telling _ | .gone => 0

/-- The moves that the worker makes at most before it answers a ticket. -/
def patience (ticket : Ticket) (exchange : Exchange) : Nat :=
  exchange.phase.patience ticket (exchange.place ticket)

/-- A ticket is among those of requests exactly if one of them has it. -/
theorem mem_tickets {ticket : Ticket} {requests : List Request} :
    ticket ∈ Request.tickets requests ↔ ∃ request ∈ requests, request.ticket = some ticket :=
  List.mem_filterMap

/-- A ticket that is queued stands inside of the inbox. -/
theorem place_lt {ticket : Ticket} (queued : ticket ∈ Request.tickets exchange.service.inbox) :
    exchange.place ticket < exchange.service.inbox.length := by
  obtain ⟨request, hrequest, hticket⟩ := mem_tickets.mp queued
  exact List.findIdx_lt_length_of_exists ⟨request, hrequest, by simpa using hticket⟩

/-- No ticket waits twice. -/
theorem Regular.nodup_waiting (regular : exchange.Regular) : exchange.waiting.Nodup := by
  have hnodup : (List.range exchange.service.tickets).Nodup := List.nodup_range
  rw [← regular.answered] at hnodup
  exact (List.nodup_append.mp hnodup).2.1

/-- A ticket that waits is in the hand of the worker or in the inbox. -/
theorem mem_waiting {ticket : Ticket} :
    ticket ∈ exchange.waiting ↔ (∃ request ∈ exchange.phase.unanswered, request.ticket = some ticket)
      ∨ ticket ∈ Request.tickets exchange.service.inbox := by
  unfold waiting Request.tickets
  rw [List.filterMap_append, List.mem_append, List.mem_filterMap]

/-- A ticket in the hand of the worker is not in the inbox as well. -/
theorem Regular.not_queued (regular : exchange.Regular) {request : Request} {ticket : Ticket}
    (inHand : exchange.phase.unanswered = [request]) (has : request.ticket = some ticket) :
    ticket ∉ Request.tickets exchange.service.inbox := by
  have hnodup := regular.nodup_waiting
  unfold waiting Request.tickets at hnodup
  rw [inHand, List.singleton_append, List.filterMap_cons_some has] at hnodup
  exact (List.nodup_cons.mp hnodup).1

/-- A ticket waits for no more moves than the length of the inbox allows. -/
theorem patience_le {ticket : Ticket} (waits : ticket ∈ exchange.waiting) :
    exchange.patience ticket ≤ 3 * exchange.service.inbox.length + 2 := by
  rw [mem_waiting] at waits
  unfold patience
  cases hphase : exchange.phase with
  | free =>
    have hplace := place_lt (waits.resolve_left (by simp [hphase, Phase.unanswered]))
    simp only [Phase.patience]
    omega
  | polling =>
    have hplace := place_lt (waits.resolve_left (by simp [hphase, Phase.unanswered]))
    simp only [Phase.patience]
    omega
  | holding request =>
    by_cases hticket : request.ticket = some ticket
    · rw [Phase.patience, if_pos hticket]
      omega
    · have hplace := place_lt (waits.resolve_left (by simpa [hphase, Phase.unanswered] using hticket))
      rw [Phase.patience, if_neg hticket]
      omega
  | unwinding inHand message =>
    cases inHand with
    | none => simp only [Phase.patience]; omega
    | some request => simp only [Phase.patience]; split_ifs <;> omega
  | _ => simp only [Phase.patience]; omega

/-- While a ticket waits the inbox is open. -/
theorem Regular.open_of_waits (regular : exchange.Regular) {ticket : Ticket} (waits : ticket ∈ exchange.waiting) :
    exchange.phase.isOver = false := by
  by_contra hover
  rw [regular.waiting_of_over (by simpa using hover)] at waits
  cases waits

/-- A request that is finished leaves the inbox as it is. -/
theorem finish_inbox (exchange : Exchange) (request : Request) (handled : Session.Handled) :
    (exchange.finish request handled).service.inbox = exchange.service.inbox := by
  unfold finish
  cases handled.outcome <;> simp [answer_eq]

/-- A request that is finished moves no ticket in the inbox. -/
theorem finish_place (ticket : Ticket) (exchange : Exchange) (request : Request) (handled : Session.Handled) :
    (exchange.finish request handled).place ticket = exchange.place ticket := by
  rw [place, finish_inbox, place]

/-- With every move of the worker there is less to wait for. -/
theorem Regular.patience_advance (regular : exchange.Regular) {ticket : Ticket} (world : Surroundings) (now : Nat)
    (waited : ticket ∈ exchange.waiting) (waits : ticket ∈ (exchange.advance world now).waiting) :
    (exchange.advance world now).patience ticket < exchange.patience ticket := by
  have hopen := regular.open_of_waits waited
  have hregular := regular.advance world now
  have hadvanced := advance_advanced world now exchange
  generalize exchange.advance world now = next at hadvanced waits hregular ⊢
  -- A request in hand that has the ticket is answered by the move, unless it is kept in hand.
  have hother {request : Request} (inHand : exchange.phase.unanswered = [request])
      (queued : ticket ∈ Request.tickets exchange.service.inbox) : request.ticket ≠ some ticket :=
    fun hticket => regular.not_queued inHand hticket queued
  cases hadvanced with
  | looked free idle =>
    rw [mem_waiting, free, idle] at waited
    simp [Phase.unanswered, Request.tickets] at waited
  | @took request inbox free oldest =>
    have hplace : exchange.place ticket =
        if request.ticket = some ticket then 0
        else inbox.findIdx (fun request => request.ticket = some ticket) + 1 := by
      rw [place, oldest, List.findIdx_cons]
      by_cases hticket : request.ticket = some ticket <;> simp [hticket]
    rw [patience, patience, free, hplace]
    simp only [Phase.patience, place]
    split_ifs <;> omega
  | @handled request session holding runs calm =>
    rw [mem_waiting, finish_inbox] at waits
    have hqueued : ticket ∈ Request.tickets exchange.service.inbox := by
      refine waits.resolve_left ?_
      simp only [finish]
      split_ifs <;> simp [Phase.unanswered]
    have hplace := finish_place ticket ((exchange.note ⟨request, session, world, now⟩).tell
      (session.handle world now request.command).effects) request (session.handle world now request.command).value
    rw [patience, patience, hplace, holding, Phase.patience, if_neg (hother (by rw [holding]; rfl) hqueued)]
    change Phase.patience ticket (exchange.place ticket) _ < _
    simp only [finish]
    split_ifs <;> simp only [Phase.patience] <;> omega
  | @broke request session front file message holding runs crash calm =>
    simp only [patience, holding, Phase.patience]
    split_ifs <;> omega
  | polled polling runs calm =>
    simp only [patience, polling, Phase.patience, place, tell]
    omega
  | stalled polling runs crash calm =>
    simp only [patience, polling, Phase.patience]
    omega
  | left leaving =>
    rw [hregular.waiting_of_over rfl] at waits
    cases waits
  | @dropped request message unwinding =>
    rw [mem_waiting, answer_eq] at waits
    have hqueued := waits.resolve_left (by simp [Phase.unanswered])
    simp only [patience, unwinding, Phase.patience, if_neg (hother (by rw [unwinding]; rfl) hqueued)]
    omega
  | closed unwinding =>
    rw [hregular.waiting_of_over rfl] at waits
    cases waits
  | reported telling => simp [telling, Phase.isOver] at hopen
  | ended gone => simp [gone, Phase.isOver] at hopen
  | stuck halted needed =>
    have hruns := regular.runs_iff
    rw [halted, hopen] at hruns
    cases hruns

/-- A call changes nothing but the end of the inbox and the number of tickets. -/
theorem take_frame (exchange : Exchange) (client : Nat) (ask : Ask) :
    (exchange.take client ask).phase = exchange.phase
      ∧ (exchange.take client ask).told = exchange.told
      ∧ (exchange.take client ask).service.answers = exchange.service.answers
      ∧ exchange.service.tickets ≤ (exchange.take client ask).service.tickets
      ∧ exchange.service.inbox <+: (exchange.take client ask).service.inbox := by
  cases hrunning : exchange.service.isRunning with
  | false =>
    rw [take_of_stopped client ask hrunning]
    exact ⟨rfl, rfl, rfl, Nat.le_refl _, List.prefix_refl _⟩
  | true => cases ask <;> simp [take, Service.post, Service.askRebuild, hrunning]

/-- The worker hands out no tickets, and takes back no answer. -/
theorem advance_answers (exchange : Exchange) (world : Surroundings) (now : Nat) :
    (exchange.advance world now).service.tickets = exchange.service.tickets
      ∧ exchange.service.answers <+: (exchange.advance world now).service.answers := by
  have hadvanced := advance_advanced world now exchange
  generalize exchange.advance world now = next at hadvanced ⊢
  cases hadvanced with
  | handled holding runs calm =>
    unfold finish
    dsimp only
    split <;> simp [answer_eq, tell, note]
  | left leaving => simp [shut, close_eq]
  | closed unwinding => simp [shut, close_eq]
  | dropped unwinding => simp [answer_eq]
  | _ => exact ⟨rfl, List.prefix_refl _⟩

/-- What waits has not been answered, and the other way round. -/
theorem Regular.mem_waiting_iff (regular : exchange.Regular) {ticket : Ticket}
    (handed : ticket < exchange.service.tickets) :
    ticket ∈ exchange.waiting ↔ ticket ∉ exchange.service.answers.map Prod.fst := by
  have hcount := regular.count_answers handed
  rw [← List.count_pos_iff, ← List.count_eq_zero]
  omega

/-- While the inbox is open, a ticket has to wait for one move at least. -/
theorem Phase.patience_pos (ticket : Ticket) (place : Nat) {phase : Phase} (opened : phase.isOver = false) :
    0 < phase.patience ticket place := by
  cases phase with
  | holding request => simp only [Phase.patience]; split_ifs <;> omega
  | unwinding inHand message =>
    cases inHand with
    | none => exact Nat.one_pos
    | some request => simp only [Phase.patience]; split_ifs <;> omega
  | telling message => cases opened
  | gone => cases opened
  | _ => exact Nat.succ_pos _

/-- A later call does not put a ticket off. -/
theorem patience_take {ticket : Ticket} (waits : ticket ∈ exchange.waiting) (client : Nat) (ask : Ask) :
    (exchange.take client ask).patience ticket = exchange.patience ticket := by
  obtain ⟨hphase, -, -, -, rest, hinbox⟩ := exchange.take_frame client ask
  rw [patience, patience, hphase]
  rcases mem_waiting.mp waits with ⟨request, hinHand, hticket⟩ | hqueued
  · cases hexchange : exchange.phase with
    | holding other =>
      rw [hexchange, Phase.unanswered, List.mem_singleton] at hinHand
      rw [Phase.patience, Phase.patience, if_pos (hinHand ▸ hticket), if_pos (hinHand ▸ hticket)]
    | unwinding inHand message => cases inHand <;> rfl
    | _ => simp [hexchange, Phase.unanswered] at hinHand
  · congr 1
    have hplace := place_lt hqueued
    unfold place at hplace ⊢
    rw [← hinbox, List.findIdx_append, if_pos hplace]

/-- A ticket is answered as soon as the worker has made enough moves, whatever is called in the meantime. -/
theorem Regular.answered_in_time (regular : exchange.Regular) {ticket : Ticket}
    (handed : ticket < exchange.service.tickets) (moves : List Move)
    (enough : ticket ∈ exchange.waiting → exchange.patience ticket ≤ moves.countP Move.isWork) :
    ticket ∉ (exchange.after moves).waiting := by
  induction moves generalizing exchange with
  | nil =>
    intro hwaits
    have hnone := enough hwaits
    have hpatience := Phase.patience_pos ticket (exchange.place ticket) (regular.open_of_waits hwaits)
    exact absurd hnone (Nat.not_le.mpr hpatience)
  | cons move moves ih =>
    cases move with
    | call client ask =>
      obtain ⟨-, -, hanswers, htickets, -⟩ := exchange.take_frame client ask
      have hregular := regular.take client ask
      have hlater := Nat.lt_of_lt_of_le handed htickets
      refine ih hregular hlater fun hwaits => ?_
      have hwaited : ticket ∈ exchange.waiting := by
        rw [regular.mem_waiting_iff handed, ← hanswers]
        exact (hregular.mem_waiting_iff hlater).mp hwaits
      have hmoves := enough hwaited
      rw [List.countP_cons_of_neg (by simp [Move.isWork])] at hmoves
      calc (exchange.take client ask).patience ticket = exchange.patience ticket :=
            patience_take hwaited client ask
        _ ≤ moves.countP Move.isWork := hmoves
    | work world now =>
      obtain ⟨htickets, hanswers⟩ := exchange.advance_answers world now
      have hregular := regular.advance world now
      have hlater : ticket < (exchange.advance world now).service.tickets := htickets ▸ handed
      refine ih hregular hlater fun hwaits => ?_
      have hwaited : ticket ∈ exchange.waiting := by
        rw [regular.mem_waiting_iff handed]
        exact fun hanswered => (hregular.mem_waiting_iff hlater).mp hwaits ((hanswers.map Prod.fst).subset hanswered)
      have hmoves := enough hwaited
      rw [List.countP_cons_of_pos rfl] at hmoves
      have hless := regular.patience_advance world now hwaited hwaits
      exact Nat.le_of_lt_succ (Nat.lt_of_lt_of_le hless hmoves)

end Exchange

end TypingsIndex
