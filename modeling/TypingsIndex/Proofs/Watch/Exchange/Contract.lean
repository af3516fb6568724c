import TypingsIndex.Proofs.Watch.Exchange.Results
import TypingsIndex.Proofs.Watch.Naming

/-!
# The contract of a watch service

What clients may rely on, whatever they call and in whatever order clients and worker move (`Exchange.Keeps`): requests
are handled at most once and in order, a call for a rebuild has one result, nobody waits for a worker that has stopped,
and a reading that breaks down is told of once, last of all and after the inbox was closed.
-/

set_option autoImplicit false

namespace TypingsIndex

namespace Exchange

variable {exchange : Exchange}

/-! ## A reading that breaks down -/

/-- What is still to be told of a reading that has broken down. -/
def Phase.untold (message : String) : Phase → List Effect
  | .unwinding .. => Service.farewell message
  | .telling _ => [Service.lastEvent message]
  | _ => []

/-- The moves that the worker still makes once a reading has broken down. -/
def Phase.remaining : Phase → Nat
  | .unwinding (some _) _ => 3
  | .unwinding none _ => 2
  | .telling _ => 1
  | _ => 0

/-- A reading has broken down after these effects, with this message, and the worker ends over it. -/
structure Broken (front : List Effect) (file : Path) (message : String) (exchange : Exchange) : Prop where
  stopping : (∃ inHand, exchange.phase = .unwinding inHand message) ∨ exchange.phase = .telling message
    ∨ exchange.phase = .gone
  told : exchange.told ++ exchange.phase.untold message =
    front ++ .read file (.crashed message) :: Service.farewell message

/-- A reading that has broken down is found where it is. -/
theorem crash_unique {front front' rest rest' : List Effect} {file file' : Path} {message message' : String}
    (calm : Calm front') (calm' : Calm rest')
    (same : front ++ .read file (.crashed message) :: rest = front' ++ .read file' (.crashed message') :: rest') :
    front = front' ∧ file = file' ∧ message = message' ∧ rest = rest' := by
  have hcrash : ∀ effects : List Effect, Calm effects → Effect.read file (.crashed message) ∉ effects :=
    fun effects hcalm hmem => absurd (hcalm _ hmem) (by simp [crash?])
  obtain ⟨hfront, hread, hrest⟩ := (List.append_cons_inj_of_notMem (hcrash _ calm) (hcrash _ calm')).mp same.symm
  cases hread
  exact ⟨hfront.symm, rfl, rfl, hrest.symm⟩

/-- Effects among which a reading breaks down are not calm. -/
theorem not_calm {front rest : List Effect} {file : Path} {message : String} :
    ¬ Calm (front ++ .read file (.crashed message) :: rest) :=
  fun hcalm => absurd (hcalm _ (List.mem_append_right _ List.mem_cons_self)) (by simp [crash?])

/-- The farewell of a worker reads nothing, and so is calm. -/
theorem calm_farewell (message : String) : Calm (Service.farewell message) := by
  intro effect heffect
  simp only [Service.farewell, List.mem_cons, List.not_mem_nil, or_false] at heffect
  rcases heffect with rfl | rfl <;> rfl

/-- If a reading among what was told has broken down, then it was the first to do so, and the worker ends over it. -/
theorem Regular.broken (regular : exchange.Regular) {front rest : List Effect} {file : Path} {message : String}
    (told : exchange.told = front ++ .read file (.crashed message) :: rest) :
    Calm front ∧ exchange.Broken front file message := by
  have htells := regular.told
  cases hphase : exchange.phase with
  | unwinding inHand other =>
    rw [hphase] at htells
    obtain ⟨front', file', hcalm, hsame⟩ := htells
    obtain ⟨rfl, rfl, rfl, rfl⟩ := crash_unique hcalm (fun _ h => absurd h List.not_mem_nil) (told.symm.trans hsame)
    exact ⟨hcalm, .inl ⟨inHand, hphase⟩, by rw [told, hphase, List.append_assoc]; rfl⟩
  | telling other =>
    rw [hphase] at htells
    obtain ⟨front', file', hcalm, hsame⟩ := htells
    have hclose : Calm [.close] := fun _ h => List.mem_singleton.mp h ▸ rfl
    obtain ⟨rfl, rfl, rfl, rfl⟩ := crash_unique hcalm hclose (told.symm.trans hsame)
    exact ⟨hcalm, .inr (.inl hphase), by rw [told, hphase, List.append_assoc]; rfl⟩
  | gone =>
    rw [hphase] at htells
    rcases htells with hcalm | ⟨front', file', message', hcalm, hsame⟩
    · exact absurd (told ▸ hcalm) not_calm
    · obtain ⟨rfl, rfl, rfl, rfl⟩ := crash_unique hcalm (calm_farewell message') (told.symm.trans hsame)
      exact ⟨hcalm, .inr (.inr hphase), by rw [told, hphase]; exact List.append_nil _⟩
  | _ =>
    rw [hphase] at htells
    exact absurd (told ▸ htells) not_calm

/-- A worker that has broken down makes one of its last moves. -/
theorem Broken.advance {front : List Effect} {file : Path} {message : String}
    (broken : exchange.Broken front file message) (world : Surroundings) (now : Nat) :
    (exchange.advance world now).Broken front file message
      ∧ (exchange.advance world now).phase.remaining ≤ exchange.phase.remaining - 1 := by
  have htold := broken.told
  rcases broken.stopping with ⟨inHand, hphase⟩ | hphase | hphase
  · cases inHand with
    | some request =>
      have hmove : exchange.advance world now = { exchange with
          service := exchange.service.answer request (.error .workerStopped)
          phase := .unwinding none message } := by
        simp [Exchange.advance, hphase]
      rw [hmove, hphase]
      rw [hphase] at htold
      exact ⟨⟨.inl ⟨none, rfl⟩, htold⟩, Nat.le_refl _⟩
    | none =>
      have hmove : exchange.advance world now = exchange.shut (.telling message) := by
        simp [Exchange.advance, hphase]
      rw [hmove, hphase]
      rw [hphase] at htold
      exact ⟨⟨.inr (.inl rfl), (List.append_assoc ..).trans htold⟩, Nat.le_refl _⟩
  · have hmove : exchange.advance world now = { exchange with
        phase := .gone
        told := exchange.told ++ [Service.lastEvent message] } := by
      simp [Exchange.advance, hphase]
    rw [hmove, hphase]
    rw [hphase] at htold
    exact ⟨⟨.inr (.inr rfl), (List.append_nil _).trans htold⟩, Nat.le_refl _⟩
  · have hmove : exchange.advance world now = exchange := by
      simp [Exchange.advance, hphase]
    rw [hmove, hphase]
    exact ⟨broken, Nat.le_refl _⟩

/-- Three more moves of the worker tell of a reading that has broken down, whatever is called in the meantime, and
nothing more is told ever after. -/
theorem Broken.after {front : List Effect} {file : Path} {message : String}
    (broken : exchange.Broken front file message) (moves : List Move)
    (enough : exchange.phase.remaining ≤ moves.countP Move.isWork) :
    (exchange.after moves).told = front ++ .read file (.crashed message) :: Service.farewell message := by
  induction moves generalizing exchange with
  | nil =>
    have htold := broken.told
    rcases broken.stopping with ⟨inHand, hphase⟩ | hphase | hphase
    · rw [hphase] at enough
      cases inHand <;> exact absurd enough (by simp [Phase.remaining])
    · rw [hphase] at enough
      exact absurd enough (by simp [Phase.remaining])
    · rw [hphase] at htold
      exact (List.append_nil _).symm.trans htold
  | cons move moves ih =>
    cases move with
    | call client ask =>
      obtain ⟨hphase, htold, -⟩ := exchange.take_frame client ask
      have hbroken : (exchange.take client ask).Broken front file message :=
        ⟨by rw [hphase]; exact broken.stopping, by rw [hphase, htold]; exact broken.told⟩
      rw [List.countP_cons_of_neg (by simp [Move.isWork]), ← hphase] at enough
      exact ih hbroken enough
    | work world now =>
      obtain ⟨hbroken, hremaining⟩ := broken.advance world now
      rw [List.countP_cons_of_pos rfl] at enough
      refine ih hbroken ?_
      calc (exchange.advance world now).phase.remaining ≤ exchange.phase.remaining - 1 := hremaining
        _ ≤ moves.countP Move.isWork := Nat.sub_le_of_le_add enough

/-! ## The contract -/

/-- A worker that has stopped does not start again. -/
theorem Regular.isStopped_after (regular : exchange.Regular) (stopped : exchange.service.isRunning = false)
    (moves : List Move) : (exchange.after moves).service.isRunning = false := by
  induction moves generalizing exchange with
  | nil => exact stopped
  | cons move moves ih =>
    have hover := regular.over_of_stopped stopped
    cases move with
    | call client ask =>
      have hnext : (exchange.take client ask).service.isRunning = false := by
        rw [(regular.take client ask).isRunning_eq, (exchange.take_frame client ask).1, hover]
        rfl
      exact ih (regular.take client ask) hnext
    | work world now =>
      have hstays : (exchange.advance world now).phase.isOver = true := by
        cases hphase : exchange.phase <;> simp_all [Phase.isOver, Exchange.advance]
      have hnext : (exchange.advance world now).service.isRunning = false := by
        rw [(regular.advance world now).isRunning_eq, hstays]
        rfl
      exact ih (regular.advance world now) hnext

/-- No move takes back a call. -/
theorem calls_prefix (exchange : Exchange) (moves : List Move) : exchange.calls <+: (exchange.after moves).calls := by
  induction moves generalizing exchange with
  | nil => exact List.prefix_refl _
  | cons move moves ih =>
    refine List.IsPrefix.trans ?_ (ih (exchange.step move))
    cases move with
    | call client ask =>
      obtain ⟨taken, htaken⟩ := exchange.take_calls client ask
      exact htaken ▸ List.prefix_append _ _
    | work world now => exact exchange.advance_calls world now ▸ List.prefix_refl _

/-- A call for a rebuild has its result as soon as the worker has made enough moves. -/
theorem Regular.results_in_time (regular : exchange.Regular) {call : Call} (mem : call ∈ exchange.calls)
    (asks : call.ask = .rebuild) (moves : List Move)
    (enough : 3 * exchange.service.inbox.length + 2 ≤ moves.countP Move.isWork) :
    ((exchange.after moves).resultsOf call).length = 1 := by
  refine ((regular.after moves).results_length ((exchange.calls_prefix moves).subset mem) asks).2
    fun ticket hticket => ?_
  have hhanded : ticket ∈ exchange.calls.filterMap Call.ticket? := List.mem_filterMap.mpr ⟨call, mem, hticket⟩
  rw [regular.handed] at hhanded
  refine regular.answered_in_time (List.mem_range.mp hhanded) moves fun hwaits => ?_
  calc exchange.patience ticket ≤ 3 * exchange.service.inbox.length + 2 := patience_le hwaits
    _ ≤ moves.countP Move.isWork := enough

/-- What a service promises to its clients once these moves were made. -/
structure Keeps (moves : List Move) (exchange : Exchange) : Prop where
  made : exchange.calls.map (fun call => (call.client, call.ask)) = moves.filterMap Move.call?
  /-- What is asked goes into the inbox, unless the worker has stopped. -/
  fits : ∀ call ∈ exchange.calls, call.Fits
    ∧ (call.taken = .error .workerStopped → exchange.service.isRunning = false)
  tickets : (exchange.calls.filterMap Call.ticket?).Nodup
  /-- The requests that were handled are those of the first calls, each handled once and in order. -/
  handled : exchange.handled.map (fun handling => .ok handling.request) <+: exchange.calls.map Call.taken
  handledOf : ∀ client,
    (exchange.handledOf client).map .ok <+: (exchange.calls.filter (·.client = client)).map Call.taken
  /-- A call for a rebuild has at most one result, one if the worker has stopped, and one as soon as the worker has made
  enough moves. -/
  results : ∀ call ∈ exchange.calls, call.ask = .rebuild →
    (exchange.resultsOf call).length ≤ 1
      ∧ (exchange.service.isRunning = false → (exchange.resultsOf call).length = 1)
      ∧ ∀ more, 3 * exchange.service.inbox.length + 2 ≤ more.countP Move.isWork →
        ((exchange.after more).resultsOf call).length = 1
  /-- A result is that of the rebuild that was called for, or it says that the worker has stopped, and it has. -/
  source : ∀ call ∈ exchange.calls, call.ask = .rebuild → ∀ result ∈ exchange.resultsOf call,
    (result = .error .workerStopped ∧ exchange.phase.isStopping = true)
      ∨ ∃ handling ∈ exchange.handled, call.taken = .ok handling.request ∧ Calm handling.turn.effects
        ∧ result = (handling.session.rebuild handling.world handling.now).value.2
  /-- A worker that has stopped refuses every call from then on. -/
  refuses : exchange.service.isRunning = false → ∀ more client ask,
    ((exchange.after more).take client ask).calls =
      (exchange.after more).calls ++ [⟨client, ask, .error .workerStopped⟩]
  /-- A reading that breaks down is the first to do so. After it nothing is told but that the inbox was closed and, last
  of all, what the reading has said, and three more moves of the worker suffice for that. -/
  breaks : ∀ front file message rest, exchange.told = front ++ .read file (.crashed message) :: rest →
    Calm front ∧ rest <+: Service.farewell message ∧ (rest ≠ [] → exchange.service.isRunning = false)
      ∧ ∀ more, 3 ≤ more.countP Move.isWork →
        (exchange.after more).told = front ++ .read file (.crashed message) :: Service.farewell message

/-- Every request is answered once, whatever the clients call, in whatever order clients and worker move, and whatever
the worker reads. The moves are those of the service itself: a free worker that is left alone comes to `Service.work`
by at most five of them (`work_by_moves`). -/
theorem keeps_after (session : Session) (moves : List Move) : ((start session).after moves).Keeps moves := by
  have hregular := (Regular.start session).after moves
  have hcalls := (start session).calls_after moves
  generalize (start session).after moves = exchange at hregular hcalls ⊢
  have hrunning := hregular.isRunning_eq
  constructor
  case made => exact hcalls
  case fits =>
    refine fun call hcall => ⟨hregular.fits call hcall, fun hrefused => ?_⟩
    rw [hrunning, hregular.over_of_refused hcall hrefused]
    rfl
  case tickets => exact hregular.handed ▸ List.nodup_range
  case handled => exact hregular.handled_prefix
  case handledOf => exact fun client => handledOf_prefix client hregular.handled_prefix
  case results =>
    intro call hcall hasks
    obtain ⟨hmost, hone⟩ := hregular.results_length hcall hasks
    refine ⟨hmost, fun hstopped => hone fun ticket _ => ?_, fun more => hregular.results_in_time hcall hasks more⟩
    rw [hregular.waiting_of_over (hregular.over_of_stopped hstopped)]
    exact List.not_mem_nil
  case source => exact fun call hcall hasks result => hregular.results_source hcall hasks
  case refuses =>
    intro hstopped more client ask
    rw [take_of_stopped client ask (hregular.isStopped_after hstopped more)]
  case breaks =>
    intro front file message rest htold
    obtain ⟨hcalm, hbroken⟩ := hregular.broken htold
    have hrest : rest ++ exchange.phase.untold message = Service.farewell message := by
      have hall := hbroken.told
      rw [htold, List.append_assoc] at hall
      exact (List.cons.inj (List.append_cancel_left hall)).2
    refine ⟨hcalm, ⟨_, hrest⟩, fun hsome => ?_, fun more henough => hbroken.after more (le_trans ?_ henough)⟩
    · rcases hbroken.stopping with ⟨inHand, hphase⟩ | hphase | hphase
      · rw [hphase] at hrest
        exact absurd (List.append_left_eq_self.mp hrest) hsome
      · rw [hrunning, hphase]
        rfl
      · rw [hrunning, hphase]
        rfl
    · unfold Phase.remaining
      split <;> omega

/-- A reading breaks down during a rebuild while a shutdown and another rebuild wait behind it, a third rebuild is
called for before the inbox is closed, and a fourth after: all four calls have their one result. -/
theorem keeps_after_breakdown :
    let file : Path := ⟨"/w/a.d.ts"⟩
    let world := Surroundings.around file fun _ => .crashed "disk on fire"
    let moves : List Move :=
      [.call 0 .rebuild, .call 1 (.tell .shutdown), .call 1 .rebuild, .work world 0, .work world 1, .call 0 .rebuild,
        .work world 2, .work world 3, .call 1 .rebuild, .work world 4]
    let exchange := (start (Session.start world ⟨"/w"⟩ .default {})).after moves
    exchange.Keeps moves
      ∧ exchange.handled.map Handling.request = [⟨.rebuild, some 0⟩]
      ∧ (exchange.calls.filter (·.ask = .rebuild)).map exchange.resultsOf =
        List.replicate 4 [.error .workerStopped]
      ∧ exchange.told.length = 3
      ∧ exchange.phase = .gone := by
  intro file world moves exchange
  exact ⟨keeps_after _ moves, by decide +kernel, by decide +kernel, by decide +kernel, by decide +kernel⟩

end Exchange

end TypingsIndex
