import Gymansie.PromiseRuns
import Gymansie.Sections

/-! One `SignalPromise` on any number of threads. `setPromiseValue` and
`getFuture` run their statements under `promise_mutex`, so calls that interleave
do what they would do one after another, in the order in which they release it:
the first value set stays, and the first future is the only valid one. A call
that comes later in that order may return earlier. `resetPromise` takes no lock
and is left out. -/
namespace Gymansie.SignalPromise
open Futures
variable {V Thread : Type}

inductive LockedCall (V : Type) where
  | getFuture
  | setPromiseValue (value : V)

def LockedCall.call : LockedCall V → Call V
  | .getFuture => .getFuture
  | .setPromiseValue value => .setPromiseValue value

/-- The statements behind the lockers. -/
inductive Point (V : Type) where
  -- `if (!this->future_callback.has_value())`
  | check
  -- `this->promise_callback.get_future()`
  | retrieve
  -- `this->future_callback = ...`
  | assign (future : Future)
  -- `return std::move(*this->future_callback)`
  | move
  -- `this->promise_callback.set_value(value)`
  | set (value : V)

def nextStatement (point : Point V) (state : State V) :
    (Point V ⊕ Except FutureError Outcome) × State V :=
  match point with
  | .check => (.inl (if state.futureCallback.isSome then .move else .retrieve), state)
  | .retrieve =>
    match state.promiseCallback.getFuture with
    | .ok (future, promise) => (.inl (.assign future), { state with promiseCallback := promise })
    | .error error => (.inr (.error error), state)
  | .assign future => (.inl .move, { state with futureCallback := some future })
  | .move =>
    match state.futureCallback with
    | some future => (.inr (.ok (.future future)), { state with futureCallback := some .movedFrom })
    -- an empty optional is never dereferenced
    | none => (.inr (.ok (.future .movedFrom)), state)
  | .set value =>
    match state.promiseCallback.setValue state.heap value with
    | .ok heap => (.inr (.ok .done), { state with heap })
    | .error error => (.inr (.error error), state)

def statements : Sections.Statements (State V) (LockedCall V) (Point V) (Except FutureError Outcome) where
  enter
    | .getFuture => .inl .check
    | .setPromiseValue value => .inl (.set value)
  next := nextStatement

theorem performs_apply (state : State V) (op : LockedCall V) :
    Sections.Performs statements op state (op.call.apply state).1 (op.call.apply state).2 := by
  cases op with
  | setPromiseValue value =>
    refine (Sections.performs_locked rfl).mpr (.last ?_)
    change nextStatement (.set value) state = _
    cases stored : state.promiseCallback.setValue state.heap value <;>
      simp [nextStatement, stored, LockedCall.call, Call.apply, setPromiseValue, Except.map]
  | getFuture =>
    rw [Sections.performs_locked rfl]
    cases cached : state.futureCallback with
    | some future =>
      have check : nextStatement .check state = (.inl .move, state) := by simp [nextStatement, cached]
      refine .next check (.last ?_)
      change nextStatement .move state = _
      simp [nextStatement, cached, LockedCall.call, Call.apply, getFuture]
    | none =>
      have check : nextStatement .check state = (.inl .retrieve, state) := by
        simp [nextStatement, cached]
      refine .next check ?_
      cases taken : state.promiseCallback.getFuture with
      | error error =>
        refine .last ?_
        change nextStatement .retrieve state = _
        simp [nextStatement, taken, LockedCall.call, Call.apply, getFuture, cached, Except.map]
      | ok pair =>
        obtain ⟨future, promise⟩ := pair
        have retrieve : nextStatement .retrieve state =
            (.inl (.assign future), { state with promiseCallback := promise }) := by
          simp [nextStatement, taken]
        have assign : nextStatement (.assign future) { state with promiseCallback := promise } =
            (.inl .move, ⟨state.heap, promise, some future⟩) := rfl
        refine .next retrieve (.next assign (.last ?_))
        change nextStatement .move ⟨state.heap, promise, some future⟩ = _
        simp [nextStatement, taken, LockedCall.call, Call.apply, getFuture, cached, Except.map]

theorem sequential_run {state after : State V}
    {log : List (Sections.Answered (LockedCall V) (Except FutureError Outcome) Thread)}
    (sequential : Sections.Sequential statements state log after) :
    run state (log.map (·.op.call)) = (log.map (·.result), after) := by
  induction sequential with
  | done => rfl
  | @next s call t log u performed rest ih =>
    obtain ⟨result, same⟩ := Sections.performs_unique (performs_apply s call.op) performed
    rw [List.map_cons, List.map_cons, run_cons, result, same, ih]

/-! ### Who wins -/

def LockedCall.asks : LockedCall V → Bool
  | .getFuture => true
  | .setPromiseValue _ => false

def LockedCall.value? : LockedCall V → Option V
  | .getFuture => none
  | .setPromiseValue value => some value

/-- A new object after the calls: it keeps the first value set, and its future
has gone out with the first call that asked for it. -/
def reached (calls : List (LockedCall V)) : State V :=
  let asked := calls.any LockedCall.asks
  ⟨[((calls.findSome? LockedCall.value?).map SharedState.ready).getD .pending], ⟨0, asked⟩,
    if asked then some .movedFrom else none⟩

def answer (earlier : List (LockedCall V)) : LockedCall V → Except FutureError Outcome
  | .setPromiseValue _ =>
    if (earlier.findSome? LockedCall.value?).isSome then .error .promiseAlreadySatisfied else .ok .done
  | .getFuture => .ok (.future (if earlier.any LockedCall.asks then .movedFrom else ⟨some 0⟩))

theorem apply_reached (calls : List (LockedCall V)) (last : LockedCall V) :
    last.call.apply (reached calls) = (answer calls last, reached (calls ++ [last])) := by
  cases last with
  | getFuture =>
    cases asked : calls.any LockedCall.asks <;>
      simp [reached, answer, asked, LockedCall.call, Call.apply, getFuture, Promise.getFuture,
        Except.map, LockedCall.asks, LockedCall.value?, List.findSome?_append]
  | setPromiseValue value =>
    cases first : calls.findSome? LockedCall.value? <;>
      simp [reached, answer, first, LockedCall.call, Call.apply, setPromiseValue, Promise.setValue,
        Except.map, LockedCall.asks, LockedCall.value?, List.findSome?_append]

theorem performs_reached (calls : List (LockedCall V)) (op : LockedCall V) :
    Sections.Performs statements op (reached calls) (answer calls op) (reached (calls ++ [op])) := by
  have performed := performs_apply (reached calls) op
  rwa [apply_reached] at performed

/-- Two threads set a value while a third one takes the future. The value that
comes too late is reported first. -/
def race : List (Sections.Event (LockedCall Nat) (Except FutureError Outcome) Nat) :=
  [.call 1 (.setPromiseValue 5), .call 2 .getFuture, .lock 2, .work 2, .call 3 (.setPromiseValue 6),
    .work 2, .work 2, .work 2, .release ⟨2, .getFuture, .ok (.future ⟨some 0⟩)⟩, .lock 3, .work 3,
    .release ⟨3, .setPromiseValue 6, .ok .done⟩, .lock 1, .work 1,
    .release ⟨1, .setPromiseValue 5, .error .promiseAlreadySatisfied⟩,
    .returned ⟨1, .setPromiseValue 5, .error .promiseAlreadySatisfied⟩,
    .returned ⟨2, .getFuture, .ok (.future ⟨some 0⟩)⟩]

theorem race_run : ∃ d, Runs.Run (Sections.Step statements) (Sections.start new) race d ∧
    d.owner = none :=
  ⟨_, .next (.call rfl) (.next (.call rfl) (.next (.lock rfl rfl rfl) (.next (.work rfl rfl)
    (.next (.call rfl) (.next (.work rfl rfl) (.next (.work rfl rfl) (.next (.last rfl rfl)
    (.next (.release rfl) (.next (.lock rfl rfl rfl) (.next (.last rfl rfl) (.next (.release rfl)
    (.next (.lock rfl rfl rfl) (.next (.last rfl rfl) (.next (.release rfl) (.next (.returned rfl)
    (.next (.returned rfl) (.done _))))))))))))))))), rfl⟩

section Threads
variable [DecidableEq Thread]
  {events : List (Sections.Event (LockedCall V) (Except FutureError Outcome) Thread)}
  {d : Sections.Config (State V) (LockedCall V) (Point V) (Except FutureError Outcome) Thread}

/-- For every object, any number of threads and every interleaving of their
statements: the results are those of one call after another, in the order in
which the calls release the mutex, each thread is handed its own in that order,
and the object is left in the same state. -/
theorem threads_take_turns {state : State V}
    (interleaved : Runs.Run (Sections.Step statements) (Sections.start state) events d) :
    (Sections.history events).map (·.result) =
        (run state ((Sections.history events).map (·.op.call))).1 ∧
      (∀ t, Sections.own t (Sections.history events) =
        Sections.own t (Sections.returns events) ++ d.returning t) ∧
      (d.owner = none → d.shared = (run state ((Sections.history events).map (·.op.call))).2) := by
  obtain ⟨after, sequential, since⟩ := Sections.run_sequential (Sections.since_start state) interleaved
  rw [sequential_run sequential]
  exact ⟨rfl, Sections.start_returns interleaved, since.outside⟩

theorem race_in_turn : ∃ d : Sections.Config _ _ (Point Nat) _ Nat,
    Runs.Run (Sections.Step statements) (Sections.start new) race d ∧
      [.ok (.future ⟨some 0⟩), .ok .done, .error .promiseAlreadySatisfied] =
        (run (new : State Nat) [.getFuture, .setPromiseValue 6, .setPromiseValue 5]).1 := by
  obtain ⟨d, interleaved, -⟩ := race_run
  exact ⟨d, interleaved, (threads_take_turns interleaved).1⟩

/-- On a new object, in every interleaving: the first `setPromiseValue` to
release the mutex succeeds and all others raise, the first `getFuture` to release
it gets the only valid future and none raises, each thread is handed its results
in that order, and the first value is what that future delivers. -/
theorem first_calls_win
    (interleaved : Runs.Run (Sections.Step statements) (Sections.start new) events d) :
    (∀ before call after, Sections.history events = before ++ call :: after →
        call.result = answer (before.map (·.op)) call.op) ∧
      (∀ t, Sections.own t (Sections.history events) =
        Sections.own t (Sections.returns events) ++ d.returning t) ∧
      (d.owner = none → d.shared = reached ((Sections.history events).map (·.op)) ∧
        (⟨some 0⟩ : Future).delivers d.shared.heap =
          ((Sections.history events).map (·.op)).findSome? LockedCall.value?) := by
  obtain ⟨answers, left⟩ := Sections.run_answers performs_reached interleaved
  refine ⟨answers, Sections.start_returns interleaved, ?_⟩
  intro free
  rw [left free]
  refine ⟨rfl, ?_⟩
  cases first : ((Sections.history events).map (·.op)).findSome? LockedCall.value? <;>
    simp [reached, first, Future.delivers]

theorem race_won : ∃ d : Sections.Config _ _ (Point Nat) _ Nat,
    Runs.Run (Sections.Step statements) (Sections.start new) race d ∧
      (⟨some 0⟩ : Future).delivers d.shared.heap = some 6 := by
  obtain ⟨d, interleaved, free⟩ := race_run
  exact ⟨d, interleaved, ((first_calls_win interleaved).2.2 free).2⟩

end Threads

end Gymansie.SignalPromise
