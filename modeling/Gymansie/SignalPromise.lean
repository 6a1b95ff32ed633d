import Gymansie.Futures

/-! `SignalPromise` on one thread: a promise and an optional that caches its
future. `getFuture` moves the cached future out and leaves the optional engaged;
`resetPromise` replaces the promise only. -/
namespace Gymansie.SignalPromise
open Futures
universe u
variable {V : Type u}

/-- The members `promise_callback` and `future_callback`, with the shared
states that they and the futures handed out refer to. -/
structure State (V : Type u) where
  heap : Heap V
  promiseCallback : Promise
  futureCallback : Option Future
  deriving DecidableEq

/-- A newly constructed object. -/
def new : State V := ⟨(Promise.make []).2, (Promise.make ([] : Heap V)).1, none⟩

/-- What a call gives back. -/
inductive Outcome where
  | done
  | future (future : Future)
  deriving DecidableEq

def setPromiseValue (value : V) (state : State V) : Except FutureError (State V) :=
  (state.promiseCallback.setValue state.heap value).map fun heap => { state with heap }

/-- The moved-out future, and the object that keeps a moved-from one. -/
def getFuture (state : State V) : Except FutureError (Future × State V) :=
  match state.futureCallback with
  | some future => .ok (future, { state with futureCallback := some .movedFrom })
  | none => state.promiseCallback.getFuture.map fun (future, promise) =>
      (future, ⟨state.heap, promise, some .movedFrom⟩)

/-- Assigning `std::promise()` gives the old shared state up. -/
def resetPromise (state : State V) : State V :=
  let (promise, heap) := Promise.make (state.promiseCallback.abandon state.heap)
  ⟨heap, promise, state.futureCallback⟩

inductive Call (V : Type u) where
  | getFuture
  | setPromiseValue (value : V)
  | resetPromise

/-- A call that raises leaves the object as it was. -/
def Call.apply (state : State V) : Call V → Except FutureError Outcome × State V
  | .getFuture =>
    match SignalPromise.getFuture state with
    | .ok (future, after) => (.ok (.future future), after)
    | .error error => (.error error, state)
  | .setPromiseValue value =>
    match SignalPromise.setPromiseValue value state with
    | .ok after => (.ok .done, after)
    | .error error => (.error error, state)
  | .resetPromise => (.ok .done, SignalPromise.resetPromise state)

def run (state : State V) : List (Call V) → List (Except FutureError Outcome) × State V
  | [] => ([], state)
  | call :: calls =>
    let (outcome, next) := call.apply state
    let (outcomes, last) := run next calls
    (outcome :: outcomes, last)

@[simp]
theorem run_nil (state : State V) : run state [] = ([], state) := rfl

@[simp]
theorem run_cons (state : State V) (call : Call V) (calls : List (Call V)) :
    run state (call :: calls) = ((call.apply state).1 :: (run (call.apply state).2 calls).1,
      (run (call.apply state).2 calls).2) := rfl

/-- The optional is empty until the promise's future is retrieved, and holds a
moved-from future from then on. -/
def Sound (state : State V) : Prop :=
  state.futureCallback = none ∧ state.promiseCallback.retrieved = false ∨
    state.futureCallback = some .movedFrom

theorem sound_new : Sound (new : State V) := .inl ⟨rfl, rfl⟩

theorem setPromiseValue_frame {state after : State V}
    (stored : setPromiseValue value state = .ok after) :
    after.promiseCallback = state.promiseCallback ∧ after.futureCallback = state.futureCallback := by
  unfold setPromiseValue at stored
  cases set : state.promiseCallback.setValue state.heap value with
  | error error => simp [set, Except.map] at stored
  | ok heap =>
    simp only [set, Except.map, Except.ok.injEq] at stored
    subst after
    exact ⟨rfl, rfl⟩

theorem getFuture_fresh {state : State V} (empty : state.futureCallback = none)
    (retrieved : state.promiseCallback.retrieved = false) :
    getFuture state = .ok (⟨some state.promiseCallback.state⟩,
      ⟨state.heap, ⟨state.promiseCallback.state, true⟩, some .movedFrom⟩) := by
  simp [getFuture, empty, Promise.getFuture, retrieved, Except.map]

theorem getFuture_cached {state : State V} (cached : state.futureCallback = some future) :
    getFuture state = .ok (future, { state with futureCallback := some .movedFrom }) := by
  simp only [getFuture, cached]

/-- A call other than `getFuture` leaves the optional alone and retrieves
nothing. -/
theorem apply_frame (state : State V) {call : Call V} (other : call ≠ .getFuture) :
    (call.apply state).2.futureCallback = state.futureCallback ∧
      (state.promiseCallback.retrieved = false →
        (call.apply state).2.promiseCallback.retrieved = false) := by
  cases call with
  | getFuture => contradiction
  | setPromiseValue value =>
    cases stored : setPromiseValue value state with
    | error error => simp only [Call.apply, stored, imp_self, and_self]
    | ok after =>
      obtain ⟨promise, cache⟩ := setPromiseValue_frame stored
      simp only [Call.apply, stored, promise, cache, imp_self, and_self]
  | resetPromise => exact ⟨rfl, fun _ => rfl⟩

theorem apply_getFuture {state : State V} (sound : Sound state) :
    (Call.getFuture.apply state).2.futureCallback = some .movedFrom := by
  rcases sound with ⟨empty, fresh⟩ | cached
  · simp only [Call.apply, getFuture_fresh empty fresh]
  · simp only [Call.apply, getFuture_cached cached]

theorem sound_apply {state : State V} (sound : Sound state) (call : Call V) :
    Sound (call.apply state).2 := by
  by_cases taken : call = .getFuture
  · subst call
    exact .inr (apply_getFuture sound)
  · obtain ⟨cache, retrieved⟩ := apply_frame state taken
    rcases sound with ⟨empty, fresh⟩ | cached
    · exact .inl ⟨cache.trans empty, retrieved fresh⟩
    · exact .inr (cache.trans cached)

theorem sound_run {state : State V} (sound : Sound state) (calls : List (Call V)) :
    Sound (run state calls).2 := by
  induction calls generalizing state with
  | nil => exact sound
  | cons call calls ih => exact ih (sound_apply sound call)

theorem run_without_getFuture {state : State V} {calls : List (Call V)}
    (absent : .getFuture ∉ calls) :
    (run state calls).2.futureCallback = state.futureCallback := by
  induction calls generalizing state with
  | nil => rfl
  | cons call calls ih =>
    obtain ⟨other, rest⟩ := not_or.mp (List.mem_cons.not.mp absent)
    rw [run_cons, ih rest]
    exact (apply_frame state (Ne.symm other)).1

theorem run_with_getFuture {state : State V} {calls : List (Call V)} (sound : Sound state)
    (cached : state.futureCallback = some .movedFrom ∨ .getFuture ∈ calls) :
    (run state calls).2.futureCallback = some .movedFrom := by
  induction calls generalizing state with
  | nil => simpa using cached
  | cons call calls ih =>
    refine ih (sound_apply sound call) ?_
    by_cases taken : call = .getFuture
    · subst call
      exact .inl (apply_getFuture sound)
    · rcases cached with cached | member
      · exact .inl ((apply_frame state taken).1.trans cached)
      · exact .inr (List.mem_of_ne_of_mem (Ne.symm taken) member)

end Gymansie.SignalPromise
