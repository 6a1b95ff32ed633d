import Gymansie.SignalPromise

/-! `resetPromise` against a newly constructed object. Shared states made before
the reset make no difference; the cached future does, as soon as it has been
handed out before and is asked for again. -/
namespace Gymansie.SignalPromise
open Futures
variable {V : Type}

/-- What a caller can tell of a call, once all calls have been made. -/
inductive Observed (V : Type) where
  | raised (error : FutureError)
  | done
  | future (valid : Bool) (delivered : Option V)
  deriving DecidableEq

def observe (heap : Heap V) : Except FutureError Outcome → Observed V
  | .error error => .raised error
  | .ok .done => .done
  | .ok (.future future) => .future future.valid (future.delivers heap)

def observations (state : State V) (calls : List (Call V)) : List (Observed V) :=
  (run state calls).1.map (observe (run state calls).2.heap)

def Outcome.shift (older : Nat) : Outcome → Outcome
  | .done => .done
  | .future taken => .future (taken.shift older)

theorem observe_shift (older heap : Heap V) (outcome : Except FutureError Outcome) :
    observe (older ++ heap) (outcome.map (Outcome.shift older.length)) = observe heap outcome := by
  cases outcome with
  | error error => rfl
  | ok outcome =>
    cases outcome with
    | done => rfl
    | future taken => simp only [observe, Except.map, Outcome.shift, Future.valid_shift,
        Future.delivers_shift]

/-- `a` is `b` above some older shared states, up to the cached futures; these
have been moved from if there are any. -/
structure Shifted (older : Heap V) (a b : State V) : Prop where
  heap : a.heap = older ++ b.heap
  promise : a.promiseCallback = b.promiseCallback.shift older.length
  left : ∀ future, a.futureCallback = some future → future = .movedFrom
  right : ∀ future, b.futureCallback = some future → future = .movedFrom

theorem shifted_setPromiseValue {older : Heap V} {a b : State V} (shifted : Shifted older a b)
    (value : V) :
    setPromiseValue value a = (setPromiseValue value b).map fun after =>
      ⟨older ++ after.heap, a.promiseCallback, a.futureCallback⟩ := by
  unfold setPromiseValue
  rw [shifted.heap, shifted.promise, Promise.setValue_shift]
  cases b.promiseCallback.setValue b.heap value <;> rfl

theorem shifted_resetPromise {older : Heap V} {a b : State V} (shifted : Shifted older a b) :
    Shifted older (resetPromise a) (resetPromise b) := by
  obtain ⟨heap, promise, left, right⟩ := shifted
  refine ⟨?_, ?_, left, right⟩
  · simp only [resetPromise, heap, promise, Promise.make_shift, Promise.abandon_shift]
  · simp only [resetPromise, heap, promise, Promise.abandon_shift, Promise.make_shift]

theorem shifted_apply {older : Heap V} {a b : State V} (shifted : Shifted older a b) (call : Call V)
    (cache : a.futureCallback = b.futureCallback ∨ call ≠ .getFuture) :
    (call.apply a).1 = (call.apply b).1.map (Outcome.shift older.length) ∧
      Shifted older (call.apply a).2 (call.apply b).2 ∧
      (a.futureCallback = b.futureCallback →
        (call.apply a).2.futureCallback = (call.apply b).2.futureCallback) := by
  cases call with
  | setPromiseValue value =>
    have same := shifted_setPromiseValue shifted value
    cases stored : setPromiseValue value b with
    | error error =>
      rw [stored] at same
      simp only [Call.apply, stored, same, Except.map]
      exact ⟨trivial, shifted, fun agree => agree⟩
    | ok after =>
      rw [stored] at same
      obtain ⟨promise, kept⟩ := setPromiseValue_frame stored
      simp only [Call.apply, stored, same, Except.map]
      refine ⟨rfl, ⟨rfl, ?_, shifted.left, ?_⟩, fun agree => agree.trans kept.symm⟩
      · rw [promise, shifted.promise]
      · rw [kept]
        exact shifted.right
  | resetPromise => exact ⟨rfl, shifted_resetPromise shifted, fun agree => agree⟩
  | getFuture =>
    have agree : a.futureCallback = b.futureCallback := cache.resolve_right (fun other => other rfl)
    cases held : b.futureCallback with
    | some future =>
      have moved : future = .movedFrom := shifted.right future held
      simp only [Call.apply, getFuture_cached held, getFuture_cached (agree.trans held), moved]
      refine ⟨rfl, ⟨shifted.heap, shifted.promise, ?_, ?_⟩, fun _ => trivial⟩ <;> simp
    | none =>
      simp only [Call.apply, getFuture, agree, held, shifted.promise, Promise.getFuture_shift]
      cases taken : b.promiseCallback.getFuture with
      | error error => exact ⟨rfl, shifted, fun _ => agree⟩
      | ok pair =>
        refine ⟨rfl, ⟨shifted.heap, rfl, ?_, ?_⟩, fun _ => rfl⟩ <;> simp [Except.map]

/-- A run from shifted states, if the caches agree or are never asked for. -/
theorem shifted_run {older : Heap V} {a b : State V} {calls : List (Call V)}
    (shifted : Shifted older a b)
    (cache : a.futureCallback = b.futureCallback ∨ .getFuture ∉ calls) :
    (run a calls).1 = (run b calls).1.map (Except.map (Outcome.shift older.length)) ∧
      (run a calls).2.heap = older ++ (run b calls).2.heap := by
  induction calls generalizing a b with
  | nil => exact ⟨rfl, shifted.heap⟩
  | cons call calls ih =>
    have first : a.futureCallback = b.futureCallback ∨ call ≠ .getFuture := by
      refine cache.imp_right fun absent => ?_
      rintro rfl
      exact absent List.mem_cons_self
    obtain ⟨outcome, next, agree⟩ := shifted_apply shifted call first
    have rest : (call.apply a).2.futureCallback = (call.apply b).2.futureCallback ∨
        .getFuture ∉ calls :=
      cache.imp agree fun absent member => absent (List.mem_cons_of_mem _ member)
    obtain ⟨outcomes, heap⟩ := ih next rest
    exact ⟨by simp only [run_cons, List.map_cons, outcome, outcomes], heap⟩

theorem shifted_observations {older : Heap V} {a b : State V} {calls : List (Call V)}
    (shifted : Shifted older a b)
    (cache : a.futureCallback = b.futureCallback ∨ .getFuture ∉ calls) :
    observations a calls = observations b calls := by
  obtain ⟨outcomes, heap⟩ := shifted_run shifted cache
  rw [observations, observations, outcomes, heap, List.map_map]
  exact List.map_congr_left fun outcome _ => observe_shift older _ outcome

/-- An object that has handed its future out is told from one that has not by
the next `getFuture`. -/
theorem observed_differ {a b : State V} {calls : List (Call V)}
    (moved : a.futureCallback = some .movedFrom) (empty : b.futureCallback = none)
    (fresh : b.promiseCallback.retrieved = false) (asked : .getFuture ∈ calls) (heap heap' : Heap V) :
    (run a calls).1.map (observe heap) ≠ (run b calls).1.map (observe heap') := by
  induction calls generalizing a b with
  | nil => contradiction
  | cons call calls ih =>
    intro same
    obtain ⟨head, tail⟩ := List.cons.inj same
    by_cases taken : call = .getFuture
    · subst call
      simp [getFuture_cached moved, getFuture_fresh empty fresh, observe, Future.valid,
        Future.movedFrom] at head
    · obtain ⟨cache, -⟩ := apply_frame a taken
      obtain ⟨cache', retrieved⟩ := apply_frame b taken
      exact ih (cache.trans moved) (cache'.trans empty) (retrieved fresh)
        (List.mem_of_ne_of_mem (Ne.symm taken) asked) tail

/-- After a reset the object is a new one above the older shared states, but
for the cache. -/
theorem reset_shifted {state : State V} (sound : Sound state) :
    Shifted (state.promiseCallback.abandon state.heap) (resetPromise state) new := by
  refine ⟨rfl, rfl, ?_, by simp [new]⟩
  intro future held
  change state.futureCallback = some future at held
  rcases sound with ⟨empty, -⟩ | moved
  · simp [empty] at held
  · exact Option.some.inj (held.symm.trans moved)

/-- For every history `h` and every later sequence `s` of calls. -/
theorem reset_as_new_iff (h s : List (Call V)) :
    observations (resetPromise (run new h).2) s = observations new s ↔
      .getFuture ∉ h ∨ .getFuture ∉ s := by
  have sound : Sound (run (new : State V) h).2 := sound_run sound_new h
  have shifted := reset_shifted sound
  constructor
  · intro same
    by_contra both
    obtain ⟨before, after⟩ := not_or.mp both
    have moved : (resetPromise (run (new : State V) h).2).futureCallback = some .movedFrom :=
      run_with_getFuture sound_new (.inr (not_not.mp before))
    exact observed_differ moved rfl rfl (not_not.mp after) _ _ same
  · rintro (before | after)
    · exact shifted_observations shifted (.inl (run_without_getFuture before))
    · exact shifted_observations shifted (.inr after)

theorem reset_future_invalid :
    observations (resetPromise (run (new : State Nat) [.getFuture]).2) [.getFuture] ≠
      observations new [.getFuture] := by
  decide

end Gymansie.SignalPromise
