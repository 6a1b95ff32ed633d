import Gymansie.Runs
import Gymansie.SignalPromise
import Mathlib.Data.List.Induction

/-! Histories of calls on one `SignalPromise`: when `setPromiseValue` raises,
that `getFuture` never does, and which of the futures handed out are usable. The
shared state of the current promise is pending or ready, and it is ready exactly
when a value was set since the last reset. -/
namespace Gymansie.SignalPromise
open Futures Runs
variable {V : Type}

/-- The shared state of the current promise. -/
def current (state : State V) : Option (SharedState V) :=
  state.heap[state.promiseCallback.state]?

/-- Some `setPromiseValue` succeeded and no reset came after it. -/
def Settled (calls : List (Call V)) : Prop :=
  ∃ before value after, calls = before ++ .setPromiseValue value :: after ∧
    .resetPromise ∉ after ∧
    ((Call.setPromiseValue value).apply (run new before).2).1 = .ok .done

theorem run_snoc (state : State V) (calls : List (Call V)) (call : Call V) :
    (run state (calls ++ [call])).2 = (call.apply (run state calls).2).2 := by
  induction calls generalizing state with
  | nil => rfl
  | cons first calls ih => exact ih (first.apply state).2

theorem set_pending {state : State V} (pending : current state = some .pending) (value : V) :
    (Call.setPromiseValue value).apply state =
      (.ok .done, ⟨state.heap.set state.promiseCallback.state (.ready value),
        state.promiseCallback, state.futureCallback⟩) := by
  have stored : state.promiseCallback.setValue state.heap value =
      .ok (state.heap.set state.promiseCallback.state (.ready value)) := by
    unfold current at pending
    simp only [Promise.setValue, pending]
  simp only [Call.apply, setPromiseValue, stored, Except.map]

theorem set_ready {state : State V} (ready : current state = some (.ready earlier)) (value : V) :
    (Call.setPromiseValue value).apply state = (.error .promiseAlreadySatisfied, state) := by
  have refused : state.promiseCallback.setValue state.heap value =
      .error .promiseAlreadySatisfied := by
    unfold current at ready
    simp only [Promise.setValue, ready]
  simp only [Call.apply, setPromiseValue, refused, Except.map]

theorem current_set {state : State V} (pending : current state = some .pending) (value : V) :
    current ((Call.setPromiseValue value).apply state).2 = some (.ready value) := by
  rw [set_pending pending]
  obtain ⟨inside, -⟩ := List.getElem?_eq_some_iff.mp pending
  exact List.getElem?_set_self inside

theorem getFuture_frame (state : State V) :
    (Call.getFuture.apply state).2.heap = state.heap ∧
      (Call.getFuture.apply state).2.promiseCallback.state = state.promiseCallback.state := by
  cases held : state.futureCallback with
  | some future => simp only [Call.apply, getFuture_cached held, and_self]
  | none =>
    cases retrieved : state.promiseCallback.retrieved <;>
      simp [Call.apply, getFuture, held, Promise.getFuture, retrieved, Except.map]

theorem current_getFuture (state : State V) :
    current (Call.getFuture.apply state).2 = current state := by
  obtain ⟨heap, promise⟩ := getFuture_frame state
  rw [current, heap, promise, current]

theorem current_reset (state : State V) :
    current ((Call.resetPromise : Call V).apply state).2 = some .pending := by
  simp [current, Call.apply, resetPromise, Promise.make]

theorem settled_iff_since (calls : List (Call V)) :
    Settled calls ↔
      Since (fun before call => (∃ value, call = .setPromiseValue value) ∧
          (call.apply (run new before).2).1 = .ok .done)
        (fun call => call ≠ .resetPromise) calls := by
  constructor
  · rintro ⟨before, value, after, split, kept, succeeded⟩
    refine ⟨before, .setPromiseValue value, after, split, ⟨⟨value, rfl⟩, succeeded⟩, ?_⟩
    rintro call member rfl
    exact kept member
  · rintro ⟨before, call, after, split, ⟨⟨value, rfl⟩, succeeded⟩, kept⟩
    exact ⟨before, value, after, split, fun member => kept _ member rfl, succeeded⟩

theorem settled_snoc (calls : List (Call V)) (last : Call V) :
    Settled (calls ++ [last]) ↔
      ((∃ value, last = .setPromiseValue value) ∧ (last.apply (run new calls).2).1 = .ok .done) ∨
        last ≠ .resetPromise ∧ Settled calls := by
  rw [settled_iff_since, settled_iff_since, since_snoc]

/-- After a history the shared state is pending and nothing was set, or it is
ready and something was. -/
theorem current_run (calls : List (Call V)) :
    current (run new calls).2 = some .pending ∧ ¬ Settled calls ∨
      ∃ value, current (run new calls).2 = some (.ready value) ∧ Settled calls := by
  induction calls using List.reverseRecOn with
  | nil =>
    refine .inl ⟨rfl, ?_⟩
    rw [settled_iff_since]
    exact not_since_nil
  | append_singleton calls last ih =>
    rw [run_snoc, settled_snoc]
    cases last with
    | getFuture => simpa [current_getFuture] using ih
    | resetPromise => simp [current_reset]
    | setPromiseValue value =>
      rcases ih with ⟨pending, -⟩ | ⟨earlier, ready, settled⟩
      · refine .inr ⟨value, current_set pending value, .inl ⟨⟨value, rfl⟩, ?_⟩⟩
        rw [set_pending pending]
      · refine .inr ⟨earlier, ?_, .inr ⟨nofun, settled⟩⟩
        rw [set_ready ready, ready]

theorem getFuture_succeeds {state : State V} (sound : Sound state) :
    ∃ future, (Call.getFuture.apply state).1 = .ok (.future future) := by
  rcases sound with ⟨empty, fresh⟩ | cached
  · exact ⟨_, by simp only [Call.apply, getFuture_fresh empty fresh]; rfl⟩
  · exact ⟨_, by simp only [Call.apply, getFuture_cached cached]; rfl⟩

/-- After every history: setting a value raises exactly if one has been set
since the last reset, and asking for the future never raises. -/
theorem raises_iff_settled (calls : List (Call V)) :
    (∀ value, (∃ error, ((Call.setPromiseValue value).apply (run new calls).2).1 = .error error) ↔
        Settled calls) ∧
      ∀ error, (Call.getFuture.apply (run (new : State V) calls).2).1 ≠ .error error := by
  constructor
  · intro value
    rcases current_run calls with ⟨pending, unsettled⟩ | ⟨earlier, ready, settled⟩
    · refine iff_of_false ?_ unsettled
      rw [set_pending pending]
      rintro ⟨error, raised⟩
      cases raised
    · refine iff_of_true ?_ settled
      rw [set_ready ready]
      exact ⟨_, rfl⟩
  · intro error raised
    obtain ⟨future, succeeded⟩ := getFuture_succeeds (sound_run (sound_new : Sound (new : State V)) calls)
    rw [succeeded] at raised
    cases raised

/-! ### The futures handed out

The first `getFuture` moves the future out of the cache, and every later one
moves what is left. -/

def Call.asks : Call V → Bool
  | .getFuture => true
  | _ => false

def Call.sets : Call V → Bool
  | .setPromiseValue _ => true
  | _ => false

def handedOut (outcomes : List (Except FutureError Outcome)) : List Future :=
  outcomes.filterMap fun
    | .ok (.future future) => some future
    | _ => none

/-- Every future handed out is valid, and delivers the value set if one is. -/
def Usable (calls : List (Call V)) : Prop :=
  ∀ future ∈ handedOut (run new calls).1, future.valid = true ∧
    ∀ value, .setPromiseValue value ∈ calls →
      future.delivers (run new calls).2.heap = some value

theorem handedOut_cons (outcome : Except FutureError Outcome)
    (outcomes : List (Except FutureError Outcome)) :
    handedOut (outcome :: outcomes) = handedOut [outcome] ++ handedOut outcomes :=
  @List.filterMap_append _ _ [outcome] outcomes _

/-- Only `getFuture` hands a future out. -/
theorem handedOut_other {state : State V} {call : Call V} (other : call ≠ .getFuture) :
    handedOut [(call.apply state).1] = [] := by
  cases call with
  | getFuture => contradiction
  | resetPromise => rfl
  | setPromiseValue value =>
    cases stored : setPromiseValue value state <;> simp [Call.apply, stored, handedOut]

theorem asks_false {call : Call V} (other : call ≠ .getFuture) : call.asks = false := by
  cases call <;> first | rfl | contradiction

theorem handedOut_cached {state : State V} (cached : state.futureCallback = some .movedFrom)
    (calls : List (Call V)) :
    handedOut (run state calls).1 = List.replicate (calls.countP Call.asks) .movedFrom := by
  induction calls generalizing state with
  | nil => rfl
  | cons call calls ih =>
    rw [run_cons, handedOut_cons]
    by_cases asked : call = .getFuture
    · subst call
      have next := apply_getFuture (.inr cached : Sound state)
      have handed : handedOut [(Call.getFuture.apply state).1] = [.movedFrom] := by
        simp only [Call.apply, getFuture_cached cached]
        rfl
      rw [handed, ih next, List.countP_cons_of_pos rfl, List.replicate_succ, List.singleton_append]
    · have next := (apply_frame state asked).1.trans cached
      rw [handedOut_other asked, ih next, List.countP_cons_of_neg (by simp [asks_false asked]),
        List.nil_append]

theorem state_kept {state : State V} {call : Call V} (kept : call ≠ .resetPromise) :
    (call.apply state).2.promiseCallback.state = state.promiseCallback.state := by
  cases call with
  | getFuture => exact (getFuture_frame state).2
  | resetPromise => contradiction
  | setPromiseValue value =>
    cases stored : setPromiseValue value state with
    | error error => simp only [Call.apply, stored]
    | ok after => simp only [Call.apply, stored, (setPromiseValue_frame stored).1]

/-- From a fresh promise, without resets: one usable future, then moved-from ones. -/
theorem handedOut_fresh {state : State V} {calls : List (Call V)}
    (empty : state.futureCallback = none) (fresh : state.promiseCallback.retrieved = false)
    (kept : .resetPromise ∉ calls) :
    handedOut (run state calls).1 = (List.replicate (calls.countP Call.asks) .movedFrom).modifyHead
      fun _ => ⟨some state.promiseCallback.state⟩ := by
  induction calls generalizing state with
  | nil => rfl
  | cons call calls ih =>
    obtain ⟨head, rest⟩ := not_or.mp (List.mem_cons.not.mp kept)
    rw [run_cons, handedOut_cons]
    by_cases asked : call = .getFuture
    · subst call
      have next := apply_getFuture (.inl ⟨empty, fresh⟩ : Sound state)
      have handed : handedOut [(Call.getFuture.apply state).1] =
          [⟨some state.promiseCallback.state⟩] := by
        simp only [Call.apply, getFuture_fresh empty fresh]
        rfl
      rw [handed, handedOut_cached next, List.countP_cons_of_pos rfl, List.replicate_succ,
        List.modifyHead_cons, List.singleton_append]
    · obtain ⟨cache, retrieved⟩ := apply_frame state asked
      rw [handedOut_other asked, ih (cache.trans empty) (retrieved fresh) rest,
        state_kept (Ne.symm head), List.countP_cons_of_neg (by simp [asks_false asked]),
        List.nil_append]

/-- Without sets and resets the shared state stays as it is. -/
theorem heap_kept {state : State V} {calls : List (Call V)} (unset : calls.countP Call.sets = 0)
    (kept : .resetPromise ∉ calls) :
    (run state calls).2.heap = state.heap := by
  induction calls generalizing state with
  | nil => rfl
  | cons call calls ih =>
    obtain ⟨head, rest⟩ := not_or.mp (List.mem_cons.not.mp kept)
    cases call with
    | getFuture => rw [run_cons, ih unset rest, (getFuture_frame state).1]
    | resetPromise => contradiction
    | setPromiseValue value => simp [Call.sets] at unset

/-- The only value set is in the shared state in the end. -/
theorem set_once {state : State V} {calls : List (Call V)} (pending : current state = some .pending)
    (once : calls.countP Call.sets ≤ 1) (kept : .resetPromise ∉ calls)
    (set : .setPromiseValue value ∈ calls) :
    (run state calls).2.heap[state.promiseCallback.state]? = some (.ready value) := by
  induction calls generalizing state with
  | nil => contradiction
  | cons call calls ih =>
    obtain ⟨head, rest⟩ := not_or.mp (List.mem_cons.not.mp kept)
    cases call with
    | getFuture =>
      have later : .setPromiseValue value ∈ calls := by simpa using set
      have found := ih ((current_getFuture state).trans pending) once rest later
      rwa [(getFuture_frame state).2] at found
    | resetPromise => contradiction
    | setPromiseValue first =>
      rw [List.countP_cons_of_pos rfl] at once
      have unset : calls.countP Call.sets = 0 := by omega
      have same : value = first := by
        rcases List.mem_cons.mp set with same | later
        · exact (Call.setPromiseValue.inj same)
        · exact absurd (List.countP_eq_zero.mp unset _ later) (by simp [Call.sets])
      have ready := current_set pending first
      rw [current, state_kept (Ne.symm head)] at ready
      rw [run_cons, heap_kept unset rest, same, ready]

/-- For every sequence without resets and with one set at most: all futures are
usable exactly if at most one is asked for. -/
theorem usable_iff (calls : List (Call V)) (once : calls.countP Call.sets ≤ 1)
    (kept : .resetPromise ∉ calls) : Usable calls ↔ calls.countP Call.asks ≤ 1 := by
  have handed := handedOut_fresh (rfl : (new : State V).futureCallback = none) rfl kept
  constructor
  · intro usable
    by_contra twice
    obtain ⟨more, count⟩ : ∃ more, calls.countP Call.asks = more + 2 :=
      ⟨calls.countP Call.asks - 2, by omega⟩
    rw [count, List.replicate_succ, List.modifyHead_cons, List.replicate_succ] at handed
    have moved : Future.movedFrom ∈ handedOut (run (new : State V) calls).1 := by
      rw [handed]
      exact List.mem_cons_of_mem _ List.mem_cons_self
    have valid := (usable _ moved).1
    contradiction
  · intro single future member
    have first : future = ⟨some (new : State V).promiseCallback.state⟩ := by
      rw [handed] at member
      obtain none | one : calls.countP Call.asks = 0 ∨ calls.countP Call.asks = 1 := by omega
      · rw [none] at member
        contradiction
      · rw [one] at member
        exact List.mem_singleton.mp member
    subst future
    refine ⟨rfl, ?_⟩
    intro value set
    have ready := set_once (rfl : current (new : State V) = some .pending) once kept set
    simp only [Future.delivers, Option.bind_some, ready]

theorem usable_get_set : Usable [.getFuture, .setPromiseValue 5] :=
  (usable_iff [.getFuture, .setPromiseValue 5] (by decide) (by simp)).mpr (by decide)

/-- The second of two futures is not valid. -/
theorem second_future_invalid : ¬ Usable ([.getFuture, .getFuture] : List (Call Nat)) := by
  intro usable
  exact absurd (usable .movedFrom (by decide)).1 (by decide)

end Gymansie.SignalPromise
