import Gymansie.SignalPromise

/-! `addTask` under `promise_mutex`, as a member operation. The locker is held
from before `get_future` to the end, over the task and the receiver, and its
destructor runs on every way out. There is no handler: an exception of the task
leaves without a value in the promise and without a call of the receiver. Then
the destructor of the parameter breaks the promise. -/
namespace Gymansie.SignalPromise
open Futures
variable {R E σ α : Type}

/-- What leaves an operation by an exception. -/
inductive Raised (E : Type) where
  | future (error : FutureError)
  | task (exception : E)
  deriving DecidableEq

/-- The object with all shared states, whether the thread holds its mutex, the
calls of receivers with what the future's shared state held then, and whatever
else tasks and receivers act on. A shared state is ready with a value or with an
exception. -/
structure Scene (R E σ : Type) where
  object : State (Except E R)
  locked : Bool
  received : List (Future × Option (SharedState (Except E R)))
  user : σ

/-- Code of one thread. It has no result at all if the thread waits for the
mutex that it holds itself. -/
abbrev Code (R E σ : Type) := ExceptT (Raised E) (StateT (Scene R E σ) Option)

/-- The rest of a block behind `QMutexLocker locker(&this->promise_mutex)`. -/
def withLocker (body : Code R E σ α) : Code R E σ α := fun scene =>
  if scene.locked then none
  else (body { scene with locked := true } : Option _).map fun (exit, after) =>
    (exit, { after with locked := false })

def getFutureOf (promise_object : Promise) : Code R E σ (Future × Promise) := fun scene =>
  some (promise_object.getFuture.mapError .future, scene)

def setValueOf (promise_object : Promise) (value : R) : Code R E σ Unit := fun scene =>
  match promise_object.setValue scene.object.heap (.ok value) with
  | .ok heap => some (.ok (), { scene with object := { scene.object with heap } })
  | .error error => some (.error (.future error), scene)

/-- A call of the receiver, noted in `received`. -/
def callReciever (reciever : Future → Code R E σ Unit) (future : Future) : Code R E σ Unit :=
  fun scene =>
    let held := future.state.bind (scene.object.heap[·]?)
    reciever future { scene with received := scene.received ++ [(future, held)] }

def Scene.lock (scene : Scene R E σ) : Scene R E σ := { scene with locked := true }

def Scene.unlock (scene : Scene R E σ) : Scene R E σ := { scene with locked := false }

def Scene.store (scene : Scene R E σ) (heap : Heap (Except E R)) : Scene R E σ :=
  { scene with object := { scene.object with heap } }

/-- The destructor of a promise that nothing was moved from. -/
def Scene.drop (promise_object : Promise) (scene : Scene R E σ) : Scene R E σ :=
  scene.store (promise_object.abandon scene.object.heap)

/-- What stands behind the locker of `addTask`. -/
def addTaskBlock (promise_object : Promise) (task : Code R E σ R)
    (reciever : Future → Code R E σ Unit) : Code R E σ Unit := do
  let (future, promise_object) ← getFutureOf promise_object
  let result ← task
  setValueOf promise_object result
  callReciever reciever future

/-- The parameter `promise_object` goes after the locker, on every way out. -/
def addTask (promise_object : Promise) (task : Code R E σ R)
    (reciever : Future → Code R E σ Unit) : Code R E σ Unit := fun scene =>
  (withLocker (addTaskBlock promise_object task reciever) scene : Option _).map
    fun (exit, after) => (exit, after.drop promise_object)

/-- Whatever happens, its shared state is not left without a value. -/
theorem addTask_settles {promise_object : Promise} {task : Code R E σ R}
    {reciever : Future → Code R E σ Unit} {scene after : Scene R E σ}
    (ends : addTask promise_object task reciever scene = some (exit, after)) :
    after.object.heap[promise_object.state]? ≠ some .pending := by
  obtain ⟨⟨exit', inner⟩, -, same⟩ := Option.map_eq_some_iff.mp ends
  obtain ⟨-, rfl⟩ := Prod.mk.inj same
  exact Promise.abandon_settled inner.object.heap promise_object

/-! One equation for each way through `addTask`. -/

section Ways
variable {scene after : Scene R E σ} {task : Code R E σ R} {shared : Nat}

theorem withLocker_held (held : scene.locked = true) (body : Code R E σ α) :
    withLocker body scene = none := by
  simp only [withLocker, held, if_true]

theorem withLocker_free (free : scene.locked = false) (body : Code R E σ α) :
    withLocker body scene = (body scene.lock : Option _).map fun (exit, after) => (exit, after.unlock) := by
  simp only [withLocker, free, Bool.false_eq_true, if_false]
  rfl

/-- What the locked block does behind a `get_future` that succeeds. -/
def addTaskBody (shared : Nat) (task : Code R E σ R) (reciever : Future → Code R E σ Unit)
    (scene : Scene R E σ) : Option (Except (Raised E) Unit × Scene R E σ) :=
  match task scene with
  | none => none
  | some (.error raised, after) => some (.error raised, after)
  | some (.ok result, after) =>
    match Promise.setValue after.object.heap ⟨shared, true⟩ (.ok result) with
    | .error error => some (.error (.future error), after)
    | .ok heap => callReciever reciever ⟨some shared⟩ (after.store heap)

theorem addTaskBlock_fresh (task : Code R E σ R) (reciever : Future → Code R E σ Unit)
    (scene : Scene R E σ) :
    addTaskBlock ⟨shared, false⟩ task reciever scene = addTaskBody shared task reciever scene := by
  rw [addTaskBlock, addTaskBody]
  simp only [bind, ExceptT.bind, ExceptT.mk, StateT.bind, getFutureOf, Promise.getFuture,
    Bool.false_eq_true, if_false, Except.mapError, ExceptT.bindCont, Option.bind_some]
  cases ran : task scene with
  | none => rfl
  | some exit =>
    obtain ⟨_ | result, after⟩ := exit
    · rfl
    · cases stored : Promise.setValue after.object.heap ⟨shared, true⟩ (.ok result) with
      | error error =>
        have set : setValueOf ⟨shared, true⟩ result after = some (.error (.future error), after) := by
          simp only [setValueOf, stored]
        simp only [StateT.bind, set, ExceptT.bindCont, Option.bind_some, stored]
        rfl
      | ok heap =>
        have set : setValueOf ⟨shared, true⟩ result after = some (.ok (), after.store heap) := by
          simp only [setValueOf, stored, Scene.store]
        simp [StateT.bind, set, ExceptT.bindCont, stored]

theorem addTask_fresh (free : scene.locked = false) (task : Code R E σ R)
    (reciever : Future → Code R E σ Unit) :
    addTask ⟨shared, false⟩ task reciever scene =
      (addTaskBody shared task reciever scene.lock).map
        fun (exit, after) => (exit, after.unlock.drop ⟨shared, false⟩) := by
  rw [addTask, withLocker_free free, addTaskBlock_fresh, Option.map_map]
  rfl

theorem addTask_retrieved (free : scene.locked = false) (task : Code R E σ R)
    (reciever : Future → Code R E σ Unit) :
    addTask ⟨shared, true⟩ task reciever scene =
      some (.error (.future .futureAlreadyRetrieved), scene.lock.unlock.drop ⟨shared, true⟩) := by
  rw [addTask, withLocker_free free]
  rfl

theorem addTask_throws (free : scene.locked = false)
    (throws : task scene.lock = some (.error raised, after)) (reciever : Future → Code R E σ Unit) :
    addTask ⟨shared, false⟩ task reciever scene =
      some (.error raised, after.unlock.drop ⟨shared, false⟩) := by
  rw [addTask_fresh free, addTaskBody, throws]
  rfl

theorem addTask_satisfied (free : scene.locked = false)
    (returns : task scene.lock = some (.ok result, after))
    (refused : Promise.setValue after.object.heap ⟨shared, true⟩ (.ok result) = .error error)
    (reciever : Future → Code R E σ Unit) :
    addTask ⟨shared, false⟩ task reciever scene =
      some (.error (.future error), after.unlock.drop ⟨shared, false⟩) := by
  rw [addTask_fresh free, addTaskBody, returns]
  simp only [refused, Option.map_some]

theorem addTask_reports (free : scene.locked = false)
    (returns : task scene.lock = some (.ok result, after))
    (stored : Promise.setValue after.object.heap ⟨shared, true⟩ (.ok result) = .ok heap)
    (reciever : Future → Code R E σ Unit) :
    addTask ⟨shared, false⟩ task reciever scene =
      (callReciever reciever ⟨some shared⟩ (after.store heap) : Option _).map
        fun (exit, after) => (exit, after.unlock.drop ⟨shared, false⟩) := by
  rw [addTask_fresh free, addTaskBody, returns]
  simp only [stored]

end Ways

/-! ### What a caller is told -/

section Outcome
variable {Args : Type}

/-- A scene outside all operations, before any receiver has been called. -/
def begin (object : State (Except E R)) (user : σ) : Scene R E σ := ⟨object, false, [], user⟩

/-- A task run on its arguments: it returns a value or throws, and may change
whatever it acts on. -/
def runTask (task : Args → σ → Except E R × σ) (args : Args) : Code R E σ R := fun scene =>
  some ((task args scene.user).1.mapError .task, { scene with user := (task args scene.user).2 })

def runReciever (reciever : Future → Heap (Except E R) → σ → σ) (future : Future) :
    Code R E σ Unit := fun scene =>
  some (.ok (), { scene with user := reciever future scene.object.heap scene.user })

/-- The operation ends without the mutex, and the receiver has been called once,
with a ready future that holds the task's outcome. -/
def Reported (outcome : Except E R)
    (result : Option (Except (Raised E) Unit × Scene R E σ)) : Prop :=
  ∃ exit after future, result = some (exit, after) ∧ after.locked = false ∧
    after.received = [(future, some (.ready outcome))]

theorem not_reported {outcome : Except E R} {exit : Except (Raised E) Unit} {after : Scene R E σ}
    (uncalled : after.received = []) : ¬ Reported outcome (some (exit, after)) := by
  rintro ⟨exit, after, future, same, -, received⟩
  obtain ⟨-, rfl⟩ := Prod.mk.inj (Option.some.inj same)
  exact absurd (uncalled.symm.trans received) (List.cons_ne_nil _ _).symm

theorem setValue_pending {heap : Heap V} {shared : Nat} (pending : heap[shared]? = some .pending)
    (retrieved : Bool) (value : V) :
    Promise.setValue heap ⟨shared, retrieved⟩ value = .ok (heap.set shared (.ready value)) := by
  simp only [Promise.setValue, pending]

theorem setValue_refused {heap : Heap V} {shared : Nat} (satisfied : heap[shared]? ≠ some .pending)
    (retrieved : Bool) (value : V) :
    Promise.setValue heap ⟨shared, retrieved⟩ value = .error .promiseAlreadySatisfied := by
  unfold Promise.setValue
  split
  · contradiction
  · rfl

/-- For every task, arguments, receiver and promise that has not given its
future out: the outcome is reported exactly if the task returns and the promise
has a shared state without a value. -/
theorem addTask_reported_iff (task : Args → σ → Except E R × σ) (args : Args)
    (reciever : Future → Heap (Except E R) → σ → σ) (object : State (Except E R)) (shared : Nat)
    (user : σ) :
    Reported (task args user).1
        (addTask ⟨shared, false⟩ (runTask task args) (runReciever reciever) (begin object user)) ↔
      (∃ value, (task args user).1 = .ok value) ∧ object.heap[shared]? = some .pending := by
  have free : (begin object user : Scene R E σ).locked = false := rfl
  cases returned : (task args user).1 with
  | error exception =>
    have throws : runTask task args (begin object user : Scene R E σ).lock =
        some (.error (.task exception), ⟨object, true, [], (task args user).2⟩) := by
      simp only [runTask, begin, Scene.lock, returned, Except.mapError]
    rw [addTask_throws free throws]
    exact iff_of_false (not_reported rfl) (by simp)
  | ok value =>
    have returns : runTask task args (begin object user : Scene R E σ).lock =
        some (.ok value, ⟨object, true, [], (task args user).2⟩) := by
      simp only [runTask, begin, Scene.lock, returned, Except.mapError]
    by_cases pending : object.heap[shared]? = some .pending
    · refine iff_of_true ?_ ⟨⟨value, rfl⟩, pending⟩
      obtain ⟨inside, -⟩ := List.getElem?_eq_some_iff.mp pending
      have ready : (object.heap.set shared (.ready (.ok value)))[shared]? = some (.ready (.ok value)) :=
        List.getElem?_set_self inside
      rw [addTask_reports free returns (setValue_pending pending true _)]
      refine ⟨_, _, ⟨some shared⟩, rfl, rfl, ?_⟩
      simp only [Scene.drop, Scene.unlock, Scene.store, List.nil_append, Option.bind_some, ready]
    · rw [addTask_satisfied free returns (setValue_refused pending true _)]
      exact iff_of_false (not_reported rfl) fun both => pending both.2

theorem throwing_task_unreported :
    ¬ Reported (.error 7 : Except Nat Nat)
      (addTask ⟨0, false⟩ (runTask (fun (_ : Unit) user => (.error 7, user)) ())
        (runReciever fun _ _ user => user) (begin ⟨[.pending, .pending], ⟨1, false⟩, none⟩ ())) :=
  not_reported rfl

end Outcome
end Gymansie.SignalPromise
