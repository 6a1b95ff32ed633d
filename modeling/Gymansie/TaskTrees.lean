import Gymansie.PromiseRuns
import Gymansie.AddTask

/-! Trees of calls on one `SignalPromise`, in which tasks and receivers of
`addTask` call the same object again. The mutex is held over both of them, so
every call from there that locks waits for itself; `resetPromise` takes no lock
and is the only one that does not. -/
namespace Gymansie.SignalPromise
open Futures
variable {R E α : Type}

/-- The promise that a caller passes to `addTask`. -/
inductive Given (R E : Type) where
  | fresh
  | satisfied (outcome : Except E R)
  | retrieved
  deriving DecidableEq

/-- The calls that a piece of code makes, in order, each exception handled. A
task makes its calls and ends with `result`, a receiver with `exit`. -/
inductive Calls (R E : Type) where
  | done
  | call (operation : Call (Except E R)) (rest : Calls R E)
  | addTask (promise_object : Given R E) (task : Calls R E) (result : Except E R)
      (reciever : Calls R E) (exit : Except E Unit) (rest : Calls R E)

def Given.make (heap : Heap (Except E R)) : Given R E → Promise × Heap (Except E R)
  | .fresh => (⟨heap.length, false⟩, heap ++ [.pending])
  | .satisfied outcome => (⟨heap.length, false⟩, heap ++ [.ready outcome])
  | .retrieved => (⟨heap.length, true⟩, heap ++ [.pending])

def perform (operation : Call (Except E R)) : Code R E Unit Outcome := fun scene =>
  some ((operation.apply scene.object).1.mapError .future,
    { scene with object := (operation.apply scene.object).2 })

def Call.lockedPerform : Call (Except E R) → Code R E Unit Outcome
  | .getFuture => withLocker (perform .getFuture)
  | .setPromiseValue value => withLocker (perform (.setPromiseValue value))
  | .resetPromise => perform .resetPromise

def thenExit (calls : Scene R E Unit → Option (Scene R E Unit)) (exit : Except (Raised E) α) :
    Code R E Unit α := fun scene =>
  (calls scene).map fun after => (exit, after)

/-- The scene after all calls; none if one of them waits for the mutex that the
thread holds. -/
def Calls.exec : Calls R E → Scene R E Unit → Option (Scene R E Unit)
  | .done, scene => some scene
  | .call operation rest, scene =>
    (operation.lockedPerform scene : Option _).bind fun (_, after) => rest.exec after
  | .addTask promise_object task result reciever exit rest, scene =>
    let (promise, heap) := promise_object.make scene.object.heap
    (SignalPromise.addTask promise (thenExit task.exec (result.mapError .task))
        (fun _ => thenExit reciever.exec (exit.mapError .task)) (scene.store heap) : Option _).bind
      fun (_, after) => rest.exec after

/-- Only resets, which do not lock. -/
def Calls.OnlyResets : Calls R E → Prop
  | .done => True
  | .call operation rest => operation = .resetPromise ∧ rest.OnlyResets
  | .addTask _ _ _ _ _ _ => False

/-- No task or receiver that gets to run makes a call that locks. -/
def Calls.NoReentry : Calls R E → Prop
  | .done => True
  | .call _ rest => rest.NoReentry
  | .addTask promise_object task result reciever _ rest =>
    (promise_object ≠ .retrieved → task.OnlyResets) ∧
      (promise_object = .fresh → (∃ value, result = .ok value) → reciever.OnlyResets) ∧
      rest.NoReentry

/-- The current promise has its shared state in the heap. -/
def Owned (scene : Scene R E Unit) : Prop :=
  scene.object.promiseCallback.state < scene.object.heap.length

/-- The code waits for itself unless `ok`, and then it ends in a good result. -/
def Ends {α : Type} (ok : Prop) (good : α → Prop) (result : Option α) : Prop :=
  (ok ∧ ∃ after, result = some after ∧ good after) ∨ ¬ ok ∧ result = none

theorem Ends.iff {α : Type} {ok : Prop} {good : α → Prop} {result : Option α}
    (ends : Ends ok good result) : result ≠ none ↔ ok := by
  rcases ends with ⟨holds, after, rfl, -⟩ | ⟨fails, rfl⟩
  · exact iff_of_true (by simp) holds
  · exact iff_of_false (by simp) fails

theorem Ends.intro {α : Type} {ok : Prop} {good : α → Prop} {after : α} (holds : ok)
    (reached : good after) : Ends ok good (some after) :=
  .inl ⟨holds, after, rfl, reached⟩

theorem Ends.imp {α : Type} {ok ok' : Prop} {good good' : α → Prop} {result : Option α}
    (ends : Ends ok good result) (same : ok ↔ ok') (weaker : ∀ after, good after → good' after) :
    Ends ok' good' result := by
  rcases ends with ⟨holds, after, rfl, reached⟩ | ⟨fails, rfl⟩
  · exact .intro (same.mp holds) (weaker after reached)
  · exact .inr ⟨same.not.mp fails, rfl⟩

theorem Ends.bind {α β : Type} {ok ok' : Prop} {good : α → Prop} {good' : β → Prop}
    {first : Option α} {next : α → Option β} (ends : Ends ok good first)
    (following : ∀ after, good after → Ends ok' good' (next after)) :
    Ends (ok ∧ ok') good' (first.bind next) := by
  rcases ends with ⟨holds, after, rfl, reached⟩ | ⟨fails, rfl⟩
  · exact (following after reached).imp (by simp [holds]) fun _ done => done
  · exact .inr ⟨fun both => fails both.1, rfl⟩

theorem Ends.map {α β : Type} {ok : Prop} {good : α → Prop} {good' : β → Prop} {f : α → β}
    {result : Option α} (ends : Ends ok good result) (image : ∀ after, good after → good' (f after)) :
    Ends ok good' (result.map f) := by
  rcases ends with ⟨holds, after, rfl, reached⟩ | ⟨fails, rfl⟩
  · exact .intro holds (image after reached)
  · exact .inr ⟨fails, rfl⟩

/-! ### Under the mutex -/

/-- Inside an `addTask` whose promise has the shared state `shared`. -/
structure Held (shared : Nat) (content : SharedState (Except E R)) (scene : Scene R E Unit) : Prop where
  locked : scene.locked = true
  owned : Owned scene
  content : scene.object.heap[shared]? = some content
  other : shared ≠ scene.object.promiseCallback.state

theorem abandon_length (heap : Heap V) (promise : Promise) :
    (promise.abandon heap).length = heap.length := by
  unfold Promise.abandon
  split
  · exact List.length_set
  · rfl

theorem abandon_other (heap : Heap V) {promise : Promise} (other : shared ≠ promise.state) :
    (promise.abandon heap)[shared]? = heap[shared]? := by
  unfold Promise.abandon
  split
  · exact List.getElem?_set_ne (Ne.symm other)
  · rfl

theorem owned_reset (scene : Scene R E Unit) :
    Owned { scene with object := resetPromise scene.object } := by
  simp [Owned, resetPromise, Promise.make]

theorem Held.reset {content : SharedState (Except E R)} (held : Held shared content scene) :
    Held shared content { scene with object := resetPromise scene.object } := by
  obtain ⟨inside, -⟩ := List.getElem?_eq_some_iff.mp held.content
  have older : shared < (scene.object.promiseCallback.abandon scene.object.heap).length := by
    rwa [abandon_length]
  refine ⟨held.locked, owned_reset scene, ?_, Nat.ne_of_lt older⟩
  calc
    (resetPromise scene.object).heap[shared]? =
        (scene.object.promiseCallback.abandon scene.object.heap)[shared]? :=
      List.getElem?_append_left older
    _ = scene.object.heap[shared]? := abandon_other _ held.other
    _ = some content := held.content

theorem lockedPerform_held {scene : Scene R E Unit} (held : scene.locked = true)
    {operation : Call (Except E R)} (locks : operation ≠ .resetPromise) :
    operation.lockedPerform scene = none := by
  cases operation with
  | resetPromise => contradiction
  | getFuture => exact withLocker_held held _
  | setPromiseValue value => exact withLocker_held held _

/-- Under the mutex only resets come to an end. -/
theorem exec_held {content : SharedState (Except E R)} (calls : Calls R E)
    (held : Held shared content scene) :
    Ends calls.OnlyResets (Held shared content) (calls.exec scene) := by
  induction calls generalizing scene with
  | done => exact .intro trivial held
  | call operation rest ih =>
    by_cases reset : operation = .resetPromise
    · subst operation
      exact (ih held.reset).imp (by simp [Calls.OnlyResets]) fun _ kept => kept
    · refine .inr ⟨fun resets => reset resets.1, ?_⟩
      simp only [Calls.exec, lockedPerform_held held.locked reset, Option.bind_none]
  | addTask promise_object task result reciever exit rest _ _ _ =>
    refine .inr ⟨fun resets => resets, ?_⟩
    have waits : ∀ heap, (scene.store heap).locked = true := fun _ => held.locked
    simp only [Calls.exec, addTask, withLocker_held (waits _), Option.map_none, Option.bind_none]

theorem Held.store {content : SharedState (Except E R)} (held : Held shared content scene)
    (value : Except E R) :
    Held shared (.ready value) (scene.store (scene.object.heap.set shared (.ready value))) := by
  obtain ⟨inside, -⟩ := List.getElem?_eq_some_iff.mp held.content
  refine ⟨held.locked, ?_, List.getElem?_set_self inside, held.other⟩
  simpa only [Owned, Scene.store, List.length_set] using held.owned

theorem callReciever_ends {content : SharedState (Except E R)} (held : Held shared content scene)
    (reciever : Calls R E) (exit : Except (Raised E) Unit) (future : Future) :
    Ends reciever.OnlyResets (fun out => Held shared content out.2)
      (callReciever (fun _ => thenExit reciever.exec exit) future scene) := by
  have called : Held shared content { scene with
      received := scene.received ++ [(future, future.state.bind (scene.object.heap[·]?))] } :=
    ⟨held.locked, held.owned, held.content, held.other⟩
  exact (exec_held reciever called).map fun _ kept => kept

/-! ### Outside -/

structure Free (scene : Scene R E Unit) : Prop where
  unlocked : scene.locked = false
  owned : Owned scene

theorem Held.unlock {content : SharedState (Except E R)} (held : Held shared content scene) :
    Free scene.unlock :=
  ⟨rfl, held.owned⟩

theorem Free.drop {scene : Scene R E Unit} (free : Free scene) (promise_object : Promise) :
    Free (scene.drop promise_object) := by
  refine ⟨free.unlocked, ?_⟩
  simpa only [Owned, Scene.drop, Scene.store, abandon_length] using free.owned

theorem Free.append {scene : Scene R E Unit} (free : Free scene) (content : SharedState (Except E R)) :
    Held scene.object.heap.length content (scene.store (scene.object.heap ++ [content])).lock := by
  refine ⟨rfl, ?_, List.getElem?_concat_length, (Nat.ne_of_lt free.owned).symm⟩
  have owned := free.owned
  simp only [Owned, Scene.lock, Scene.store, List.length_append, List.length_singleton] at owned ⊢
  omega

theorem addTask_waits {scene : Scene R E Unit} {task : Code R E Unit R} (free : scene.locked = false)
    (waits : task scene.lock = none) (reciever : Future → Code R E Unit Unit) :
    addTask ⟨shared, false⟩ task reciever scene = none := by
  rw [addTask_fresh free, addTaskBody, waits]
  rfl

/-- `addTask` with a new promise that holds `content`. -/
theorem addTask_ends {scene : Scene R E Unit} (free : Free scene) (content : SharedState (Except E R))
    (task : Calls R E) (result : Except E R) (reciever : Calls R E) (exit : Except (Raised E) Unit) :
    Ends (task.OnlyResets ∧ (content = .pending → (∃ value, result = .ok value) → reciever.OnlyResets))
      (fun out => Free out.2)
      (addTask ⟨scene.object.heap.length, false⟩ (thenExit task.exec (result.mapError .task))
        (fun _ => thenExit reciever.exec exit) (scene.store (scene.object.heap ++ [content]))) := by
  have unlocked : (scene.store (scene.object.heap ++ [content])).locked = false := free.unlocked
  have held := free.append content
  rcases exec_held task held with ⟨resets, after, ran, kept⟩ | ⟨fails, waits⟩
  · have exits : thenExit task.exec (result.mapError .task)
        (scene.store (scene.object.heap ++ [content])).lock =
        some (result.mapError .task, after) := by
      rw [thenExit, ran, Option.map_some]
    cases result with
    | error exception =>
      rw [addTask_throws unlocked exits]
      exact .intro ⟨resets, by simp⟩ (kept.unlock.drop _)
    | ok value =>
      by_cases pending : content = .pending
      · subst content
        rw [addTask_reports unlocked exits (setValue_pending kept.content true _)]
        have called := callReciever_ends (kept.store (.ok value)) reciever exit
          ⟨some scene.object.heap.length⟩
        have same : reciever.OnlyResets ↔ task.OnlyResets ∧
            (SharedState.pending = (.pending : SharedState (Except E R)) →
              (∃ found, Except.ok value = (.ok found : Except E R)) → reciever.OnlyResets) := by
          simp [resets]
        exact (called.imp same fun _ reached => reached).map fun _ reached => reached.unlock.drop _
      · have refused : after.object.heap[scene.object.heap.length]? ≠ some .pending := by
          rw [kept.content]
          exact fun same => pending (Option.some.inj same)
        rw [addTask_satisfied unlocked exits (setValue_refused refused true _)]
        exact .intro ⟨resets, fun same => absurd same pending⟩ (kept.unlock.drop _)
  · have exits : thenExit task.exec (result.mapError .task)
        (scene.store (scene.object.heap ++ [content])).lock = none := by
      rw [thenExit, waits, Option.map_none]
    rw [addTask_waits unlocked exits]
    exact .inr ⟨fun both => fails both.1, rfl⟩

theorem owned_apply {scene : Scene R E Unit} (owned : Owned scene) (operation : Call (Except E R)) :
    Owned { scene with object := (operation.apply scene.object).2 } := by
  cases operation with
  | getFuture =>
    obtain ⟨heap, promise⟩ := getFuture_frame scene.object
    simpa only [Owned, heap, promise] using owned
  | setPromiseValue value =>
    by_cases pending : current scene.object = some .pending
    · rw [set_pending pending]
      simpa only [Owned, List.length_set] using owned
    · have refused : scene.object.promiseCallback.setValue scene.object.heap value =
          .error .promiseAlreadySatisfied := setValue_refused pending _ value
      simpa only [Call.apply, setPromiseValue, refused, Except.map] using owned
  | resetPromise => exact owned_reset scene

theorem lockedPerform_free {scene : Scene R E Unit} (free : Free scene)
    (operation : Call (Except E R)) :
    Ends True (fun out => Free out.2) (operation.lockedPerform scene) := by
  have performed : Free { scene with object := (operation.apply scene.object).2 } :=
    ⟨free.unlocked, owned_apply free.owned operation⟩
  cases operation with
  | resetPromise => exact .intro trivial performed
  | getFuture =>
    rw [Call.lockedPerform, withLocker_free free.unlocked]
    exact .intro trivial ⟨rfl, performed.owned⟩
  | setPromiseValue value =>
    rw [Call.lockedPerform, withLocker_free free.unlocked]
    exact .intro trivial ⟨rfl, performed.owned⟩

/-- Outside the mutex a tree comes to an end unless it calls back with a lock. -/
theorem exec_free (calls : Calls R E) {scene : Scene R E Unit} (free : Free scene) :
    Ends calls.NoReentry Free (calls.exec scene) := by
  induction calls generalizing scene with
  | done => exact .intro trivial free
  | call operation rest ih =>
    have performed := lockedPerform_free free operation
    exact (performed.bind fun _ reached => ih reached).imp (by simp [Calls.NoReentry]) fun _ done => done
  | addTask promise_object task result reciever exit rest _ _ ih =>
    cases promise_object with
    | fresh =>
      have added := addTask_ends free .pending task result reciever (exit.mapError .task)
      refine (added.bind fun _ reached => ih reached).imp ?_ fun _ done => done
      simp [Calls.NoReentry, and_assoc]
    | satisfied outcome =>
      have added := addTask_ends free (.ready outcome) task result reciever
        (exit.mapError .task)
      refine (added.bind fun _ reached => ih reached).imp ?_ fun _ done => done
      simp [Calls.NoReentry]
    | retrieved =>
      have unlocked : (scene.store (scene.object.heap ++ [.pending])).locked = false := free.unlocked
      let refused := (scene.store (scene.object.heap ++ [.pending])).lock.unlock.drop
        ⟨scene.object.heap.length, true⟩
      have following : Ends rest.NoReentry Free (rest.exec refused) :=
        ih ((free.append .pending).unlock.drop _)
      have run : Calls.exec (.addTask .retrieved task result reciever exit rest) scene =
          rest.exec refused := by
        simp only [Calls.exec, Given.make, addTask_retrieved unlocked, Option.bind_some, refused]
      rw [run]
      exact following.imp (by simp [Calls.NoReentry]) fun _ done => done

/-- For every tree of calls on a new object: no call waits for the mutex that
its own thread holds, exactly if no task or receiver calls back with a lock. -/
theorem exec_iff_noReentry (calls : Calls R E) :
    calls.exec (begin new ()) ≠ none ↔ calls.NoReentry := by
  have free : Free (begin new () : Scene R E Unit) := ⟨rfl, Nat.zero_lt_one⟩
  exact (exec_free calls free).iff

theorem task_asks_future :
    ¬ ((.addTask .fresh (.call .getFuture .done) (.ok 5) .done (.ok ()) .done : Calls Nat Nat).exec
      (begin new ()) ≠ none) := by
  decide

end Gymansie.SignalPromise
