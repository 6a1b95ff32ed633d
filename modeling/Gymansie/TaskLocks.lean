import Gymansie.TaskTrees
import Gymansie.LockedCalls

/-! Trees of calls on one promise object, with all values and exceptions, against
the mutex requests of what the values let run. What they do not let run is left
out beforehand: the task behind a future that was given out, and the receiver
behind a task that threw or a promise that was set. Of the rest only the requests
decide whether a tree waits for itself. -/
namespace Gymansie.LockedCalls
open LockOrder
variable {R E Id Provider : Type}

def operation : SignalPromise.Call (Except E R) → Operation Id Provider Unit
  | .getFuture => .getFuture ()
  | .setPromiseValue _ => .setPromiseValue ()
  | .resetPromise => .resetPromise ()

/-- The calls that the values let run. -/
def taskCalls : SignalPromise.Calls R E → Calls Id Provider Unit
  | .done => .done
  | .call op rest => .call (operation op) (taskCalls rest)
  | .addTask .retrieved _ _ _ _ rest => .addTask () .done .done (taskCalls rest)
  | .addTask (.satisfied _) task _ _ _ rest => .addTask () (taskCalls task) .done (taskCalls rest)
  | .addTask .fresh task (.error _) _ _ rest => .addTask () (taskCalls task) .done (taskCalls rest)
  | .addTask .fresh task (.ok _) reciever _ rest =>
    .addTask () (taskCalls task) (taskCalls reciever) (taskCalls rest)

theorem operation_promises (op : SignalPromise.Call (Except E R)) :
    (operation op : Operation Id Provider Unit).promises = [] ↔ op = .resetPromise := by
  cases op <;> simp [operation, Operation.promises]

theorem operation_registers (op : SignalPromise.Call (Except E R)) (provider : Provider) :
    (operation op : Operation Id Provider Unit) ≠ .registry (.registerSlotProvider (some provider)) := by
  cases op <;> nofun

variable (Id Provider) in
theorem onlyResets_iff (calls : SignalPromise.Calls R E) :
    calls.OnlyResets ↔ (taskCalls calls : Calls Id Provider Unit).promises = [] := by
  induction calls with
  | done => exact iff_of_true trivial rfl
  | call op rest ih =>
    rw [SignalPromise.Calls.OnlyResets, taskCalls, Calls.promises, List.append_eq_nil_iff,
      operation_promises, ih]
  | addTask promise_object task result reciever exit rest _ _ _ =>
    refine iff_of_false (fun resets => resets) ?_
    cases promise_object <;> cases result <;> exact List.cons_ne_nil _ _

/-- Calls that lock nothing are in order. -/
theorem ordered_of_promises (calls : SignalPromise.Calls R E)
    (none : (taskCalls calls : Calls Id Provider Unit).promises = []) :
    (taskCalls calls : Calls Id Provider Unit).Ordered (· ≠ ·) := by
  induction calls with
  | done => trivial
  | call op rest ih =>
    obtain ⟨-, none⟩ := List.append_eq_nil_iff.mp none
    exact ⟨operation_registers op, ih none⟩
  | addTask promise_object task result reciever exit rest _ _ _ =>
    cases promise_object <;> cases result <;> cases none

/-- On one promise, whatever runs in an `addTask` must lock nothing. -/
theorem ordered_addTask_iff {task reciever rest : Calls Id Provider Unit}
    (inTask : task.promises = [] → task.Ordered (· ≠ ·))
    (inReciever : reciever.promises = [] → reciever.Ordered (· ≠ ·)) :
    (Calls.addTask () task reciever rest).Ordered (· ≠ ·) ↔
      task.promises = [] ∧ reciever.promises = [] ∧ rest.Ordered (· ≠ ·) := by
  have unlocked : (∀ inner ∈ task.promises ++ reciever.promises, () ≠ inner) ↔
      task.promises = [] ∧ reciever.promises = [] := by
    rw [← List.append_eq_nil_iff, List.eq_nil_iff_forall_not_mem]
    exact forall₂_congr fun inner member => iff_of_false (fun other => other rfl) fun absent => absent
  rw [Calls.Ordered, unlocked]
  constructor
  · rintro ⟨⟨first, second⟩, -, -, following⟩
    exact ⟨first, second, following⟩
  · rintro ⟨first, second, following⟩
    exact ⟨⟨first, second⟩, inTask first, inReciever second, following⟩

theorem noReentry_iff (calls : SignalPromise.Calls R E) :
    calls.NoReentry ↔ (taskCalls calls : Calls Id Provider Unit).Ordered (· ≠ ·) := by
  induction calls with
  | done => exact Iff.rfl
  | call op rest ih =>
    rw [SignalPromise.Calls.NoReentry, ih]
    exact (and_iff_right (operation_registers op)).symm
  | addTask promise_object task result reciever exit rest _ _ ih =>
    rw [SignalPromise.Calls.NoReentry, ih, onlyResets_iff Id Provider task,
      onlyResets_iff Id Provider reciever]
    have quiet : (Calls.done : Calls Id Provider Unit).promises = [] →
        (Calls.done : Calls Id Provider Unit).Ordered (· ≠ ·) := fun _ => trivial
    cases promise_object with
    | retrieved =>
      rw [taskCalls, ordered_addTask_iff quiet quiet]
      simp [Calls.promises]
    | satisfied outcome =>
      rw [taskCalls, ordered_addTask_iff (ordered_of_promises task) quiet]
      simp [Calls.promises]
    | fresh =>
      cases result with
      | error exception =>
        rw [taskCalls, ordered_addTask_iff (ordered_of_promises task) quiet]
        simp [Calls.promises]
      | ok value =>
        rw [taskCalls, ordered_addTask_iff (ordered_of_promises task) (ordered_of_promises reciever)]
        simp

variable [DecidableEq Provider]

/-- For every tree of calls on a new object: it comes to its end with values and
exceptions exactly if the mutex requests of the calls that the values let run do. -/
theorem exec_finishes_iff (calls : SignalPromise.Calls R E) :
    calls.exec (SignalPromise.begin SignalPromise.new ()) ≠ none ↔
      Finishes (start fun _ : Unit => (taskCalls calls : Calls Id Provider Unit).code) := by
  have free : SignalPromise.Free (SignalPromise.begin SignalPromise.new () : SignalPromise.Scene R E Unit) :=
    ⟨rfl, Nat.zero_lt_one⟩
  rw [(SignalPromise.exec_free calls free).iff, alone_finishes_iff, nested_ne_iff]
  exact noReentry_iff calls

end Gymansie.LockedCalls
