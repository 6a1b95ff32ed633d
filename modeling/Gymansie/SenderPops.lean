import Gymansie.SenderRuns

/-! Calls that may also end by an exception, which leaves the callable and
`callSlot` without the second guarded block. Each list still has an entry for
every call in progress that recorded its key, so no pop finds it empty. -/
namespace Gymansie.Senders
open CallStacks
variable {Thread Signal : Type}

inductive UnwindingEvent (Thread Signal : Type) where
  | plain (event : Event Thread Signal)
  | unwind (thread : Thread)

variable [DecidableEq Thread]

inductive UnwindingStep :
    World Thread Signal → UnwindingEvent Thread Signal → World Thread Signal → Prop where
  | plain (step : Step world event after) : UnwindingStep world (.plain event) after
  | unwind {world thread call} (ready : world.entering thread = none)
      (running : innermost world.calls thread = some call) :
      UnwindingStep world (.unwind thread)
        ⟨world.provider, world.entering, leave world.calls thread⟩

/-- Every list has at least as many entries as calls in progress recorded its
key. -/
def Backed (world : World Thread Signal) : Prop :=
  ∀ key, pending world.calls key ≤ (senders world.provider key).length

/-- A pop finds the list of the key that its call recorded nonempty. -/
def UnwindingEvent.PopsEntry (world : World Thread Signal) : UnwindingEvent Thread Signal → Prop
  | .plain (.pop thread) => ∀ call, innermost world.calls thread = some call →
      senders world.provider call.key ≠ []
  | _ => True

theorem backed_start (thread : Thread) : Backed (start thread : World Thread Signal) := by
  intro key
  exact Nat.zero_le _

theorem backed_step {world after : World Thread Signal} {event : Event Thread Signal}
    (backed : Backed world) (step : Step world event after) : Backed after := by
  intro key
  have before := backed key
  cases step with
  | enter | query | moveToThread => exact before
  | @push thread executingThread signal entered =>
    rw [senders_push, pending_cons]
    split
    · rw [List.length_append, List.length_singleton]
      omega
    · omega
  | @pop thread call ready running =>
    have counted := pending_leave running key
    rw [senders_pop]
    change pending (leave world.calls thread) key ≤ _
    split
    · rename_i same
      rw [if_pos same] at counted
      rw [List.length_dropLast]
      omega
    · omega

theorem backed_unwinding {world after : World Thread Signal}
    {event : UnwindingEvent Thread Signal} (backed : Backed world)
    (step : UnwindingStep world event after) : Backed after := by
  cases step with
  | plain step => exact backed_step backed step
  | @unwind thread call ready running =>
    intro key
    have before := backed key
    have counted := pending_leave running key
    change pending (leave world.calls thread) key ≤ (senders world.provider key).length
    omega

theorem pops_entry {world : World Thread Signal} (backed : Backed world)
    (event : UnwindingEvent Thread Signal) : event.PopsEntry world := by
  match event with
  | .plain (.pop thread) =>
    intro call running empty
    have counted := pending_leave running call.key
    have entries := backed call.key
    rw [if_pos rfl] at counted
    rw [empty, List.length_nil] at entries
    omega
  | .plain (.enter _ _) | .plain (.push _) | .plain (.query _ _) | .plain (.moveToThread _)
  | .unwind _ => trivial

/-- For every schedule: any threads, nesting, interleaving and moves, each call
ending either way. -/
theorem always_backed (thread : Thread) (events : List (UnwindingEvent Thread Signal)) :
    Runs.Always UnwindingStep Backed (start thread) events ∧
      Runs.Each UnwindingStep (fun world event => event.PopsEntry world) (start thread) events := by
  have always : Runs.Always UnwindingStep Backed (start thread) events :=
    Runs.always_of_inv (backed_start thread) backed_unwinding
  refine ⟨always, ?_⟩
  intro before event after world next split run step
  exact pops_entry (always before (event :: after) world split run) event

end Gymansie.Senders
