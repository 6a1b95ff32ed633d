import Gymansie.CallTrees
import Gymansie.SlotAvailability

/-! Threads that each run trees of `callSlot` calls, one guarded block or query
at a time. What they do are steps of the provider, and none of them ever waits
for another one's call. -/
namespace Gymansie.Senders
open CallStacks Runs
variable {Thread Signal : Type}

/-- Where a thread is: between calls, before the first guarded block of a call,
or in a callable. `outer` are the callables that it goes back to, innermost
first. -/
inductive Control (Signal : Type) where
  | idle
  | entering (callable : Callable Signal) (outer : List (Exit → Callable Signal))
  | inside (callable : Callable Signal) (outer : List (Exit → Callable Signal))

/-- A call has ended. -/
def resume (exit : Exit) : List (Exit → Callable Signal) → Control Signal
  | [] => .idle
  | next :: outer => .inside (next exit) outer

/-- What the thread does next, and where it goes on. -/
inductive Next (thread : Thread) :
    Control Signal → UnwindingEvent Thread Signal → Control Signal → Prop where
  | call {signal callable} :
      Next thread .idle (.plain (.enter thread signal)) (.entering callable [])
  | callSlot {signal callable next outer} : Next thread (.inside (.callSlot signal callable next) outer)
      (.plain (.enter thread signal)) (.entering callable (next :: outer))
  | push {callable outer} :
      Next thread (.entering callable outer) (.plain (.push thread)) (.inside callable outer)
  | signalSender {next answer outer} : Next thread (.inside (.signalSender next) outer)
      (.plain (.query thread answer)) (.inside (next answer) outer)
  | returns {outer} :
      Next thread (.inside .returns outer) (.plain (.pop thread)) (resume .returned outer)
  | throws {outer} : Next thread (.inside .throws outer) (.unwind thread) (resume .threw outer)

structure Machine (Thread Signal : Type) where
  world : World Thread Signal
  control : Thread → Control Signal

namespace Machine

def start (home : Thread) : Machine Thread Signal := ⟨Senders.start home, fun _ => .idle⟩

variable [DecidableEq Thread]

inductive Step : Machine Thread Signal → UnwindingEvent Thread Signal →
    Machine Thread Signal → Prop where
  | thread {m thread event control world} (next : Next thread (m.control thread) event control)
      (step : UnwindingStep m.world event world) :
      Step m event ⟨world, Function.update m.control thread control⟩
  | moveToThread {m target world} (step : UnwindingStep m.world (.plain (.moveToThread target)) world) :
      Step m (.plain (.moveToThread target)) ⟨world, m.control⟩

/-- The thread is in a call and takes its next step. -/
inductive Goes (thread : Thread) : Machine Thread Signal → UnwindingEvent Thread Signal →
    Machine Thread Signal → Prop where
  | goes {m event control world} (busy : m.control thread ≠ .idle)
      (next : Next thread (m.control thread) event control)
      (step : UnwindingStep m.world event world) :
      Goes thread m event ⟨world, Function.update m.control thread control⟩

/-- The idle thread has read `this->thread()` at the start of a call. -/
def call (m : Machine Thread Signal) (thread : Thread) (signal : Ptr Signal)
    (callable : Callable Signal) : Machine Thread Signal :=
  ⟨⟨m.world.provider,
    Function.update m.world.entering thread (some (m.world.provider.thread, signal)), m.world.calls⟩,
    Function.update m.control thread (.entering callable [])⟩

theorem step_of_goes {thread : Thread} {m after : Machine Thread Signal}
    {event : UnwindingEvent Thread Signal} (goes : Goes thread m event after) : Step m event after := by
  cases goes with
  | goes _ next step => exact .thread next step

/-- The machine does nothing that the steps of the provider do not allow. -/
theorem world_step {m after : Machine Thread Signal} {event : UnwindingEvent Thread Signal}
    (step : Step m event after) : UnwindingStep m.world event after.world := by
  cases step with
  | thread _ step => exact step
  | moveToThread step => exact step

end Machine

open Machine
variable [DecidableEq Thread]

theorem goes_of {thread : Thread} {control : Thread → Control Signal} {place after : Control Signal}
    {event : UnwindingEvent Thread Signal} {world world' : World Thread Signal}
    (next : Next thread place event after) (step : UnwindingStep world event world')
    (busy : place ≠ .idle) (here : control thread = place) :
    Goes thread ⟨world, control⟩ event ⟨world', Function.update control thread after⟩ := by
  subst place
  exact .goes busy next step

/-! ### Where the threads are -/

/-- How many calls of the thread are behind their first guarded block. -/
def Control.depth : Control Signal → Nat
  | .idle => 0
  | .entering _ outer => outer.length
  | .inside _ outer => outer.length + 1

def Control.isEntering : Control Signal → Bool
  | .entering _ _ => true
  | .idle | .inside _ _ => false

@[simp]
theorem resume_depth (exit : Exit) (outer : List (Exit → Callable Signal)) :
    (resume exit outer).depth = outer.length := by
  cases outer <;> rfl

@[simp]
theorem resume_isEntering (exit : Exit) (outer : List (Exit → Callable Signal)) :
    (resume exit outer).isEntering = false := by
  cases outer <;> rfl

/-- Every thread has in the provider's world the calls that it is in. -/
structure Placed (m : Machine Thread Signal) : Prop where
  entering : ∀ thread, (m.world.entering thread).isSome = (m.control thread).isEntering
  depth : ∀ thread, active m.world.calls thread = (m.control thread).depth

theorem placed_start (home : Thread) : Placed (Machine.start home : Machine Thread Signal) :=
  ⟨fun _ => rfl, fun _ => rfl⟩

section Placed
variable {m after : Machine Thread Signal} {thread : Thread} {event : UnwindingEvent Thread Signal}

/-- A step of one thread. -/
theorem Placed.moved (placed : Placed m) {control : Control Signal} {world : World Thread Signal}
    {reading : Option (Thread × Ptr Signal)}
    (entering : world.entering = Function.update m.world.entering thread reading)
    (same : reading.isSome = control.isEntering)
    (own : active world.calls thread = control.depth)
    (others : ∀ other, other ≠ thread → active world.calls other = active m.world.calls other) :
    Placed ⟨world, Function.update m.control thread control⟩ := by
  constructor
  · intro other
    by_cases here : other = thread
    · subst other
      simp only [entering, Function.update_self, same]
    · simpa only [entering, Function.update_of_ne here] using placed.entering other
  · intro other
    by_cases here : other = thread
    · subst other
      simp only [Function.update_self, own]
    · simpa only [Function.update_of_ne here, others other here] using placed.depth other

theorem Placed.left (placed : Placed m) {control : Control Signal} {provider : SlotProvider Thread Signal}
    {call : Call Thread Signal} (running : innermost m.world.calls thread = some call)
    (ready : m.world.entering thread = none) (same : control.isEntering = false)
    (depth : active m.world.calls thread = control.depth + 1) :
    Placed ⟨⟨provider, m.world.entering, leave m.world.calls thread⟩,
      Function.update m.control thread control⟩ := by
  have kept : m.world.entering = Function.update m.world.entering thread none := by
    rw [← ready, Function.update_eq_self]
  refine placed.moved kept same.symm ?_ ?_
  · rw [active_leave running, if_pos rfl, Nat.add_right_cancel_iff] at depth
    exact depth
  · intro other different
    rw [active_leave running other, if_neg different]
    rfl

theorem Placed.next (placed : Placed m) {control : Control Signal} {world : World Thread Signal}
    (next : Next thread (m.control thread) event control) (step : UnwindingStep m.world event world) :
    Placed ⟨world, Function.update m.control thread control⟩ := by
  have own := placed.depth thread
  generalize m.control thread = here at own next
  cases next with
  | call | callSlot =>
    obtain ⟨plain⟩ := step
    cases plain
    exact placed.moved rfl rfl own fun _ _ => rfl
  | push =>
    obtain ⟨plain⟩ := step
    cases plain
    refine placed.moved rfl rfl ?_ ?_
    · rw [active_cons, own, if_pos rfl]
      rfl
    · intro other different
      rw [active_cons, if_neg different]
      rfl
  | signalSender =>
    obtain ⟨plain⟩ := step
    cases plain with
    | query ready =>
      have kept : m.world.entering = Function.update m.world.entering thread none := by
        rw [← ready, Function.update_eq_self]
      exact placed.moved kept rfl own fun _ _ => rfl
  | returns =>
    obtain ⟨plain⟩ := step
    cases plain with
    | pop ready running =>
      exact placed.left running ready (resume_isEntering ..)
        (own.trans (congrArg (· + 1) (resume_depth ..).symm))
  | throws =>
    cases step with
    | unwind ready running =>
      exact placed.left running ready (resume_isEntering ..)
        (own.trans (congrArg (· + 1) (resume_depth ..).symm))

theorem placed_step (placed : Placed m) (step : Machine.Step m event after) : Placed after := by
  cases step with
  | thread next step => exact placed.next next step
  | moveToThread step =>
    obtain ⟨plain⟩ := step
    cases plain
    exact ⟨placed.entering, placed.depth⟩

theorem placed_run {home : Thread} {events : List (UnwindingEvent Thread Signal)}
    (run : Run Machine.Step (Machine.start home) events m) : Placed m := by
  induction run using Run.snoc_induction with
  | initial => exact placed_start home
  | snoc _ last placed => exact placed_step placed last

theorem Placed.ready (placed : Placed m) (outside : (m.control thread).isEntering = false) :
    m.world.entering thread = none := by
  have same := placed.entering thread
  rw [outside] at same
  exact Option.not_isSome_iff_eq_none.mp (Bool.eq_false_iff.mp same)

/-- A thread in a call can always go on. -/
theorem goes_of_busy (placed : Placed m) (busy : m.control thread ≠ .idle) :
    ∃ event after, Goes thread m event after := by
  cases here : m.control thread with
  | idle => exact absurd here busy
  | entering callable outer =>
    have reading := placed.entering thread
    rw [here] at reading
    obtain ⟨⟨executingThread, signal⟩, entered⟩ := Option.isSome_iff_exists.mp reading
    exact ⟨_, _, goes_of .push (.plain (.push entered)) nofun here⟩
  | inside callable outer =>
    have ready := placed.ready (congrArg Control.isEntering here)
    have deep : 0 < active m.world.calls thread := by
      rw [placed.depth, here]
      exact Nat.succ_pos _
    obtain ⟨call, running⟩ := innermost_of_active deep
    cases callable with
    | returns => exact ⟨_, _, goes_of .returns (.plain (.pop ready running)) nofun here⟩
    | throws => exact ⟨_, _, goes_of .throws (.unwind ready running) nofun here⟩
    | signalSender next =>
      exact ⟨_, _, goes_of .signalSender (.plain (.query ready running)) nofun here⟩
    | callSlot signal callable next => exact ⟨_, _, goes_of .callSlot (.plain (.enter ready)) nofun here⟩

end Placed
end Gymansie.Senders
