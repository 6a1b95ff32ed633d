import Gymansie.Senders
import Gymansie.CallStacks
import Gymansie.Runs
import Mathlib.Logic.Function.Basic

/-! Calls of one provider's slots on any number of threads, interleaved with
queries and with moves of the provider. The sender lists hold the calls in
progress in push order as long as the innermost calls agree; a query gets the
newest call that recorded the provider's own thread, whoever made it. -/
namespace Gymansie.Senders
open CallStacks
variable {Thread Signal : Type}

abbrev Call (Thread Signal : Type) := Frame Thread Thread (Ptr Signal)

structure World (Thread Signal : Type) where
  provider : SlotProvider Thread Signal
  -- a call between reading `this->thread()` and its first guarded block
  entering : Thread → Option (Thread × Ptr Signal)
  -- the calls between their two guarded blocks, newest first
  calls : List (Call Thread Signal)

inductive Event (Thread Signal : Type) where
  | enter (thread : Thread) (signal : Ptr Signal)
  | push (thread : Thread)
  | query (thread : Thread) (answer : Ptr Signal)
  | pop (thread : Thread)
  | moveToThread (target : Thread)

variable [DecidableEq Thread]

inductive Step : World Thread Signal → Event Thread Signal → World Thread Signal → Prop where
  | enter {world thread signal} (ready : world.entering thread = none) :
      Step world (.enter thread signal) ⟨world.provider,
        Function.update world.entering thread (some (world.provider.thread, signal)), world.calls⟩
  | push {world thread executingThread signal}
      (entered : world.entering thread = some (executingThread, signal)) :
      Step world (.push thread) ⟨pushSender world.provider executingThread signal,
        Function.update world.entering thread none, ⟨thread, executingThread, signal⟩ :: world.calls⟩
  | query {world thread call} (ready : world.entering thread = none)
      (running : innermost world.calls thread = some call) :
      Step world (.query thread (signalSender world.provider)) world
  | pop {world thread call} (ready : world.entering thread = none)
      (running : innermost world.calls thread = some call) :
      Step world (.pop thread)
        ⟨popSender world.provider call.key, world.entering, leave world.calls thread⟩
  | moveToThread {world target} :
      Step world (.moveToThread target)
        ⟨moveToThread world.provider target, world.entering, world.calls⟩

def start (thread : Thread) : World Thread Signal :=
  ⟨⟨thread, ∅⟩, fun _ => none, []⟩

/-- A query from a thread with a call in progress gets the signal of its
innermost one, which is not null. Every moment is judged by this, also while the
thread is entering a further call and makes no query. -/
def Attributed (world : World Thread Signal) : Prop :=
  ∀ thread call, innermost world.calls thread = some call →
    signalSender world.provider = call.value ∧ call.value ≠ none

/-- The newest call that recorded the provider's present thread is for the same
signal as the innermost call of every thread. -/
def Aligned (world : World Thread Signal) : Prop :=
  ∀ thread call, innermost world.calls thread = some call → call.value ≠ none ∧
    ∃ latest, newest world.calls world.provider.thread = some latest ∧ latest.value = call.value

/-- The list of every key holds the calls in progress that recorded it. -/
structure Recorded (world : World Thread Signal) : Prop where
  lists : ∀ key, senders world.provider key = filed world.calls key
  layered : Layered world.calls
  agree : Agree world.calls

theorem recorded_start (thread : Thread) : Recorded (start thread : World Thread Signal) := by
  refine ⟨?_, ⟨[], [], rfl, by simp, by simp⟩, ?_⟩
  · intro key
    simp [start, senders, UnorderedMap.index, filed]
  · intro t u c d found
    simp [start, innermost] at found

theorem signalSender_newest {world : World Thread Signal} (recorded : Recorded world) :
    signalSender world.provider =
      ((newest world.calls world.provider.thread).map (·.value)).join := by
  rw [signalSender_eq, recorded.lists, filed_getLast?]

theorem recorded_step {world after : World Thread Signal} {event : Event Thread Signal}
    (recorded : Recorded world) (step : Step world event after) (agree : Agree after.calls) :
    Recorded after := by
  cases step with
  | enter | query | moveToThread => exact ⟨recorded.lists, recorded.layered, agree⟩
  | @push thread executingThread signal entered =>
    refine ⟨?_, recorded.layered.push recorded.agree _ agree, agree⟩
    intro key
    rw [senders_push, filed_cons, recorded.lists]
  | @pop thread call ready running =>
    refine ⟨?_, recorded.layered.leave thread, agree⟩
    intro key
    rw [senders_pop, filed_leave recorded.layered recorded.agree running, recorded.lists]

theorem Attributed.agree {world : World Thread Signal} (attributed : Attributed world) :
    Agree world.calls := by
  intro t u c d found found'
  have left := (attributed t c found).1
  have right := (attributed u d found').1
  exact left.symm.trans right

theorem Aligned.agree {world : World Thread Signal} (aligned : Aligned world) :
    Agree world.calls := by
  intro t u c d found found'
  obtain ⟨-, latest, present, same⟩ := aligned t c found
  obtain ⟨-, latest', present', same'⟩ := aligned u d found'
  have one : latest = latest' := Option.some.inj (present.symm.trans present')
  exact same.symm.trans ((congrArg Frame.value one).trans same')

theorem attributed_iff_aligned {world : World Thread Signal} (recorded : Recorded world) :
    Attributed world ↔ Aligned world := by
  refine forall₂_congr fun thread call => imp_congr_right fun _ => ?_
  rw [signalSender_newest recorded, and_comm]
  refine and_congr_right fun signal => ?_
  cases newest world.calls world.provider.thread with
  | none => simp [Ne.symm signal]
  | some latest => simp

/-- For every schedule of one provider, with any threads, nesting, interleaving and
moves: a query would be right at every moment, exactly if the innermost calls
agree with the newest one at every moment. -/
theorem always_attributed_iff (thread : Thread) (events : List (Event Thread Signal)) :
    Runs.Always Step Attributed (start thread) events ↔
      Runs.Always Step Aligned (start thread) events :=
  Runs.always_iff_always (recorded_start thread) attributed_iff_aligned
    Attributed.agree Aligned.agree recorded_step

def Event.Answered (world : World Thread Signal) : Event Thread Signal → Prop
  | .query thread answer => answer ≠ none ∧
      ∀ call, innermost world.calls thread = some call → answer = call.value
  | _ => True

/-- Along an aligned schedule every query that is made answers its own call. -/
theorem queries_answered {thread : Thread} {events : List (Event Thread Signal)}
    (aligned : Runs.Always Step Aligned (start thread) events) :
    Runs.Each Step (fun world event => event.Answered world) (start thread) events := by
  have attributed : Runs.Always Step Attributed (start thread) events :=
    (Runs.always_iff_always (recorded_start thread) attributed_iff_aligned
      Attributed.agree Aligned.agree recorded_step).mpr aligned
  intro before event after world next split run step
  have here := attributed before (event :: after) world split run
  cases step with
  | @query thread call ready running =>
    obtain ⟨same, given⟩ := here thread call running
    refine ⟨by rwa [same], ?_⟩
    intro call' running'
    exact (here thread call' running').1
  | _ => trivial

theorem foreign_sender_answered :
    ¬ Runs.Always Step Attributed (start 0 : World Nat Nat)
      [.enter 1 (some 5), .push 1, .enter 2 (some 6), .push 2] := by
  intro always
  have run : Runs.Run Step (start 0 : World Nat Nat)
      [.enter 1 (some 5), .push 1, .enter 2 (some 6), .push 2] _ :=
    .next (.enter rfl) (.next (.push rfl) (.next (.enter rfl) (.next (.push rfl) (.done _))))
  have attributed := always _ [] _ (List.append_nil _).symm run
  exact absurd (attributed 1 ⟨1, 0, some 5⟩ (by decide)).1 (by decide)

end Gymansie.Senders
