import Gymansie.Senders

/-! Trees of `callSlot` calls on the provider's own thread. A callable asks for
its sender, calls slots of the same provider and ends by returning or by an
exception; `callSlot` pops its entry only behind a callable that returned. Every
other exit leaves an entry of the thread's list behind, and nothing else changes.
Without such an exit the tree runs as if there were no lists, each query given the
signal of its own call. -/
namespace Gymansie.Senders
variable {Thread Signal : Type} [DecidableEq Thread]

inductive Exit where
  | returned
  | threw
  deriving DecidableEq

/-- A callable goes on by the answer to each query and by the exit of each call
it makes; to let an exception through it throws again. -/
inductive Callable (Signal : Type) where
  | returns
  | throws
  | signalSender (next : Ptr Signal → Callable Signal)
  | callSlot (signal : Ptr Signal) (callable : Callable Signal) (next : Exit → Callable Signal)

structure Ran (Thread Signal : Type) where
  exit : Exit
  provider : SlotProvider Thread Signal
  -- the queries in order: the signal of the enclosing call and the answer
  answers : List (Ptr Signal × Ptr Signal)
  -- how many calls were left by an exception
  unwound : Nat

def callSlot (provider : SlotProvider Thread Signal) (signal : Ptr Signal)
    (callable_object : SlotProvider Thread Signal → Ran Thread Signal) : Ran Thread Signal :=
  let executingThread := provider.thread
  let ran := callable_object (pushSender provider executingThread signal)
  match ran.exit with
  | .returned => { ran with provider := popSender ran.provider executingThread }
  | .threw => { ran with unwound := ran.unwound + 1 }

/-- `std::invoke` of a callable inside the call that was given `enclosing`. -/
def invoke : Callable Signal → Ptr Signal → SlotProvider Thread Signal → Ran Thread Signal
  | .returns, _, provider => ⟨.returned, provider, [], 0⟩
  | .throws, _, provider => ⟨.threw, provider, [], 0⟩
  | .signalSender next, enclosing, provider =>
    let answer := Senders.signalSender provider
    let rest := invoke (next answer) enclosing provider
    { rest with answers := (enclosing, answer) :: rest.answers }
  | .callSlot signal callable next, enclosing, provider =>
    let inner := Senders.callSlot provider signal (invoke callable signal)
    let rest := invoke (next inner.exit) enclosing inner.provider
    ⟨rest.exit, rest.provider, inner.answers ++ rest.answers, inner.unwound + rest.unwound⟩

/-- The provider's own list has `left` further entries at its end; its thread
and the lists of all other threads are the same. -/
structure Grown (before after : SlotProvider Thread Signal) (left : Nat) : Prop where
  thread : after.thread = before.thread
  others : ∀ key, key ≠ before.thread → senders after key = senders before key
  own : ∃ stale, senders after before.thread = senders before before.thread ++ stale ∧
    stale.length = left

theorem Grown.refl (provider : SlotProvider Thread Signal) : Grown provider provider 0 :=
  ⟨rfl, fun _ _ => rfl, [], by simp⟩

theorem Grown.trans {a b c : SlotProvider Thread Signal} (first : Grown a b m) (second : Grown b c n) :
    Grown a c (m + n) := by
  obtain ⟨thread, others, stale, own, length⟩ := first
  obtain ⟨thread', others', stale', own', length'⟩ := second
  rw [thread] at others' own'
  refine ⟨thread'.trans thread, ?_, stale ++ stale', ?_, ?_⟩
  · intro key other
    exact (others' key other).trans (others key other)
  · rw [own', own, List.append_assoc]
  · rw [List.length_append, length, length']

theorem Grown.senders_eq {before after : SlotProvider Thread Signal} (grown : Grown before after 0)
    (key : Thread) : senders after key = senders before key := by
  obtain ⟨-, others, stale, own, length⟩ := grown
  by_cases same : key = before.thread
  · rw [same, own, List.eq_nil_of_length_eq_zero length, List.append_nil]
  · exact others key same

@[simp]
theorem callSlot_answers (provider : SlotProvider Thread Signal) (signal : Ptr Signal)
    (callable : SlotProvider Thread Signal → Ran Thread Signal) :
    (callSlot provider signal callable).answers =
      (callable (pushSender provider provider.thread signal)).answers := by
  unfold callSlot
  cases exit : (callable (pushSender provider provider.thread signal)).exit <;> simp only [exit]

@[simp]
theorem callSlot_exit (provider : SlotProvider Thread Signal) (signal : Ptr Signal)
    (callable : SlotProvider Thread Signal → Ran Thread Signal) :
    (callSlot provider signal callable).exit =
      (callable (pushSender provider provider.thread signal)).exit := by
  unfold callSlot
  cases exit : (callable (pushSender provider provider.thread signal)).exit <;> simp only [exit]

theorem callSlot_unwound (provider : SlotProvider Thread Signal) (signal : Ptr Signal)
    (callable : SlotProvider Thread Signal → Ran Thread Signal) :
    (callSlot provider signal callable).unwound =
      (callable (pushSender provider provider.thread signal)).unwound +
        if (callable (pushSender provider provider.thread signal)).exit = .threw then 1 else 0 := by
  unfold callSlot
  cases exit : (callable (pushSender provider provider.thread signal)).exit <;> simp [exit]

theorem grown_callSlot {callable : SlotProvider Thread Signal → Ran Thread Signal}
    (grows : ∀ provider, Grown provider (callable provider).provider (callable provider).unwound)
    (provider : SlotProvider Thread Signal) (signal : Ptr Signal) :
    Grown provider (callSlot provider signal callable).provider
      (callSlot provider signal callable).unwound := by
  have pushed (key : Thread) :
      senders (pushSender provider provider.thread signal) key =
        if key = provider.thread then senders provider key ++ [signal] else senders provider key :=
    senders_push provider _ key signal
  obtain ⟨thread, others, stale, own, length⟩ := grows (pushSender provider provider.thread signal)
  rw [pushSender_thread] at thread others own
  rw [pushed, if_pos rfl, List.append_assoc] at own
  have untouched (key : Thread) (other : key ≠ provider.thread) :
      senders (callable (pushSender provider provider.thread signal)).provider key =
        senders provider key := by
    rw [others key other, pushed, if_neg other]
  unfold callSlot
  cases exit : (callable (pushSender provider provider.thread signal)).exit with
  | returned =>
    simp only [exit]
    -- the entry popped is the newest stale one, or the call's own if there is none
    refine ⟨thread, ?_, ([signal] ++ stale).dropLast, ?_, ?_⟩
    · intro key other
      rw [senders_pop, if_neg other, untouched key other]
    · rw [senders_pop, if_pos rfl, own, List.dropLast_append_of_ne_nil (by simp)]
    · rw [List.length_dropLast, List.length_append, List.length_singleton, length]
      omega
  | threw =>
    simp only [exit]
    refine ⟨thread, untouched, [signal] ++ stale, own, ?_⟩
    rw [List.length_append, List.length_singleton, length]
    omega

theorem grown_invoke (callable : Callable Signal) (enclosing : Ptr Signal)
    (provider : SlotProvider Thread Signal) :
    Grown provider (invoke callable enclosing provider).provider
      (invoke callable enclosing provider).unwound := by
  induction callable generalizing enclosing provider with
  | returns => exact .refl provider
  | throws => exact .refl provider
  | signalSender next ih => exact ih (signalSender provider) enclosing provider
  | callSlot signal callable next inner rest =>
    exact (grown_callSlot (inner signal) provider signal).trans (rest _ enclosing _)

theorem newest_pushed (provider : SlotProvider Thread Signal) (signal : Ptr Signal) :
    (senders (pushSender provider provider.thread signal)
      (pushSender provider provider.thread signal).thread).getLast? = some signal := by
  rw [pushSender_thread, senders_push, if_pos rfl, List.getLast?_append, List.getLast?_singleton,
    Option.some_or]

/-- How a callable ends, and the signals of the calls around its queries. -/
structure Course (Signal : Type) where
  exit : Exit
  queries : List (Ptr Signal)
  unwound : Nat

/-- The callable in a call given `enclosing`, if each query were answered by the
signal of its own call. -/
def course : Callable Signal → Ptr Signal → Course Signal
  | .returns, _ => ⟨.returned, [], 0⟩
  | .throws, _ => ⟨.threw, [], 0⟩
  | .signalSender next, enclosing =>
    let rest := course (next enclosing) enclosing
    { rest with queries := enclosing :: rest.queries }
  | .callSlot signal callable next, enclosing =>
    let inner := course callable signal
    let rest := course (next inner.exit) enclosing
    ⟨rest.exit, inner.queries ++ rest.queries,
      inner.unwound + (if inner.exit = .threw then 1 else 0) + rest.unwound⟩

/-- Neither the callable nor any of the calls inside it ends by an exception. -/
def Callable.ReturnsNormally (callable : Callable Signal) (enclosing : Ptr Signal) : Prop :=
  (course callable enclosing).exit = .returned ∧ (course callable enclosing).unwound = 0

/-- A callable takes its course, and each query is answered accordingly. -/
structure Follows (ran : Ran Thread Signal) (course : Course Signal) : Prop where
  exit : ran.exit = course.exit
  answers : ran.answers = course.queries.map fun signal => (signal, signal)
  unwound : ran.unwound = 0

theorem follows_callSlot {callable : SlotProvider Thread Signal → Ran Thread Signal}
    {provider : SlotProvider Thread Signal} {signal : Ptr Signal} {course : Course Signal}
    (follows : Follows (callable (pushSender provider provider.thread signal)) course)
    (returned : course.exit = .returned) : Follows (callSlot provider signal callable) course := by
  obtain ⟨exit, answers, unwound⟩ := follows
  constructor
  · rw [callSlot_exit, exit]
  · rw [callSlot_answers, answers]
  · rw [callSlot_unwound, unwound, exit, returned, if_neg nofun]

theorem newest_restored {provider : SlotProvider Thread Signal} {enclosing : Ptr Signal}
    (newest : (senders provider provider.thread).getLast? = some enclosing) (signal : Ptr Signal)
    (callable : Callable Signal)
    (returned : (callSlot provider signal (invoke callable signal)).unwound = 0) :
    (senders (callSlot provider signal (invoke callable signal)).provider
      (callSlot provider signal (invoke callable signal)).provider.thread).getLast? = some enclosing := by
  have grown := grown_callSlot (grown_invoke callable signal) provider signal
  rw [returned] at grown
  rw [grown.thread, grown.senders_eq, newest]

theorem returned_of_unthrown {exit : Exit} (unthrown : (if exit = .threw then 1 else 0) = 0) :
    exit = .returned := by
  cases exit with
  | returned => rfl
  | threw => simp at unthrown

/-- Inside a call whose entry is the newest, the lists are again as they were
after each inner call, so every query still finds that entry. -/
theorem follows_invoke {callable : Callable Signal} {enclosing : Ptr Signal}
    {provider : SlotProvider Thread Signal}
    (newest : (senders provider provider.thread).getLast? = some enclosing)
    (returned : (course callable enclosing).unwound = 0) :
    Follows (invoke callable enclosing provider) (course callable enclosing) := by
  induction callable generalizing enclosing provider with
  | returns => exact ⟨rfl, rfl, rfl⟩
  | throws => exact ⟨rfl, rfl, rfl⟩
  | signalSender next ih =>
    have answered : signalSender provider = enclosing := by
      rw [signalSender_eq, newest, Option.join_some]
    obtain ⟨exit, answers, unwound⟩ := ih enclosing newest returned
    simp only [invoke, course, answered]
    exact ⟨exit, by rw [answers, List.map_cons], unwound⟩
  | callSlot signal callable next inner rest =>
    obtain ⟨inside, restReturned⟩ := Nat.add_eq_zero_iff.mp returned
    obtain ⟨innerReturned, unthrown⟩ := Nat.add_eq_zero_iff.mp inside
    have called := follows_callSlot (inner (newest_pushed provider signal) innerReturned)
      (returned_of_unthrown unthrown)
    have later := rest _ (newest_restored newest signal callable called.unwound) restReturned
    rw [← called.exit] at later
    constructor
    · simp only [invoke, course, ← called.exit, later.exit]
    · simp only [invoke, course, ← called.exit, called.answers, later.answers, List.map_append]
    · simp only [invoke, called.unwound, later.unwound]

theorem course_of_invoke {callable : Callable Signal} {enclosing : Ptr Signal}
    {provider : SlotProvider Thread Signal}
    (newest : (senders provider provider.thread).getLast? = some enclosing)
    (returned : (invoke callable enclosing provider).unwound = 0) :
    (course callable enclosing).unwound = 0 := by
  induction callable generalizing enclosing provider with
  | returns => rfl
  | throws => rfl
  | signalSender next ih =>
    have answered : signalSender provider = enclosing := by
      rw [signalSender_eq, newest, Option.join_some]
    simp only [invoke, answered] at returned
    exact ih enclosing newest returned
  | callSlot signal callable next inner rest =>
    obtain ⟨called, restReturned⟩ := Nat.add_eq_zero_iff.mp returned
    have restored := newest_restored newest signal callable called
    rw [callSlot_unwound] at called
    obtain ⟨inside, unthrown⟩ := Nat.add_eq_zero_iff.mp called
    have innerReturned := inner (newest_pushed provider signal) inside
    have follows := follows_invoke (newest_pushed provider signal) innerReturned
    rw [callSlot_exit, follows.exit] at restReturned
    rw [follows.exit] at unthrown
    exact Nat.add_eq_zero_iff.mpr ⟨Nat.add_eq_zero_iff.mpr ⟨innerReturned, unthrown⟩,
      rest _ restored restReturned⟩

/-- The calls of a tree return normally exactly if they do on the course. -/
theorem returnsNormally_iff (provider : SlotProvider Thread Signal) (signal : Ptr Signal)
    (callable : Callable Signal) :
    callable.ReturnsNormally signal ↔
      (callSlot provider signal (invoke callable signal)).unwound = 0 := by
  have newest := newest_pushed provider signal
  constructor
  · rintro ⟨ends, unthrown⟩
    exact (follows_callSlot (follows_invoke newest unthrown) ends).unwound
  · intro returned
    rw [callSlot_unwound] at returned
    obtain ⟨inside, unthrown⟩ := Nat.add_eq_zero_iff.mp returned
    have unwound := course_of_invoke newest inside
    rw [(follows_invoke newest unwound).exit] at unthrown
    exact ⟨returned_of_unthrown unthrown, unwound⟩

/-- For every tree of calls that all return, from any sender lists: the callable
takes the course it takes when each query gives the signal of its own call, and
the lists are left as they were. -/
theorem nested_calls_attributed (provider : SlotProvider Thread Signal) (signal : Ptr Signal)
    (callable : Callable Signal) (returns : callable.ReturnsNormally signal) :
    (callSlot provider signal (invoke callable signal)).exit = .returned ∧
      (callSlot provider signal (invoke callable signal)).answers =
        (course callable signal).queries.map (fun enclosing => (enclosing, enclosing)) ∧
      ∀ thread, senders (callSlot provider signal (invoke callable signal)).provider thread =
        senders provider thread := by
  obtain ⟨ends, unthrown⟩ := returns
  have follows := follows_callSlot (follows_invoke (newest_pushed provider signal) unthrown) ends
  have grown := grown_callSlot (grown_invoke callable signal) provider signal
  rw [follows.unwound] at grown
  exact ⟨follows.exit.trans ends, follows.answers, grown.senders_eq⟩

theorem nested_calls_attributed_twice :
    (callSlot (⟨0, ∅⟩ : SlotProvider Nat Nat) (some 5) (invoke (.signalSender fun _ =>
        .callSlot (some 6) (.signalSender fun _ => .returns) fun _ => .signalSender fun _ => .returns)
        (some 5))).answers = [(some 5, some 5), (some 6, some 6), (some 5, some 5)] ∧
      ∀ thread, senders (callSlot (⟨0, ∅⟩ : SlotProvider Nat Nat) (some 5) (invoke (.signalSender fun _ =>
        .callSlot (some 6) (.signalSender fun _ => .returns) fun _ => .signalSender fun _ => .returns)
        (some 5))).provider thread = senders ⟨0, ∅⟩ thread :=
  (nested_calls_attributed ⟨0, ∅⟩ (some 5) _ ⟨rfl, rfl⟩).2

/-- An exception that leaves the outermost call leaves its entry behind,
whatever the lists were and whatever was thrown and caught before. -/
theorem throwing_call_leaves_entry (provider : SlotProvider Thread Signal) (signal : Ptr Signal)
    (callable : Callable Signal)
    (threw : (callSlot provider signal (invoke callable signal)).exit = .threw) :
    ¬ ∀ thread, senders (callSlot provider signal (invoke callable signal)).provider thread =
      senders provider thread := by
  intro restored
  have grown := grown_callSlot (grown_invoke callable signal) provider signal
  obtain ⟨stale, own, length⟩ := grown.own
  have lengths := congrArg List.length own
  rw [callSlot_unwound, ← callSlot_exit, if_pos threw] at length
  rw [restored, List.length_append] at lengths
  omega

theorem throwing_call_leaves_entry_null :
    ¬ ∀ thread, senders (callSlot (⟨0, ∅⟩ : SlotProvider Nat Nat) none (invoke .throws none)).provider
      thread = senders ⟨0, ∅⟩ thread :=
  throwing_call_leaves_entry _ _ _ rfl

theorem failed_call_reported :
    (callSlot (⟨0, ∅⟩ : SlotProvider Nat Nat) (some 5) (invoke .throws (some 5))).exit = .threw ∧
      senders (callSlot (⟨0, ∅⟩ : SlotProvider Nat Nat) (some 5)
        (invoke .throws (some 5))).provider 0 ≠ senders ⟨0, ∅⟩ 0 ∧
      signalSender (callSlot (⟨0, ∅⟩ : SlotProvider Nat Nat) (some 5)
        (invoke .throws (some 5))).provider = some 5 := by
  decide

end Gymansie.Senders
