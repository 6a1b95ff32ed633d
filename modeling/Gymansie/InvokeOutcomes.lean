import Gymansie.InvokeInContext

/-! What becomes of the lambda of a call of `invokeInContext`. It ends once at
most, by running or by being dropped with its context, and what the call returns
tells whether it does. -/
namespace Gymansie.InvokeInContext
open Runs
universe u v w
variable {Thread : Type u} {Context : Type v} {Args : Type w}

/-- Qt has the lambda, or has had it. -/
def Lambda.Delivered : Lambda Args → Prop
  | .posted _ | .running _ | .ended => True
  | .unmade | .made _ => False

/-- How far the caller and the lambda have got. -/
inductive Stage : Phase → Lambda Args → Prop where
  | entered : Stage .entered .unmade
  | invoking : Stage .invoking (.made capture)
  | directs : Stage .direct (.running capture)
  | directed : Stage .direct .ended
  | waiting (delivered : lambda.Delivered) : Stage .waiting lambda
  | leaving (delivered : lambda.Delivered) : Stage (.leaving true) lambda
  | returned (delivered : lambda.Delivered) : Stage (.returned true) lambda
  | refuses : Stage (.leaving false) .ended
  | refused : Stage (.returned false) .ended

namespace Invocation

/-- Qt runs the lambda before it returns. -/
def Synchronous (call : Invocation Thread Context Args) : Prop :=
  call.connectionType = .direct ∨ call.connectionType = .blockingQueued

/-- The lambda was delivered, and has run or been dropped. -/
def Over (call : Invocation Thread Context Args) : Prop :=
  call.lambda = .ended ∧ call.phase ≠ .leaving false ∧ call.phase ≠ .returned false

structure Staged (call : Invocation Thread Context Args) : Prop where
  stage : Stage call.phase call.lambda
  leaving : call.Synchronous → call.phase ≠ .leaving true
  returned : call.Synchronous → call.phase = .returned true → call.lambda = .ended

variable {call : Invocation Thread Context Args}

theorem staged_enter (caller : Thread) (context : Context) (connectionType : ConnectionType)
    (args : Args) : Staged (enter caller context connectionType args) :=
  ⟨.entered, fun _ absent => (nomatch absent), fun _ absent => (nomatch absent)⟩

theorem not_over_enter (caller : Thread) (context : Context) (connectionType : ConnectionType)
    (args : Args) : ¬ Over (enter caller context connectionType args) := by
  rintro ⟨absent, -⟩
  cases absent

section Decisions
variable [DecidableEq Thread] (home : Context → Thread)

theorem staged_makeLambda (call : Invocation Thread Context Args) : (call.makeLambda home).Staged :=
  ⟨.invoking, fun _ absent => (nomatch absent), fun _ absent => (nomatch absent)⟩

theorem not_over_makeLambda (call : Invocation Thread Context Args) : ¬ (call.makeLambda home).Over := by
  rintro ⟨absent, -⟩
  cases absent

/-- Qt queues nothing that it runs before it returns. -/
theorem Synchronous.not_queued (synchronous : call.Synchronous) (qt : InvokeMethod) :
    qt.choose call.connectionType (call.sameThread home) ≠ .queued := by
  rcases synchronous with direct | blocking
  · simp [direct, qt.direct]
  · simp [blocking, qt.blockingQueued]

theorem staged_dispatch (qt : InvokeMethod) (capture : Capture Args)
    (call : Invocation Thread Context Args) : (call.dispatch home qt capture).Staged := by
  unfold dispatch
  split
  · exact ⟨.directs, fun _ absent => (nomatch absent), fun _ absent => (nomatch absent)⟩
  · exact ⟨.waiting trivial, fun _ absent => (nomatch absent), fun _ absent => (nomatch absent)⟩
  · next queued =>
    refine ⟨.leaving trivial, ?_, fun _ absent => (nomatch absent)⟩
    intro synchronous
    exact absurd queued (Synchronous.not_queued home synchronous qt)
  · exact ⟨.refuses, fun _ absent => (nomatch absent), fun _ absent => (nomatch absent)⟩

theorem not_over_dispatch (qt : InvokeMethod) (capture : Capture Args)
    (call : Invocation Thread Context Args) : ¬ (call.dispatch home qt capture).Over := by
  unfold dispatch
  split <;> rintro ⟨ended, unrefused, -⟩
  · cases ended
  · cases ended
  · cases ended
  · exact unrefused rfl

end Decisions

theorem Staged.start (staged : call.Staged) (posted : call.lambda = .posted capture) :
    Staged { call with lambda := .running capture } := by
  obtain ⟨stage, leaving, returned⟩ := staged
  rw [posted] at stage
  refine ⟨?_, leaving, ?_⟩
  · cases phase : call.phase <;> rw [phase] at stage <;> cases stage
    · exact .waiting trivial
    · exact .leaving trivial
    · exact .returned trivial
  · intro synchronous done
    have ended := returned synchronous done
    rw [posted] at ended
    cases ended

theorem Staged.stop (staged : call.Staged)
    (given : (∃ capture, call.lambda = .posted capture) ∨ ∃ capture, call.lambda = .running capture) :
    Staged { call with lambda := .ended } ∧ Over { call with lambda := .ended } := by
  obtain ⟨stage, leaving, returned⟩ := staged
  have unrefused : call.phase ≠ .leaving false ∧ call.phase ≠ .returned false := by
    constructor <;> intro refused <;> rw [refused] at stage <;> rcases given with ⟨_, given⟩ | ⟨_, given⟩ <;>
      rw [given] at stage <;> cases stage
  refine ⟨⟨?_, leaving, fun _ _ => rfl⟩, rfl, unrefused⟩
  cases phase : call.phase <;> rw [phase] at stage <;> rcases given with ⟨_, given⟩ | ⟨_, given⟩ <;>
    rw [given] at stage <;> cases stage
  · exact .directed
  · exact .waiting trivial
  · exact .waiting trivial
  · exact .leaving trivial
  · exact .leaving trivial
  · exact .returned trivial
  · exact .returned trivial

theorem Staged.leave (staged : call.Staged) (done : call.outcome = some invoked) :
    Staged { call with phase := .returned invoked } ∧
      (Over { call with phase := .returned invoked } ↔ call.Over) := by
  obtain ⟨stage, leaving, returned⟩ := staged
  unfold outcome at done
  split at done
  · next phase ended =>
    obtain rfl := Option.some.inj done
    refine ⟨⟨?_, fun _ absent => (nomatch absent), fun _ _ => ended⟩, ?_⟩
    · rw [ended]
      exact .returned trivial
    · simp [Over, phase]
  · next phase ended =>
    obtain rfl := Option.some.inj done
    refine ⟨⟨?_, fun _ absent => (nomatch absent), fun _ _ => ended⟩, ?_⟩
    · rw [ended]
      exact .returned trivial
    · simp [Over, phase]
  · next answer phase =>
    obtain rfl : answer = invoked := Option.some.inj done
    rw [phase] at stage
    cases answer with
    | false =>
      have ended : call.lambda = .ended := by
        cases given : call.lambda <;> rw [given] at stage <;> cases stage
      refine ⟨⟨?_, fun _ absent => (nomatch absent), fun _ _ => ended⟩, by simp [Over, phase]⟩
      rw [ended]
      exact .refused
    | true =>
      refine ⟨⟨?_, fun _ absent => (nomatch absent), ?_⟩, by simp [Over, phase]⟩
      · cases stage with
        | leaving delivered => exact .returned delivered
      · intro synchronous
        exact absurd phase (leaving synchronous)
  · contradiction

end Invocation

/-! ### Each lambda ends once at most -/

/-- The lambda of the call ends: the callable has returned, or Qt drops it. -/
def Event.ends (index : Nat) : Event Thread Context Args → Bool
  | .finish index' | .discard index' => index' = index
  | _ => false

/-- How often the lambda of the call has ended. -/
def ends (index : Nat) (events : List (Event Thread Context Args)) : Nat :=
  events.countP (Event.ends index)

/-- The lambda is over if it has ended once, and has not ended otherwise. -/
def Counted (call : Invocation Thread Context Args) (times : Nat) : Prop :=
  times = 1 ∧ call.Over ∨ times = 0 ∧ ¬ call.Over

structure Accounted (events : List (Event Thread Context Args)) (system : System Thread Context Args) :
    Prop where
  staged : ∀ (index : Nat) (call : Invocation Thread Context Args),
    system.calls[index]? = some call → call.Staged
  counted : ∀ (index : Nat) (call : Invocation Thread Context Args),
    system.calls[index]? = some call → Counted call (ends index events)
  fresh : ∀ index, system.calls.length ≤ index → ends index events = 0

variable {system after : System Thread Context Args} {call next : Invocation Thread Context Args}
  {event : Event Thread Context Args} {events : List (Event Thread Context Args)}

theorem ends_snoc (index : Nat) (events : List (Event Thread Context Args))
    (last : Event Thread Context Args) :
    ends index (events ++ [last]) = ends index events + if last.ends index then 1 else 0 := by
  rw [ends, List.countP_append, List.countP_singleton, ends]

theorem ends_quiet (quiet : ∀ index, event.ends index = false) (index : Nat) :
    ends index (events ++ [event]) = ends index events := by
  rw [ends_snoc, quiet, if_neg Bool.false_ne_true, Nat.add_zero]

theorem found_put {index : Nat} (found : system.calls[index]? = some call) (next : Invocation Thread Context Args)
    (other : Nat) : (system.put index next).calls[other]? =
      if index = other then some next else system.calls[other]? := by
  have bound : index < system.calls.length := (List.getElem?_eq_some_iff.mp found).1
  rw [System.put, List.getElem?_set, if_pos bound]

theorem accounted_put {index : Nat} (accounted : Accounted events system)
    (found : system.calls[index]? = some call) (staged : next.Staged)
    (counted : Counted next (ends index (events ++ [event])))
    (others : ∀ other, other ≠ index → event.ends other = false) :
    Accounted (events ++ [event]) (system.put index next) := by
  have quiet {other : Nat} (different : other ≠ index) : ends other (events ++ [event]) = ends other events := by
    rw [ends_snoc, others other different, if_neg Bool.false_ne_true, Nat.add_zero]
  refine ⟨?_, ?_, ?_⟩
  · intro other given found'
    rw [found_put found] at found'
    split at found'
    · exact Option.some.inj found' ▸ staged
    · exact accounted.staged other given found'
  · intro other given found'
    rw [found_put found] at found'
    split at found'
    · rename_i same
      rw [← same, ← Option.some.inj found']
      exact counted
    · rename_i different
      rw [quiet (Ne.symm different)]
      exact accounted.counted other given found'
  · intro other beyond
    have bound : index < system.calls.length := (List.getElem?_eq_some_iff.mp found).1
    rw [System.put, List.length_set] at beyond
    rw [quiet (by omega)]
    exact accounted.fresh other beyond

/-- A step that ends no lambda and leaves the call over or not. -/
theorem accounted_quiet {index : Nat} (accounted : Accounted events system)
    (found : system.calls[index]? = some call) (staged : next.Staged) (same : next.Over ↔ call.Over)
    (quiet : ∀ index, event.ends index = false) :
    Accounted (events ++ [event]) (system.put index next) := by
  refine accounted_put accounted found staged ?_ fun other _ => quiet other
  rw [ends_quiet quiet, Counted, same]
  exact accounted.counted index call found

/-- A step that ends the lambda of the call. -/
theorem accounted_stop {index : Nat} (accounted : Accounted events system)
    (found : system.calls[index]? = some call)
    (given : (∃ capture, call.lambda = .posted capture) ∨ ∃ capture, call.lambda = .running capture)
    (stops : ∀ other, event.ends other = decide (index = other)) :
    Accounted (events ++ [event]) (system.put index { call with lambda := .ended }) := by
  obtain ⟨staged, stopped⟩ := (accounted.staged index call found).stop given
  have unended : ends index events = 0 := by
    rcases accounted.counted index call found with ⟨-, ended, -⟩ | ⟨none, -⟩
    · rcases given with ⟨_, given⟩ | ⟨_, given⟩ <;> rw [given] at ended <;> cases ended
    · exact none
  refine accounted_put accounted found staged ?_ ?_
  · refine .inl ⟨?_, stopped⟩
    rw [ends_snoc, unended, stops, decide_eq_true rfl, if_pos rfl]
  · intro other different
    rw [stops, decide_eq_false (Ne.symm different)]

/-- The threads' stacks do not matter here. -/
theorem Accounted.withStack [DecidableEq Thread] (accounted : Accounted events system) (thread : Thread)
    (running : List Nat) : Accounted events (system.withStack thread running) :=
  ⟨accounted.staged, accounted.counted, accounted.fresh⟩

theorem accounted_same (accounted : Accounted events system) (same : after.calls = system.calls)
    (quiet : ∀ index, event.ends index = false) : Accounted (events ++ [event]) after := by
  refine ⟨?_, ?_, ?_⟩
  · rw [same]
    exact accounted.staged
  · rw [same]
    intro index call found
    rw [ends_quiet quiet]
    exact accounted.counted index call found
  · rw [same]
    intro index beyond
    rw [ends_quiet quiet]
    exact accounted.fresh index beyond

/-- A new call has an index that nothing has happened to. -/
theorem accounted_call (accounted : Accounted events system) (caller : Thread) (context : Context)
    (connectionType : ConnectionType) (args : Args) :
    Accounted (events ++ [.call caller context connectionType args])
      { system with calls := system.calls ++ [.enter caller context connectionType args] } := by
  have quiet : ∀ index, (Event.call caller context connectionType args).ends index = false :=
    fun _ => rfl
  have known {index : Nat} {call : Invocation Thread Context Args}
      (found : (system.calls ++ [.enter caller context connectionType args])[index]? = some call) :
      system.calls[index]? = some call ∨
        index = system.calls.length ∧ call = .enter caller context connectionType args := by
    rw [List.getElem?_append] at found
    split at found
    · exact .inl found
    · rename_i beyond
      obtain ⟨last, same⟩ := List.getElem?_eq_some_iff.mp found
      rw [List.length_singleton] at last
      exact .inr ⟨by omega, by simpa using same.symm⟩
  refine ⟨?_, ?_, ?_⟩
  · intro index call found
    rcases known found with found | ⟨-, rfl⟩
    · exact accounted.staged index call found
    · exact Invocation.staged_enter ..
  · intro index call found
    rw [ends_quiet quiet]
    rcases known found with found | ⟨rfl, rfl⟩
    · exact accounted.counted index call found
    · exact .inr ⟨accounted.fresh _ (Nat.le_refl _), Invocation.not_over_enter _ _ _ _⟩
  · intro index beyond
    rw [ends_quiet quiet]
    rw [List.length_append] at beyond
    exact accounted.fresh index (by omega)

variable [DecidableEq Thread] [DecidableEq Context]

omit [DecidableEq Context] in
theorem accounted_dispatch {index : Nat} (accounted : Accounted events system)
    (found : system.calls[index]? = some call) (made : call.lambda = .made capture) :
    Accounted (events ++ [.dispatch index])
      (system.put index (call.dispatch system.home qt capture)) := by
  refine accounted_quiet accounted found (Invocation.staged_dispatch _ _ _ _) ?_ fun _ => rfl
  refine iff_of_false (Invocation.not_over_dispatch _ _ _ _) ?_
  rintro ⟨ended, -⟩
  rw [made] at ended
  cases ended

theorem accounted_step (accounted : Accounted events system) (step : Step qt system event after) :
    Accounted (events ++ [event]) after := by
  cases step with
  | call free => exact accounted_call accounted ..
  | capture found entered =>
    have stage := (accounted.staged _ _ found).stage
    refine accounted_quiet accounted found (Invocation.staged_makeLambda _ _) ?_ fun _ => rfl
    refine iff_of_false (Invocation.not_over_makeLambda _ _) ?_
    rintro ⟨ended, -⟩
    rw [entered, ended] at stage
    cases stage
  | dispatch found invoking made => exact accounted_dispatch accounted found made
  | dispatchDirect found invoking made => exact (accounted_dispatch accounted found made).withStack _ _
  | start found posted =>
    have staged := (accounted.staged _ _ found).start posted
    refine (accounted_quiet accounted found staged ?_ fun _ => rfl).withStack _ _
    simp [Invocation.Over, posted]
  | discard found posted => exact accounted_stop accounted found (.inl ⟨_, posted⟩) fun _ => rfl
  | read found running =>
    obtain ⟨stage, leaving, returned⟩ := accounted.staged _ _ found
    exact accounted_quiet accounted found ⟨stage, leaving, returned⟩ Iff.rfl fun _ => rfl
  | finish found running =>
    exact (accounted_stop accounted found (.inr ⟨_, running⟩) fun _ => rfl).withStack _ _
  | leave found done =>
    obtain ⟨staged, same⟩ := (accounted.staged _ _ found).leave done
    exact accounted_quiet accounted found staged same fun _ => rfl
  | assign found returned =>
    obtain ⟨stage, leaving, back⟩ := accounted.staged _ _ found
    exact accounted_quiet accounted found ⟨stage, leaving, back⟩ Iff.rfl fun _ => rfl
  | moveToThread free => exact accounted_same accounted rfl fun _ => rfl

theorem accounted_run {home : Context → Thread}
    (run : Run (Step qt) (idle home : System Thread Context Args) events system) :
    Accounted events system := by
  induction run using Runs.Run.snoc_induction with
  | initial =>
    exact ⟨fun index call found => by simp [idle] at found, fun index call found => by simp [idle] at found,
      fun _ _ => rfl⟩
  | @snoc events system event after run step accounted => exact accounted_step accounted step

end Gymansie.InvokeInContext
