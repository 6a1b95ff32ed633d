import Gymansie.InvokeOutcomes

/-! Which thread runs the lambda of a call. A lambda is on the stack of one
thread from when it begins to run until it ends. -/
namespace Gymansie.InvokeInContext
open Runs
universe u v w
variable {Thread : Type u} {Context : Type v} {Args : Type w}

def Lambda.Running (lambda : Lambda Args) : Prop := ∃ capture, lambda = .running capture

/-- The stacks hold the lambdas that run, each once. -/
structure Stacked (system : System Thread Context Args) : Prop where
  runs : ∀ index thread, index ∈ system.stack thread →
    ∃ call, system.calls[index]? = some call ∧ call.lambda.Running
  listed : ∀ (index : Nat) (call : Invocation Thread Context Args),
    system.calls[index]? = some call → call.lambda.Running → ∃ thread, index ∈ system.stack thread
  alone : ∀ index thread other, index ∈ system.stack thread → index ∈ system.stack other →
    thread = other
  nodup : ∀ thread, (system.stack thread).Nodup

variable {system after : System Thread Context Args} {call next : Invocation Thread Context Args}
  {event : Event Thread Context Args} {events : List (Event Thread Context Args)} {index : Nat}

theorem Stacked.running (stacked : Stacked system) (found : system.calls[index]? = some call)
    {thread : Thread} (listed : index ∈ system.stack thread) : call.lambda.Running := by
  obtain ⟨listedCall, found', running⟩ := stacked.runs index thread listed
  obtain rfl := Option.some.inj (found.symm.trans found')
  exact running

/-- A step after which the lambda runs if it did before. -/
theorem Stacked.put (stacked : Stacked system) (found : system.calls[index]? = some call)
    (same : next.lambda.Running ↔ call.lambda.Running) : Stacked (system.put index next) := by
  refine ⟨?_, ?_, stacked.alone, stacked.nodup⟩
  · intro other thread listed
    obtain ⟨listedCall, found', running⟩ := stacked.runs other thread listed
    rw [found_put found]
    by_cases here : index = other
    · subst other
      exact ⟨next, if_pos rfl, same.mpr (stacked.running found listed)⟩
    · exact ⟨listedCall, by rw [if_neg here, found'], running⟩
  · intro other given found' running
    rw [found_put found] at found'
    split at found'
    · rename_i here
      subst other
      obtain rfl := Option.some.inj found'
      exact stacked.listed index call found (same.mp running)
    · exact stacked.listed other given found' running

section Steps
variable [DecidableEq Thread]

@[simp]
theorem withStack_calls (thread : Thread) (running : List Nat) :
    (system.withStack thread running).calls = system.calls := rfl

theorem mem_withStack {thread other : Thread} {running : List Nat} {place : Nat} :
    place ∈ (system.withStack thread running).stack other ↔
      other = thread ∧ place ∈ running ∨ other ≠ thread ∧ place ∈ system.stack other := by
  by_cases same : other = thread
  · subst other
    simp [System.withStack]
  · simp [System.withStack, same]

/-- A thread begins to run the lambda. -/
theorem Stacked.begun (stacked : Stacked system) (found : system.calls[index]? = some call)
    (before : ¬ call.lambda.Running) (running : next.lambda.Running) (thread : Thread) :
    Stacked ((system.put index next).withStack thread (index :: system.stack thread)) := by
  have unlisted (other : Thread) : index ∉ system.stack other :=
    fun listed => before (stacked.running found listed)
  have listed_iff (place : Nat) (other : Thread) :
      place ∈ ((system.put index next).withStack thread (index :: system.stack thread)).stack other ↔
        place = index ∧ other = thread ∨ place ∈ system.stack other := by
    rw [mem_withStack]
    by_cases same : other = thread <;> simp [same, System.put]
  refine ⟨?_, ?_, ?_, ?_⟩
  · intro place other listed
    simp only [withStack_calls, found_put found]
    rcases (listed_iff place other).mp listed with ⟨rfl, -⟩ | earlier
    · exact ⟨next, if_pos rfl, running⟩
    · obtain ⟨listedCall, found', running'⟩ := stacked.runs place other earlier
      refine ⟨listedCall, ?_, running'⟩
      rw [if_neg, found']
      rintro rfl
      exact unlisted other earlier
  · intro place given found' running'
    rw [withStack_calls, found_put found] at found'
    simp only [listed_iff]
    split at found'
    · rename_i here
      exact ⟨thread, .inl ⟨here.symm, rfl⟩⟩
    · obtain ⟨other, earlier⟩ := stacked.listed place given found' running'
      exact ⟨other, .inr earlier⟩
  · intro place first second listed listed'
    rw [listed_iff] at listed listed'
    rcases listed with ⟨same, here⟩ | earlier <;> rcases listed' with ⟨same', here'⟩ | earlier'
    · rw [here, here']
    · exact absurd (same ▸ earlier') (unlisted second)
    · exact absurd (same' ▸ earlier) (unlisted first)
    · exact stacked.alone place first second earlier earlier'
  · intro other
    by_cases same : other = thread
    · subst other
      simpa [System.withStack] using ⟨unlisted thread, stacked.nodup thread⟩
    · simpa [System.withStack, System.put, same] using stacked.nodup other

/-- The innermost lambda of a thread ends. -/
theorem Stacked.ended (stacked : Stacked system) (found : system.calls[index]? = some call)
    {thread : Thread} (innermost : system.stack thread = index :: outer)
    (gone : ¬ next.lambda.Running) : Stacked ((system.put index next).withStack thread outer) := by
  obtain ⟨fresh, rest⟩ := List.nodup_cons.mp (innermost ▸ stacked.nodup thread)
  have here : index ∈ system.stack thread := by
    rw [innermost]
    exact List.mem_cons_self
  have listed_iff (place : Nat) (other : Thread) :
      place ∈ ((system.put index next).withStack thread outer).stack other ↔
        place ≠ index ∧ place ∈ system.stack other := by
    rw [mem_withStack]
    by_cases same : other = thread
    · subst other
      simp only [innermost, List.mem_cons, true_and, ne_eq, not_true_eq_false, false_and, or_false]
      refine ⟨fun listed => ⟨?_, .inr listed⟩, fun both => both.2.resolve_left both.1⟩
      rintro rfl
      exact fresh listed
    · simp only [same, false_and, ne_eq, not_false_eq_true, true_and, false_or]
      refine ⟨fun listed => ⟨?_, listed⟩, And.right⟩
      rintro rfl
      exact same (stacked.alone place other thread listed here)
  refine ⟨?_, ?_, ?_, ?_⟩
  · intro place other listed
    obtain ⟨elsewhere, earlier⟩ := (listed_iff place other).mp listed
    obtain ⟨listedCall, found', running⟩ := stacked.runs place other earlier
    refine ⟨listedCall, ?_, running⟩
    rw [withStack_calls, found_put found, if_neg (Ne.symm elsewhere), found']
  · intro place given found' running
    rw [withStack_calls, found_put found] at found'
    split at found'
    · obtain rfl := Option.some.inj found'
      exact absurd running gone
    · rename_i elsewhere
      obtain ⟨other, earlier⟩ := stacked.listed place given found' running
      exact ⟨other, (listed_iff place other).mpr ⟨Ne.symm elsewhere, earlier⟩⟩
  · intro place first second listed listed'
    exact stacked.alone place first second ((listed_iff _ _).mp listed).2 ((listed_iff _ _).mp listed').2
  · intro other
    by_cases same : other = thread
    · subst other
      simpa [System.withStack] using rest
    · simpa [System.withStack, System.put, same] using stacked.nodup other

omit [DecidableEq Thread] in
theorem not_running_of_stage {call : Invocation Thread Context Args} (staged : call.Staged)
    (early : call.phase = .entered ∨ call.phase = .invoking) : ¬ call.lambda.Running := by
  obtain ⟨stage, -, -⟩ := staged
  rintro ⟨capture, running⟩
  rcases early with phase | phase <;> rw [phase, running] at stage <;> cases stage

variable [DecidableEq Context]

theorem stacked_step (accounted : Accounted events system) (stacked : Stacked system)
    (step : Step qt system event after) : Stacked after := by
  cases step with
  | @call caller context connectionType args free =>
    refine ⟨?_, ?_, stacked.alone, stacked.nodup⟩
    · intro place thread listed
      obtain ⟨listedCall, found, running⟩ := stacked.runs place thread listed
      refine ⟨listedCall, ?_, running⟩
      rw [List.getElem?_append_left (List.getElem?_eq_some_iff.mp found).1, found]
    · intro place given found running
      rw [List.getElem?_append] at found
      split at found
      · exact stacked.listed place given found running
      · obtain rfl := List.mem_singleton.mp (List.mem_of_getElem? found)
        obtain ⟨capture, absurdly⟩ := running
        cases absurdly
  | capture found entered =>
    refine stacked.put found (iff_of_false nofun ?_)
    exact not_running_of_stage (accounted.staged _ _ found) (.inl entered)
  | dispatch found invoking made later =>
    refine stacked.put found (iff_of_false ?_ ?_)
    · rintro ⟨capture, running⟩
      unfold Invocation.dispatch at running
      split at running
      · exact later ‹_›
      all_goals cases running
    · exact not_running_of_stage (accounted.staged _ _ found) (.inr invoking)
  | dispatchDirect found invoking made direct =>
    refine stacked.begun found ?_ ?_ _
    · exact not_running_of_stage (accounted.staged _ _ found) (.inr invoking)
    · rw [Invocation.dispatch, direct]
      exact ⟨_, rfl⟩
  | start found posted => exact stacked.begun found (by simp [Lambda.Running, posted]) ⟨_, rfl⟩ _
  | discard found posted => exact stacked.put found (by simp [Lambda.Running, posted])
  | read found running => exact stacked.put found Iff.rfl
  | finish found running innermost => exact stacked.ended found innermost nofun
  | leave found => exact stacked.put found Iff.rfl
  | assign found => exact stacked.put found Iff.rfl
  | moveToThread => exact ⟨stacked.runs, stacked.listed, stacked.alone, stacked.nodup⟩

theorem stacked_run {home : Context → Thread}
    (run : Run (Step qt) (idle home : System Thread Context Args) events system) : Stacked system := by
  induction run using Runs.Run.snoc_induction with
  | initial =>
    exact ⟨nofun, fun index call found => by simp [idle] at found, nofun, fun _ => List.nodup_nil⟩
  | @snoc events system event after run step stacked => exact stacked_step (accounted_run run) stacked step

end Steps
end Gymansie.InvokeInContext
