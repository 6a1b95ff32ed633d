import Gymansie.CallMachine

/-! A thread in a tree of `callSlot` calls goes on alone to its end, whatever the
others are in. The sender lists are shared: it may take away the entries of
others' calls, but never more of a list than it has calls filed there. Once all
threads are done the lists hold the calls that ended by an exception and nothing
else. -/
namespace Gymansie.Senders
open CallStacks Runs Machine
variable {Thread Signal : Type} [DecidableEq Thread] {m after : Machine Thread Signal} {thread : Thread}
  {event : UnwindingEvent Thread Signal}

/-- The other threads are where they were and in the same calls, and the provider
has not moved. -/
structure Apart (thread : Thread) (m after : Machine Thread Signal) : Prop where
  home : after.world.provider.thread = m.world.provider.thread
  control : ∀ other, other ≠ thread → after.control other = m.control other
  entering : ∀ other, other ≠ thread → after.world.entering other = m.world.entering other
  calls : after.world.calls.filter (·.thread ≠ thread) = m.world.calls.filter (·.thread ≠ thread)

theorem apart_of_goes (goes : Goes thread m event after) : Apart thread m after := by
  obtain ⟨-, next, step⟩ := goes
  have control (here : Control Signal) : ∀ other, other ≠ thread →
      Function.update m.control thread here other = m.control other :=
    fun other different => Function.update_of_ne different ..
  generalize m.control thread = place at next
  cases next with
  | call | callSlot =>
    obtain ⟨plain⟩ := step
    cases plain
    exact ⟨rfl, control _, fun other different => Function.update_of_ne different .., rfl⟩
  | push =>
    obtain ⟨plain⟩ := step
    cases plain
    refine ⟨?_, control _, fun other different => Function.update_of_ne different .., by simp⟩
    exact pushSender_thread ..
  | signalSender =>
    obtain ⟨plain⟩ := step
    cases plain
    exact ⟨rfl, control _, fun _ _ => rfl, rfl⟩
  | returns =>
    obtain ⟨plain⟩ := step
    cases plain with
    | pop ready running => exact ⟨rfl, control _, fun _ _ => rfl, others_leave running⟩
  | throws =>
    cases step with
    | unwind ready running => exact ⟨rfl, control _, fun _ _ => rfl, others_leave running⟩

/-! ### Coming to an end -/

/-- A later place of the thread in its calls. -/
def Later (thread : Thread) (after before : Control Signal) : Prop :=
  before ≠ .idle ∧ ∃ event, Next thread before event after

omit [DecidableEq Thread] in
theorem acc_inside {callable : Callable Signal} {outer : List (Exit → Callable Signal)}
    (behind : ∀ exit, Acc (Later thread) (resume exit outer)) :
    Acc (Later thread) (.inside callable outer) := by
  induction callable generalizing outer with
  | returns =>
    apply Acc.intro
    rintro after ⟨-, event, next⟩
    cases next
    exact behind .returned
  | throws =>
    apply Acc.intro
    rintro after ⟨-, event, next⟩
    cases next
    exact behind .threw
  | signalSender next ih =>
    apply Acc.intro
    rintro after ⟨-, event, step⟩
    cases step
    exact ih _ behind
  | callSlot signal callable next inner rest =>
    apply Acc.intro
    rintro after ⟨-, event, step⟩
    cases step
    apply Acc.intro
    rintro after ⟨-, event, step⟩
    cases step
    exact inner fun exit => rest exit behind

omit [DecidableEq Thread] in
theorem acc_resume (exit : Exit) (outer : List (Exit → Callable Signal)) :
    Acc (Later thread) (resume exit outer) := by
  induction outer generalizing exit with
  | nil => exact ⟨_, fun after later => absurd rfl later.1⟩
  | cons next outer ih => exact acc_inside ih

omit [DecidableEq Thread] in
/-- A thread goes through its calls in finitely many steps, whatever the answers. -/
theorem later_wellFounded (thread : Thread) :
    WellFounded (Later thread : Control Signal → Control Signal → Prop) := by
  constructor
  intro place
  cases place with
  | idle => exact ⟨_, fun after later => absurd rfl later.1⟩
  | inside callable outer => exact acc_inside fun exit => acc_resume exit outer
  | entering callable outer =>
    apply Acc.intro
    rintro after ⟨-, event, step⟩
    cases step
    exact acc_inside fun exit => acc_resume exit outer

theorem Apart.trans {m₁ m₂ m₃ : Machine Thread Signal} (first : Apart thread m₁ m₂)
    (second : Apart thread m₂ m₃) : Apart thread m₁ m₃ := by
  refine ⟨second.home.trans first.home, ?_, ?_, second.calls.trans first.calls⟩
  · intro other different
    exact (second.control other different).trans (first.control other different)
  · intro other different
    exact (second.entering other different).trans (first.entering other different)

theorem later_of_goes (goes : Goes thread m event after) :
    Later thread (after.control thread) (m.control thread) := by
  obtain ⟨busy, next, -⟩ := goes
  refine ⟨busy, event, ?_⟩
  simpa only [Function.update_self] using next

theorem alone_ends (placed : Placed m) : ∃ rest after, Run (Goes thread) m rest after ∧
    after.control thread = .idle ∧ Apart thread m after ∧ Placed after := by
  induction here : m.control thread using (later_wellFounded thread).induction generalizing m with
  | h place ih =>
    subst place
    by_cases idle : m.control thread = .idle
    · exact ⟨[], m, .done m, idle, ⟨rfl, fun _ _ => rfl, fun _ _ => rfl, rfl⟩, placed⟩
    · obtain ⟨event, next, goes⟩ := goes_of_busy placed idle
      obtain ⟨rest, after, run, ended, apart, placed'⟩ :=
        ih _ (later_of_goes goes) (placed_step placed (step_of_goes goes)) rfl
      exact ⟨event :: rest, after, .next goes run, ended, (apart_of_goes goes).trans apart, placed'⟩

/-! ### What becomes of the lists -/

theorem entries_goes (backed : Backed m.world) (goes : Goes thread m event after) (key : Thread) :
    (event.Unwinds key m.world →
        (senders after.world.provider key).length + filedBy m.world.calls thread key =
          (senders m.world.provider key).length + filedBy after.world.calls thread key + 1) ∧
      (¬ event.Unwinds key m.world →
        (senders after.world.provider key).length + filedBy m.world.calls thread key =
          (senders m.world.provider key).length + filedBy after.world.calls thread key) := by
  have filed := pending_others (apart_of_goes goes).calls key
  obtain ⟨unwinds, plain⟩ : (event.Unwinds key m.world → _) ∧ (¬ event.Unwinds key m.world → _) :=
    entries_step backed (world_step (step_of_goes goes))
  constructor
  · intro ends
    have counted := unwinds ends
    omega
  · intro goesOn
    have counted := plain goesOn
    omega

/-- The entries below as many as the thread has calls filed there stay. -/
theorem kept_goes (goes : Goes thread m event after) (key : Thread) :
    (senders m.world.provider key).take
        ((senders m.world.provider key).length - filedBy m.world.calls thread key) <+:
      senders after.world.provider key := by
  obtain ⟨-, next, step⟩ := goes
  cases step with
  | unwind => exact List.take_prefix ..
  | plain step =>
    cases step with
    | enter | query | moveToThread => exact List.take_prefix ..
    | push =>
      rw [senders_push]
      split
      · exact (List.take_prefix ..).trans (List.prefix_append ..)
      · exact List.take_prefix ..
    | @pop own call ready running =>
      have here : own = thread := by
        generalize m.control thread = place at next
        cases next
        rfl
      subst own
      rw [senders_pop]
      split
      · rename_i same
        have filed := filedBy_pos running
        rw [← same] at filed
        rw [List.dropLast_eq_take]
        exact List.take_prefix_take_left (by omega)
      · exact List.take_prefix ..

theorem kept_below (backed : Backed m.world) (goes : Goes thread m event after) (key : Thread) :
    (senders m.world.provider key).take
        ((senders m.world.provider key).length - filedBy m.world.calls thread key) <+:
      (senders after.world.provider key).take
        ((senders after.world.provider key).length - filedBy after.world.calls thread key) := by
  obtain ⟨unwinds, plain⟩ := entries_goes backed goes key
  refine List.prefix_take_iff.mpr ⟨kept_goes goes key, ?_⟩
  rw [List.length_take]
  by_cases ends : event.Unwinds key m.world
  · have counted := unwinds ends
    omega
  · have counted := plain ends
    omega

theorem lists_goes {key : Thread} {rest : List (UnwindingEvent Thread Signal)} (backed : Backed m.world)
    (tally : Tally (Goes thread) (fun m event => event.Unwinds key m.world) m rest thrown after) :
    (senders after.world.provider key).length + filedBy m.world.calls thread key =
        (senders m.world.provider key).length + filedBy after.world.calls thread key + thrown ∧
      (senders m.world.provider key).take
          ((senders m.world.provider key).length - filedBy m.world.calls thread key) <+:
        (senders after.world.provider key).take
          ((senders after.world.provider key).length - filedBy after.world.calls thread key) := by
  induction tally with
  | done => exact ⟨rfl, List.prefix_rfl⟩
  | counted head meets _ ih =>
    have counted := (entries_goes backed head key).1 meets
    obtain ⟨length, kept⟩ := ih (backed_unwinding backed (world_step (step_of_goes head)))
    exact ⟨by omega, (kept_below backed head key).trans kept⟩
  | passed head fails _ ih =>
    have counted := (entries_goes backed head key).2 fails
    obtain ⟨length, kept⟩ := ih (backed_unwinding backed (world_step (step_of_goes head)))
    exact ⟨by omega, (kept_below backed head key).trans kept⟩

theorem backed_run {home : Thread} {events : List (UnwindingEvent Thread Signal)}
    (run : Run Machine.Step (Machine.start home) events m) : Backed m.world := by
  induction run using Run.snoc_induction with
  | initial => exact backed_start home
  | snoc _ last backed => exact backed_unwinding backed (world_step last)

theorem enter_throwing : Next 1 Control.idle (.plain (.enter 1 (some 5)))
    (.entering (.throws : Callable Nat) []) :=
  .call

theorem push_throwing : Next 1 (.entering (.throws : Callable Nat) []) (.plain (.push 1))
    (.inside .throws []) :=
  .push

/-- For every state reached, whatever calls are in progress, with each guarded block
as one step: a thread in a call always has a next step, and can go on alone to the
end of all its calls. The other threads stay where they are, in the same calls. Of
each sender list as many of the newest entries may go as the thread had calls filed
there, and no others; the calls that end by an exception add an entry each. -/
theorem runs_out {home : Thread} {events : List (UnwindingEvent Thread Signal)}
    (run : Run Machine.Step (Machine.start home) events m) (thread : Thread) :
    (m.control thread ≠ .idle → ∃ event next, Goes thread m event next) ∧
      ∃ rest after, Run (Goes thread) m rest after ∧ after.control thread = .idle ∧
        Apart thread m after ∧ after.world.calls = m.world.calls.filter (·.thread ≠ thread) ∧
        ∀ key, ∃ thrown,
          Tally (Goes thread) (fun m event => event.Unwinds key m.world) m rest thrown after ∧
          (senders after.world.provider key).length + filedBy m.world.calls thread key =
            (senders m.world.provider key).length + thrown ∧
          (senders m.world.provider key).take
              ((senders m.world.provider key).length - filedBy m.world.calls thread key) <+:
            senders after.world.provider key := by
  refine ⟨goes_of_busy (placed_run run), ?_⟩
  obtain ⟨rest, after, alone, idle, apart, placed⟩ := alone_ends (placed_run run)
  have none : active after.world.calls thread = 0 := by
    rw [placed.depth, idle]
    rfl
  refine ⟨rest, after, alone, idle, apart, ?_, ?_⟩
  · rw [← apart.calls, others_of_inactive none]
  · intro key
    obtain ⟨thrown, tally⟩ := alone.tally fun m event => event.Unwinds key m.world
    obtain ⟨length, kept⟩ := lists_goes (backed_run run) tally
    rw [filedBy_of_inactive none, Nat.add_zero] at length
    exact ⟨thrown, tally, length, kept.trans (List.take_prefix ..)⟩

/-- Thread 1 ends while thread 2 is in a newer call: the entry of thread 1 stays. -/
theorem interrupted_call_ends : ∃ m : Machine Nat Nat, ∃ rest after,
    senders m.world.provider 0 = [some 5, some 6] ∧ Run (Goes 1) m rest after ∧
      after.control 1 = .idle ∧ [some 5] <+: senders after.world.provider 0 := by
  have enters (thread : Nat) (signal : Ptr Nat) : Next thread Control.idle
      (.plain (.enter thread signal)) (.entering (.returns : Callable Nat) []) := .call
  have pushes (thread : Nat) : Next thread (.entering (.returns : Callable Nat) [])
      (.plain (.push thread)) (.inside .returns []) := .push
  have run : Run Machine.Step (Machine.start 0 : Machine Nat Nat) [.plain (.enter 1 (some 5)),
      .plain (.push 1), .plain (.enter 2 (some 6)), .plain (.push 2)] _ :=
    .next (.thread (enters 1 (some 5)) (.plain (.enter rfl)))
      (.next (.thread (pushes 1) (.plain (.push rfl)))
        (.next (.thread (enters 2 (some 6)) (.plain (.enter rfl)))
          (.next (.thread (pushes 2) (.plain (.push rfl))) (.done _))))
  obtain ⟨-, rest, after, alone, idle, -, -, lists⟩ := runs_out run 1
  obtain ⟨thrown, -, -, kept⟩ := lists 0
  exact ⟨_, rest, after, rfl, alone, idle, kept⟩

/-- For every run of any threads and trees: once all threads are idle, the list of
a key is as long as the number of calls filed under it that ended by an
exception. -/
theorem idle_entries {home key : Thread} {events : List (UnwindingEvent Thread Signal)}
    (tally : Tally Machine.Step (fun m event => event.Unwinds key m.world) (Machine.start home)
      events n m) (idle : ∀ thread, m.control thread = .idle) :
    (senders m.world.provider key).length = n := by
  have worlds : Tally UnwindingStep (fun world event => event.Unwinds key world) (start home)
      events n m.world := tally.map world_step
  have counted := entries_counted (backed_start home) worlds
  have none : m.world.calls = [] := by
    refine nil_of_inactive fun thread => ?_
    rw [(placed_run tally.run).depth, idle thread]
    rfl
  rw [none] at counted
  simpa [start, senders, UnorderedMap.index, pending] using counted

theorem thrown_entry_stays : ∃ m : Machine Nat Nat, Tally Machine.Step
    (fun m event => event.Unwinds 0 m.world) (Machine.start 0)
      [.plain (.enter 1 (some 5)), .plain (.push 1), .unwind 1] 1 m ∧
    (senders m.world.provider 0).length = 1 := by
  have throws : Next 1 (.inside (.throws : Callable Nat) []) (.unwind 1) .idle := .throws
  have tally : Tally Machine.Step (fun m event => event.Unwinds 0 m.world)
      (Machine.start 0 : Machine Nat Nat)
      [.plain (.enter 1 (some 5)), .plain (.push 1), .unwind 1] 1 _ :=
    .passed (.thread enter_throwing (.plain (.enter rfl))) not_false
      (.passed (.thread push_throwing (.plain (.push rfl))) not_false
        (.counted (.thread throws (.unwind rfl rfl)) ⟨⟨1, 0, some 5⟩, rfl, rfl⟩ (.done _)))
  refine ⟨_, tally, idle_entries tally ?_⟩
  intro thread
  by_cases own : thread = 1
  · subst thread
    rfl
  · simp [Machine.start, own]

end Gymansie.Senders
