import Gymansie.InvokeStacks

/-! Blocking calls wait for threads that may themselves be waiting, also inside
the lambdas they run. Once every call has been delivered, all of them can still
return and all lambdas run to their end, unless some threads wait only for each
other. Dropping a lambda with its context would be a way out, and is left aside
here. -/
namespace Gymansie.InvokeInContext
open Runs
universe u v w
variable {Thread : Type u} {Context : Type v} {Args : Type w}

/-- The lambda of the call is for the thread to begin, or to end. -/
def HeldBy (system : System Thread Context Args) (index : Nat) (call : Invocation Thread Context Args)
    (thread : Thread) : Prop :=
  (∃ capture, call.lambda = .posted capture) ∧ system.home call.context = thread ∨
    index ∈ system.stack thread

/-- The thread is in a blocking call whose lambda the other one holds. -/
def Waits (system : System Thread Context Args) (thread other : Thread) : Prop :=
  ∃ index call, system.calls[index]? = some call ∧ call.caller = thread ∧ call.phase = .waiting ∧
    HeldBy system index call other

/-- Some threads wait only for each other. -/
def Deadlocked (system : System Thread Context Args) : Prop :=
  ∃ threads : Set Thread, threads.Nonempty ∧
    ∀ thread ∈ threads, ∃ other ∈ threads, Waits system thread other

/-- No call is before the decision on its delivery. -/
def Delivered (system : System Thread Context Args) : Prop :=
  ∀ call ∈ system.calls, call.phase ≠ .entered ∧ call.phase ≠ .invoking

def Settled (system : System Thread Context Args) : Prop :=
  ∀ call ∈ system.calls, call.Returned ∧ call.lambda = .ended

variable {system after : System Thread Context Args} {call next : Invocation Thread Context Args}
  {event : Event Thread Context Args} {events : List (Event Thread Context Args)} {index : Nat}

theorem Waits.busy {thread other : Thread} (waits : Waits system thread other) : system.Busy thread := by
  obtain ⟨index, call, found, caller, waiting, -⟩ := waits
  exact ⟨call, List.mem_of_getElem? found, caller, by simp [Invocation.Busy, waiting]⟩

theorem HeldBy.cases {thread : Thread} (stacked : Stacked system)
    (found : system.calls[index]? = some call) (held : HeldBy system index call thread) :
    (∃ capture, call.lambda = .posted capture) ∧ system.home call.context = thread ∨
      call.lambda.Running ∧ index ∈ system.stack thread := by
  rcases held with posted | listed
  · exact .inl posted
  · exact .inr ⟨stacked.running found listed, listed⟩

/-! ### Threads that wait for each other go on waiting -/

/-- A step on a call that is not the waiting one, or leaves it held. -/
theorem Waits.put {thread other : Thread} (waits : Waits system thread other)
    (found : system.calls[index]? = some call)
    (acts : call.phase = .waiting → ¬ HeldBy system index call other)
    (next : Invocation Thread Context Args) : Waits (system.put index next) thread other := by
  obtain ⟨place, waiting, found', caller, phase, held⟩ := waits
  refine ⟨place, waiting, ?_, caller, phase, held⟩
  rw [found_put found, if_neg, found']
  rintro rfl
  obtain rfl := Option.some.inj (found.symm.trans found')
  exact acts phase held

section Steps
variable [DecidableEq Thread]

/-- A change to a stack that keeps what the other thread runs. -/
theorem Waits.withStack {thread other runner : Thread} (waits : Waits system thread other)
    (keeps : other = runner → ∀ place ∈ system.stack runner, place ∈ running) :
    Waits (system.withStack runner running) thread other := by
  obtain ⟨place, waiting, found, caller, phase, held⟩ := waits
  refine ⟨place, waiting, found, caller, phase, held.imp_right fun listed => mem_withStack.mpr ?_⟩
  by_cases same : other = runner
  · exact .inl ⟨same, keeps same place (same ▸ listed)⟩
  · exact .inr ⟨same, listed⟩

variable [DecidableEq Context]

theorem Waits.step {thread other : Thread} (waits : Waits system thread other)
    (busy : system.Busy other) (stacked : Stacked system) (step : Step qt system event after)
    (kept : ∀ index, event ≠ .discard index) : Waits after thread other := by
  cases step with
  | call free =>
    obtain ⟨place, call, found, rest⟩ := waits
    refine ⟨place, call, ?_, rest⟩
    rw [List.getElem?_append_left (List.getElem?_eq_some_iff.mp found).1, found]
  | capture found entered =>
    refine waits.put found (fun waiting => ?_) _
    rw [entered] at waiting
    cases waiting
  | dispatch found invoking made =>
    refine waits.put found (fun waiting => ?_) _
    rw [invoking] at waiting
    cases waiting
  | dispatchDirect found invoking made direct =>
    refine Waits.withStack (waits.put found (fun waiting => ?_) _) fun _ _ => List.mem_cons_of_mem _
    rw [invoking] at waiting
    cases waiting
  | start found posted free =>
    refine Waits.withStack (waits.put found (fun _ held => ?_) _) fun _ _ => List.mem_cons_of_mem _
    rcases held.cases stacked found with ⟨-, home⟩ | ⟨⟨capture, running⟩, -⟩
    · rw [home] at free
      exact free busy
    · rw [posted] at running
      cases running
  | discard => exact absurd rfl (kept _)
  | read found running listed free =>
    refine waits.put found (fun _ held => ?_) _
    rcases held.cases stacked found with ⟨⟨capture, posted⟩, -⟩ | ⟨-, here⟩
    · rw [running] at posted
      cases posted
    · obtain rfl := stacked.alone _ _ _ listed here
      exact free busy
  | finish found running innermost free =>
    refine Waits.withStack (waits.put found (fun _ held => ?_) _) fun same => absurd (same ▸ busy) free
    rcases held.cases stacked found with ⟨⟨capture, posted⟩, -⟩ | ⟨-, here⟩
    · rw [running] at posted
      cases posted
    · obtain rfl := stacked.alone _ _ _ (innermost ▸ List.mem_cons_self) here
      exact free busy
  | leave found done =>
    refine waits.put found (fun waiting held => ?_) _
    rcases held.cases stacked found with ⟨⟨capture, posted⟩, -⟩ | ⟨⟨capture, running⟩, -⟩
    · simp [Invocation.outcome, waiting, posted] at done
    · simp [Invocation.outcome, waiting, running] at done
  | assign found returned =>
    refine waits.put found (fun waiting => ?_) _
    obtain ⟨invoked, returned⟩ := returned
    rw [returned] at waiting
    cases waiting
  | @moveToThread _ context target free =>
    obtain ⟨place, call, found, caller, waiting, held⟩ := waits
    refine ⟨place, call, found, caller, waiting, held.imp_left fun both => ⟨both.1, ?_⟩⟩
    have unmoved : call.context ≠ context := by
      rintro rfl
      rw [both.2] at free
      exact free busy
    exact (Function.update_of_ne unmoved _ _).trans both.2

theorem Deadlocked.step (deadlocked : Deadlocked system) (stacked : Stacked system)
    (step : Step qt system event after) (kept : ∀ index, event ≠ .discard index) : Deadlocked after := by
  obtain ⟨threads, some, waits⟩ := deadlocked
  refine ⟨threads, some, ?_⟩
  intro thread member
  obtain ⟨other, member', waiting⟩ := waits thread member
  obtain ⟨_, -, waiting'⟩ := waits other member'
  exact ⟨other, member', waiting.step waiting'.busy stacked step kept⟩

theorem Deadlocked.run (deadlocked : Deadlocked system) (accounted : Accounted events system)
    (stacked : Stacked system) (run : Run (Step qt) system later after)
    (kept : ∀ index, .discard index ∉ later) : Deadlocked after := by
  induction run generalizing events with
  | done => exact deadlocked
  | next head _ ih =>
    have unkept (index : Nat) (member : Event.discard index ∈ _) := kept index (List.mem_cons_of_mem _ member)
    refine ih (deadlocked.step stacked head ?_) (accounted_step accounted head)
      (stacked_step accounted stacked head) unkept
    rintro index rfl
    exact kept index List.mem_cons_self

omit [DecidableEq Thread] [DecidableEq Context] in
theorem Deadlocked.not_settled (deadlocked : Deadlocked system) : ¬ Settled system := by
  intro settled
  obtain ⟨threads, ⟨thread, member⟩, waits⟩ := deadlocked
  obtain ⟨other, -, index, call, found, -, waiting, -⟩ := waits thread member
  obtain ⟨⟨invoked, returned⟩, -⟩ := settled call (List.mem_of_getElem? found)
  rw [returned] at waiting
  cases waiting

/-! ### Everything else can go on -/

omit [DecidableEq Thread] [DecidableEq Context] in
/-- A step on one call that gives its lambda to no other thread, and no thread
another lambda, makes no thread wait. -/
theorem waits_of_step {thread other : Thread} (found : system.calls[index]? = some call)
    (calls : after.calls = (system.put index next).calls) (home : after.home = system.home)
    (stack : ∀ place thread, place ≠ index → place ∈ after.stack thread → place ∈ system.stack thread)
    (same : next.phase = .waiting → ∀ thread, HeldBy after index next thread →
      next.caller = call.caller ∧ call.phase = .waiting ∧ HeldBy system index call thread)
    (waits : Waits after thread other) : Waits system thread other := by
  obtain ⟨place, waiting, found', caller, phase, held⟩ := waits
  rw [calls, found_put found] at found'
  split at found'
  · rename_i here
    subst place
    obtain rfl := Option.some.inj found'
    obtain ⟨caller', phase', held'⟩ := same phase other held
    exact ⟨index, call, found, caller'.symm.trans caller, phase', held'⟩
  · rename_i elsewhere
    refine ⟨place, waiting, found', caller, phase, held.imp ?_ (stack place other (Ne.symm elsewhere))⟩
    rintro ⟨posted, at_home⟩
    exact ⟨posted, home ▸ at_home⟩

omit [DecidableEq Thread] [DecidableEq Context] in
theorem deadlocked_of_waits (back : ∀ thread other, Waits after thread other → Waits system thread other)
    (deadlocked : Deadlocked after) : Deadlocked system := by
  obtain ⟨threads, some, waits⟩ := deadlocked
  refine ⟨threads, some, ?_⟩
  intro thread member
  obtain ⟨other, member', waiting⟩ := waits thread member
  exact ⟨other, member', back thread other waiting⟩

def Invocation.remaining (call : Invocation Thread Context Args) : Nat :=
  (match call.lambda with
    | .posted _ => 2
    | .running _ => 1
    | _ => 0) +
  match call.phase with
    | .returned _ => 0
    | _ => 1

def System.remaining (system : System Thread Context Args) : Nat :=
  system.calls.foldr (fun call rest => call.remaining + rest) 0

omit [DecidableEq Thread] [DecidableEq Context] in
theorem remaining_put (found : system.calls[index]? = some call)
    (fewer : next.remaining < call.remaining) :
    (system.put index next).remaining < system.remaining := by
  have shorter : ∀ (calls : List (Invocation Thread Context Args)) (index : Nat),
      calls[index]? = some call →
      (calls.set index next).foldr (fun call rest => call.remaining + rest) 0 <
        calls.foldr (fun call rest => call.remaining + rest) 0 := by
    intro calls
    induction calls with
    | nil => simp
    | cons first calls ih =>
      intro index found
      cases index with
      | zero =>
        obtain rfl := Option.some.inj found
        simpa using fewer
      | succ index => simpa using ih index found
  exact shorter system.calls index found

omit [DecidableEq Thread] [DecidableEq Context] in
theorem delivered_put (delivered : Delivered system) (found : system.calls[index]? = some call)
    (later : next.phase = call.phase ∨ next.Returned) : Delivered (system.put index next) := by
  intro other member
  rcases List.mem_or_eq_of_mem_set member with kept | rfl
  · exact delivered other kept
  · rcases later with same | ⟨invoked, returned⟩
    · rw [same]
      exact delivered call (List.mem_of_getElem? found)
    · simp [returned]

/-- The event drops no lambda and begins no posted one inside another. -/
def Event.InTurn (system : System Thread Context Args) : Event Thread Context Args → Prop
  | .start index => ∀ call, system.calls[index]? = some call → system.stack (system.home call.context) = []
  | .discard _ => False
  | _ => True

/-- Some step in turn leaves fewer steps ahead. -/
def Advances (qt : InvokeMethod) (system : System Thread Context Args) : Prop :=
  ∃ event after, Step qt system event after ∧ event.InTurn system ∧
    after.remaining < system.remaining ∧ Delivered after ∧ ¬ Deadlocked after

section Advances
variable {qt : InvokeMethod} (delivered : Delivered system) (alive : ¬ Deadlocked system)
  (stacked : Stacked system) (found : system.calls[index]? = some call)
include delivered alive found

theorem advances_done (done : call.outcome = some invoked) : Advances qt system := by
  refine ⟨_, _, .leave found done, trivial, remaining_put found ?_,
    delivered_put delivered found (.inr ⟨invoked, rfl⟩), ?_⟩
  · have unreturned : ∀ invoked, call.phase ≠ .returned invoked := by
      intro invoked returned
      simp [Invocation.outcome, returned] at done
    unfold Invocation.remaining
    cases phase : call.phase with
    | returned invoked => exact absurd phase (unreturned invoked)
    | _ => exact Nat.lt_succ_self _
  · refine fun deadlocked => alive (deadlocked_of_waits ?_ deadlocked)
    intro thread other
    exact waits_of_step found rfl rfl (fun _ _ _ listed => listed) fun waiting => by cases waiting

include stacked

/-- The innermost lambda of a thread that is not inside a call can end. -/
theorem advances_innermost {thread : Thread} (innermost : system.stack thread = index :: outer)
    (free : ¬ system.Busy thread) : Advances qt system := by
  have here : index ∈ system.stack thread := by
    rw [innermost]
    exact List.mem_cons_self
  obtain ⟨capture, running⟩ := stacked.running found here
  have later : Stacked ((system.put index { call with lambda := .ended }).withStack thread outer) :=
    stacked.ended found innermost nofun
  refine ⟨_, _, .finish found running innermost free, trivial, remaining_put found ?_,
    delivered_put delivered found (.inl rfl), ?_⟩
  · simp [Invocation.remaining, running]
  · refine fun deadlocked => alive (deadlocked_of_waits ?_ deadlocked)
    intro thread' other
    refine waits_of_step found rfl rfl ?_ ?_
    · intro place runner _ listed
      rcases mem_withStack.mp listed with ⟨rfl, rest⟩ | ⟨-, kept⟩
      · rw [innermost]
        exact List.mem_cons_of_mem _ rest
      · exact kept
    · intro _ runner held
      rcases held.cases later ((found_put found _ index).trans (if_pos rfl)) with
        ⟨⟨capture, posted⟩, -⟩ | ⟨⟨capture, running⟩, -⟩
      · cases posted
      · cases running

theorem advances_free (posted : call.lambda = .posted capture)
    (free : ¬ system.Busy (system.home call.context))
    (empty : system.stack (system.home call.context) = []) : Advances qt system := by
  refine ⟨_, _, .start found posted free, ?_, remaining_put found ?_,
    delivered_put delivered found (.inl rfl), ?_⟩
  · intro other found'
    obtain rfl := Option.some.inj (found.symm.trans found')
    exact empty
  · simp [Invocation.remaining, posted]
  · refine fun deadlocked => alive (deadlocked_of_waits ?_ deadlocked)
    intro thread other
    refine waits_of_step found rfl rfl ?_ ?_
    · intro place runner elsewhere listed
      rcases mem_withStack.mp listed with ⟨rfl, begun⟩ | ⟨-, kept⟩
      · exact (List.mem_cons.mp begun).resolve_left elsewhere
      · exact kept
    · intro waiting runner held
      refine ⟨rfl, waiting, .inl ⟨⟨capture, posted⟩, ?_⟩⟩
      rcases held with ⟨⟨capture, absurdly⟩, -⟩ | listed
      · cases absurdly
      · rcases mem_withStack.mp listed with ⟨same, -⟩ | ⟨-, kept⟩
        · exact same.symm
        · obtain ⟨capture, running⟩ := stacked.running found kept
          rw [posted] at running
          cases running

end Advances

omit [DecidableEq Thread] [DecidableEq Context] in
/-- A call that cannot return keeps its caller busy only until its lambda is begun
and has ended. -/
theorem waiting_of_busy (staged : call.Staged)
    (delivered : call.phase ≠ .entered ∧ call.phase ≠ .invoking)
    (undone : ∀ invoked, call.outcome ≠ some invoked) (busy : call.Busy) :
    call.phase = .waiting ∧ ((∃ capture, call.lambda = .posted capture) ∨ call.lambda.Running) := by
  obtain ⟨stage, -, -⟩ := staged
  rcases call with ⟨caller, context, connectionType, args, current, phase, lambda, seen⟩
  cases stage with
  | entered => exact absurd rfl delivered.1
  | invoking => exact absurd rfl delivered.2
  | directs => exact nomatch (busy : Lambda.running _ = .ended)
  | directed | leaving => exact absurd rfl (undone true)
  | refuses => exact absurd rfl (undone false)
  | returned | refused => exact busy.elim
  | waiting given =>
    refine ⟨rfl, ?_⟩
    cases lambda with
    | unmade | made => exact given.elim
    | posted capture => exact .inl ⟨capture, rfl⟩
    | running capture => exact .inr ⟨capture, rfl⟩
    | ended => exact absurd rfl (undone true)

omit [DecidableEq Thread] [DecidableEq Context] in
theorem settled_of_quiet (staged : call.Staged)
    (delivered : call.phase ≠ .entered ∧ call.phase ≠ .invoking) (quiet : ¬ call.Busy)
    (unposted : ∀ capture, call.lambda ≠ .posted capture) (unrun : ¬ call.lambda.Running) :
    call.Returned ∧ call.lambda = .ended := by
  obtain ⟨stage, -, -⟩ := staged
  rcases call with ⟨caller, context, connectionType, args, current, phase, lambda, seen⟩
  cases stage with
  | entered => exact absurd rfl delivered.1
  | invoking => exact absurd rfl delivered.2
  | directs => exact absurd ⟨_, rfl⟩ unrun
  | directed => exact absurd (rfl : Lambda.ended = .ended) quiet
  | waiting | leaving | refuses => exact absurd trivial quiet
  | refused => exact ⟨⟨false, rfl⟩, rfl⟩
  | returned given =>
    refine ⟨⟨true, rfl⟩, ?_⟩
    cases lambda with
    | unmade | made => exact given.elim
    | posted capture => exact absurd rfl (unposted capture)
    | running capture => exact absurd ⟨_, rfl⟩ unrun
    | ended => rfl

/-- When no lambda can begin or end and no call can return, either all is settled
or the busy threads wait for each other. -/
theorem settled_of_stuck {qt : InvokeMethod} (accounted : Accounted events system)
    (stacked : Stacked system) (delivered : Delivered system) (alive : ¬ Deadlocked system)
    (stuck : ¬ Advances qt system) : Settled system := by
  have undone {index : Nat} {call} (found : system.calls[index]? = some call) (invoked : Bool) :
      call.outcome ≠ some invoked :=
    fun done => stuck (advances_done delivered alive found done)
  have running_busy {index : Nat} {thread : Thread} (listed : index ∈ system.stack thread) :
      system.Busy thread := by
    by_contra free
    obtain ⟨innermost, outer, stack⟩ := List.exists_cons_of_ne_nil (List.ne_nil_of_mem listed)
    have here : innermost ∈ system.stack thread := by
      rw [stack]
      exact List.mem_cons_self
    obtain ⟨call, found, -⟩ := stacked.runs innermost thread here
    exact stuck (advances_innermost delivered alive stacked found stack free)
  have posted_busy {index : Nat} {call} (found : system.calls[index]? = some call)
      (posted : ∃ capture, call.lambda = .posted capture) : system.Busy (system.home call.context) := by
    obtain ⟨capture, posted⟩ := posted
    by_contra free
    refine stuck (advances_free delivered alive stacked found posted free ?_)
    exact List.eq_nil_iff_forall_not_mem.mpr fun _ listed => free (running_busy listed)
  have quiet : ∀ thread, ¬ system.Busy thread := by
    intro thread busy
    refine alive ⟨{thread | system.Busy thread}, ⟨thread, busy⟩, ?_⟩
    rintro thread ⟨call, member, caller, busy⟩
    obtain ⟨index, found⟩ := List.mem_iff_getElem?.mp member
    obtain ⟨waiting, posted | running⟩ := waiting_of_busy (accounted.staged index call found)
      (delivered call member) (undone found) busy
    · exact ⟨_, posted_busy found posted, index, call, found, caller, waiting, .inl ⟨posted, rfl⟩⟩
    · obtain ⟨runner, listed⟩ := stacked.listed index call found running
      exact ⟨runner, running_busy listed, index, call, found, caller, waiting, .inr listed⟩
  intro call member
  obtain ⟨index, found⟩ := List.mem_iff_getElem?.mp member
  apply settled_of_quiet (accounted.staged index call found) (delivered call member)
  · exact fun busy => quiet call.caller ⟨call, member, rfl, busy⟩
  · exact fun capture posted => quiet _ (posted_busy found ⟨capture, posted⟩)
  · intro running
    obtain ⟨runner, listed⟩ := stacked.listed index call found running
    exact quiet runner (running_busy listed)

/-- Some way on, without dropping a lambda, settles everything. -/
def CanSettle (qt : InvokeMethod) (system : System Thread Context Args) : Prop :=
  ∃ events after, Run (Step qt) system events after ∧ (∀ index, .discard index ∉ events) ∧ Settled after

/-- Some way on settles everything, and no thread begins a posted lambda inside one
that it runs. -/
def SettlesInTurn (qt : InvokeMethod) (system : System Thread Context Args) : Prop :=
  ∃ events after, Run (fun s e t => Step qt s e t ∧ e.InTurn s) system events after ∧ Settled after

theorem SettlesInTurn.canSettle {qt : InvokeMethod} (settles : SettlesInTurn qt system) :
    CanSettle qt system := by
  obtain ⟨events, after, run, settled⟩ := settles
  induction run with
  | done => exact ⟨[], _, .done _, fun _ absent => absurd absent List.not_mem_nil, settled⟩
  | next head _ ih =>
    obtain ⟨step, inTurn⟩ := head
    obtain ⟨later, last, run, kept, settled⟩ := ih settled
    refine ⟨_, last, .next step run, ?_, settled⟩
    intro index member
    rcases List.mem_cons.mp member with rfl | member
    · exact inTurn
    · exact kept index member

theorem settlesInTurn_of_alive {qt : InvokeMethod} (accounted : Accounted events system)
    (stacked : Stacked system) (delivered : Delivered system) (alive : ¬ Deadlocked system) :
    SettlesInTurn qt system := by
  induction ahead : system.remaining using Nat.strongRecOn generalizing system events with
  | ind steps ih =>
    by_cases advances : Advances qt system
    · obtain ⟨event, after, step, inTurn, fewer, delivered', alive'⟩ := advances
      obtain ⟨later, last, run, settled⟩ := ih after.remaining (ahead ▸ fewer)
        (accounted_step accounted step) (stacked_step accounted stacked step) delivered' alive' rfl
      exact ⟨event :: later, last, .next ⟨step, inTurn⟩ run, settled⟩
    · exact ⟨[], system, .done system, settled_of_stuck accounted stacked delivered alive advances⟩

/-- For every delivery that keeps to what Qt documents, all threads, contexts and
calls, also calls made inside the lambdas of others, and every order of steps up
to a moment when all calls have been delivered: from there all of them can return
and all lambdas end, with none dropped, exactly if no threads wait only for each
other. If so, none of them has to be begun inside another one. -/
theorem canSettle_iff {qt : InvokeMethod} {home : Context → Thread}
    (run : Run (Step qt) (idle home : System Thread Context Args) events system)
    (delivered : Delivered system) : (CanSettle qt system ↔ ¬ Deadlocked system) ∧
      (CanSettle qt system → SettlesInTurn qt system) := by
  have alive : CanSettle qt system → ¬ Deadlocked system := by
    rintro ⟨later, after, rest, kept, settled⟩ deadlocked
    exact (deadlocked.run (accounted_run run) (stacked_run run) rest kept).not_settled settled
  have settles : ¬ Deadlocked system → SettlesInTurn qt system :=
    settlesInTurn_of_alive (accounted_run run) (stacked_run run) delivered
  exact ⟨⟨alive, fun free => (settles free).canSettle⟩, fun can => settles (alive can)⟩

end Steps

/-- A thread runs the lambda of a blocking call and makes a blocking call to the
caller inside it. -/
theorem call_back_blocks : ∃ system : System Bool Bool Nat,
    Run (Step default) (idle id) [.call false true .blockingQueued 5, .capture 0, .dispatch 0,
      .start 0, .call true false .blockingQueued 6, .capture 1, .dispatch 1] system ∧
    ¬ CanSettle default system := by
  let system : System Bool Bool Nat :=
    ⟨id, [⟨false, true, .blockingQueued, 5, 5, .waiting, .running .byReference, []⟩,
      ⟨true, false, .blockingQueued, 6, 6, .waiting, .posted .byReference, []⟩],
      Function.update (fun _ => []) true [0]⟩
  have run : Run (Step default) (idle id) [.call false true .blockingQueued 5, .capture 0, .dispatch 0,
      .start 0, .call true false .blockingQueued 6, .capture 1, .dispatch 1] system := by
    refine .next (.call ?_) (.next (.capture rfl rfl) (.next (.dispatch rfl rfl rfl nofun)
      (.next (.start rfl rfl ?_) (.next (.call ?_) (.next (.capture rfl rfl)
        (.next (.dispatch rfl rfl rfl nofun) (.done _)))))))
    · rintro ⟨call, absent, -⟩
      exact absurd absent List.not_mem_nil
    all_goals
      rintro ⟨call, only, caller, -⟩
      obtain rfl := List.mem_singleton.mp only
      cases caller
  have delivered : Delivered system := by
    intro call member
    rcases List.mem_pair.mp member with rfl | rfl <;> exact ⟨nofun, nofun⟩
  refine ⟨system, run, fun settles => (canSettle_iff run delivered).1.mp settles ?_⟩
  refine ⟨Set.univ, ⟨true, trivial⟩, ?_⟩
  intro thread _
  refine ⟨!thread, trivial, ?_⟩
  cases thread
  · exact ⟨0, _, rfl, rfl, rfl, .inr List.mem_cons_self⟩
  · exact ⟨1, _, rfl, rfl, rfl, .inl ⟨⟨_, rfl⟩, rfl⟩⟩

end Gymansie.InvokeInContext
