import Gymansie.Runs

/-! `invokeInContext` among threads with event loops. It decides how its lambda
captures the arguments, and Qt decides afterwards how the lambda is delivered;
between the two the context may move. Any number of calls, on any contexts,
proceed at the same time. -/
namespace Gymansie.InvokeInContext
open Runs
universe u v w
variable {Thread : Type u} {Context : Type v} {Args : Type w}

/-- `Qt::ConnectionType`. With `UniqueConnection` or `SingleShotConnection` set,
a value is none of the first four. -/
inductive ConnectionType where
  | auto
  | direct
  | queued
  | blockingQueued
  | flagged (bits : Nat)
  deriving DecidableEq

/-- How Qt delivers a call. -/
inductive Delivery where
  | direct
  | queued
  | blocking
  | refused
  deriving DecidableEq

/-- What is relied on of `QMetaObject::invokeMethod`, given whether the caller
is the context's thread at the time. -/
structure InvokeMethod where
  choose : ConnectionType → Bool → Delivery
  direct : ∀ same, choose .direct same = .direct
  queued : ∀ same, choose .queued same = .queued
  blockingQueued : ∀ same, choose .blockingQueued same = .blocking
  auto : ∀ same, choose .auto same = if same then .direct else .queued

instance : Inhabited InvokeMethod where
  default := {
    choose := fun
      | .auto, same => if same then .direct else .queued
      | .direct, _ => .direct
      | .queued, _ => .queued
      | .blockingQueued, _ => .blocking
      | .flagged _, _ => .refused
    direct := fun _ => rfl
    queued := fun _ => rfl
    blockingQueued := fun _ => rfl
    auto := fun _ => rfl }

/-- A lambda reads the caller's variables, or holds values of its own. -/
inductive Capture (Args : Type w) where
  | byReference
  | byValue (args : Args)
  deriving DecidableEq

inductive Lambda (Args : Type w) where
  | unmade
  | made (capture : Capture Args)
  | posted (capture : Capture Args)
  | running (capture : Capture Args)
  | ended
  deriving DecidableEq

/-- Where the caller is. In `direct` it runs the lambda, in `waiting` another
thread does; the last two come with the result. -/
inductive Phase where
  | entered
  | invoking
  | direct
  | waiting
  | leaving (invoked : Bool)
  | returned (invoked : Bool)
  deriving DecidableEq

/-- One call of `invokeInContext`, the caller's variables that it was given, and
what the callable has seen of its arguments so far. -/
structure Invocation (Thread : Type u) (Context : Type v) (Args : Type w) where
  caller : Thread
  context : Context
  connectionType : ConnectionType
  args : Args
  current : Args
  phase : Phase
  lambda : Lambda Args
  seen : List Args

/-- The threads that the contexts belong to, and all calls made so far. A thread
may run the lambdas of several at once, one inside the other. -/
structure System (Thread : Type u) (Context : Type v) (Args : Type w) where
  home : Context → Thread
  calls : List (Invocation Thread Context Args)
  /-- The calls whose lambdas the thread runs, the innermost first. -/
  stack : Thread → List Nat

inductive Event (Thread : Type u) (Context : Type v) (Args : Type w) where
  | call (caller : Thread) (context : Context) (connectionType : ConnectionType) (args : Args)
  | capture (index : Nat)
  | dispatch (index : Nat)
  | start (index : Nat)
  | discard (index : Nat)
  | read (index : Nat)
  | finish (index : Nat)
  | leave (index : Nat)
  | assign (index : Nat) (values : Args)
  | moveToThread (context : Context) (thread : Thread)

def Lambda.capture : Lambda Args → Option (Capture Args)
  | .made capture | .posted capture | .running capture => some capture
  | .unmade | .ended => none

def Capture.read (current : Args) : Capture Args → Args
  | .byReference => current
  | .byValue args => args

namespace Invocation

def enter (caller : Thread) (context : Context) (connectionType : ConnectionType) (args : Args) :
    Invocation Thread Context Args :=
  ⟨caller, context, connectionType, args, args, .entered, .unmade, []⟩

section Decisions
variable [DecidableEq Thread] (home : Context → Thread)

/-- `QThread::currentThread() == context->thread()`. -/
def sameThread (call : Invocation Thread Context Args) : Bool :=
  call.caller = home call.context

/-- The check in front of the two lambdas. -/
def byReference (call : Invocation Thread Context Args) : Bool :=
  call.connectionType = .direct || call.connectionType = .blockingQueued ||
    call.connectionType = .auto && call.sameThread home

def makeLambda (call : Invocation Thread Context Args) : Invocation Thread Context Args :=
  { call with
    phase := .invoking
    lambda := .made (if call.byReference home then .byReference else .byValue call.current) }

def dispatch (qt : InvokeMethod) (capture : Capture Args) (call : Invocation Thread Context Args) :
    Invocation Thread Context Args :=
  match qt.choose call.connectionType (call.sameThread home) with
  | .direct => { call with phase := .direct, lambda := .running capture }
  | .blocking => { call with phase := .waiting, lambda := .posted capture }
  | .queued => { call with phase := .leaving true, lambda := .posted capture }
  | .refused => { call with phase := .leaving false, lambda := .ended }

end Decisions

/-- The callable looks at its arguments. -/
def read (capture : Capture Args) (call : Invocation Thread Context Args) :
    Invocation Thread Context Args :=
  { call with seen := call.seen ++ [capture.read call.current] }

/-- What the call returns, once it can. -/
def outcome (call : Invocation Thread Context Args) : Option Bool :=
  match call.phase, call.lambda with
  | .direct, .ended | .waiting, .ended => some true
  | .leaving invoked, _ => some invoked
  | _, _ => none

/-- The caller is in code of `invokeInContext` or Qt, and does nothing else. -/
def Busy (call : Invocation Thread Context Args) : Prop :=
  match call.phase with
  | .direct => call.lambda = .ended
  | .returned _ => False
  | .entered | .invoking | .waiting | .leaving _ => True

def Returned (call : Invocation Thread Context Args) : Prop :=
  ∃ invoked, call.phase = .returned invoked

end Invocation

def System.Busy (system : System Thread Context Args) (thread : Thread) : Prop :=
  ∃ call ∈ system.calls, call.caller = thread ∧ call.Busy

def System.put (system : System Thread Context Args) (index : Nat)
    (call : Invocation Thread Context Args) : System Thread Context Args :=
  { system with calls := system.calls.set index call }

/-- Nothing called yet. -/
def idle (home : Context → Thread) : System Thread Context Args := ⟨home, [], fun _ => []⟩

section Steps
variable [DecidableEq Thread] [DecidableEq Context]

def System.withStack (system : System Thread Context Args) (thread : Thread) (running : List Nat) :
    System Thread Context Args :=
  { system with stack := Function.update system.stack thread running }

/-- A posted lambda is run by the thread the context belongs to then, which is
also the only one that moves it. A callable goes on, and ends, only while its
thread is not itself inside a call, and after the ones begun inside it. The caller
changes its variables after the return. -/
inductive Step (qt : InvokeMethod) :
    System Thread Context Args → Event Thread Context Args → System Thread Context Args → Prop where
  | call (free : ¬ system.Busy caller) :
      Step qt system (.call caller context connectionType args)
        { system with calls := system.calls ++ [.enter caller context connectionType args] }
  | capture (found : system.calls[index]? = some call) (entered : call.phase = .entered) :
      Step qt system (.capture index) (system.put index (call.makeLambda system.home))
  | dispatch (found : system.calls[index]? = some call) (invoking : call.phase = .invoking)
      (made : call.lambda = .made capture)
      (later : qt.choose call.connectionType (call.sameThread system.home) ≠ .direct) :
      Step qt system (.dispatch index) (system.put index (call.dispatch system.home qt capture))
  -- the caller runs the lambda itself
  | dispatchDirect (found : system.calls[index]? = some call) (invoking : call.phase = .invoking)
      (made : call.lambda = .made capture)
      (direct : qt.choose call.connectionType (call.sameThread system.home) = .direct) :
      Step qt system (.dispatch index)
        ((system.put index (call.dispatch system.home qt capture)).withStack call.caller
          (index :: system.stack call.caller))
  -- from the event loop, or from one that a running lambda has opened
  | start (found : system.calls[index]? = some call) (posted : call.lambda = .posted capture)
      (free : ¬ system.Busy (system.home call.context)) :
      Step qt system (.start index)
        ((system.put index { call with lambda := .running capture }).withStack (system.home call.context)
          (index :: system.stack (system.home call.context)))
  | discard (found : system.calls[index]? = some call) (posted : call.lambda = .posted capture) :
      Step qt system (.discard index) (system.put index { call with lambda := .ended })
  | read (found : system.calls[index]? = some call) (running : call.lambda = .running capture)
      (listed : index ∈ system.stack thread) (free : ¬ system.Busy thread) :
      Step qt system (.read index) (system.put index (call.read capture))
  | finish (found : system.calls[index]? = some call) (running : call.lambda = .running capture)
      (innermost : system.stack thread = index :: outer) (free : ¬ system.Busy thread) :
      Step qt system (.finish index)
        ((system.put index { call with lambda := .ended }).withStack thread outer)
  | leave (found : system.calls[index]? = some call) (done : call.outcome = some invoked) :
      Step qt system (.leave index) (system.put index { call with phase := .returned invoked })
  | assign (found : system.calls[index]? = some call) (returned : call.Returned) :
      Step qt system (.assign index values) (system.put index { call with current := values })
  | moveToThread (free : ¬ system.Busy (system.home context)) :
      Step qt system (.moveToThread context thread)
        { system with home := Function.update system.home context thread }

end Steps

/-- The callable has seen the values passed at the call, and no lambda that
captured by reference runs after the return. -/
def Faithful (system : System Thread Context Args) : Prop :=
  ∀ call ∈ system.calls, (∀ values ∈ call.seen, values = call.args) ∧
    ¬ (call.Returned ∧ call.lambda = .running .byReference)

/-! ### What each step keeps -/

section Calls
variable [DecidableEq Thread]

/-- The phases in which a lambda that captured by reference may exist. -/
def MayBorrow (home : Context → Thread) (call : Invocation Thread Context Args) : Prop :=
  match call.phase with
  | .invoking => call.byReference home = true
  | .direct | .waiting => True
  | .entered | .leaving _ | .returned _ => False

structure Sound (home : Context → Thread) (call : Invocation Thread Context Args) : Prop where
  kept : ¬ call.Returned → call.current = call.args
  copied : ∀ values, call.lambda.capture = some (.byValue values) → values = call.args
  borrowed : call.lambda.capture = some .byReference → MayBorrow home call
  faithful : ∀ values ∈ call.seen, values = call.args

variable {home : Context → Thread} {call : Invocation Thread Context Args}
  {system : System Thread Context Args}

theorem sound_enter (caller : Thread) (context : Context) (connectionType : ConnectionType)
    (args : Args) : Sound home (.enter caller context connectionType args) :=
  ⟨fun _ => rfl, fun _ absent => (nomatch absent), fun absent => (nomatch absent), fun _ member => (nomatch member)⟩

theorem Sound.untouched (sound : Sound home call) (busy : call.Busy) : call.current = call.args := by
  apply sound.kept
  rintro ⟨invoked, returned⟩
  simp [Invocation.Busy, returned] at busy

theorem Sound.makeLambda (sound : Sound home call) (entered : call.phase = .entered) :
    Sound home (call.makeLambda home) := by
  have kept := sound.untouched (by simp [Invocation.Busy, entered])
  by_cases borrow : call.byReference home = true
  · refine ⟨fun _ => kept, ?_, fun _ => borrow, sound.faithful⟩
    intro values copy
    simp [Invocation.makeLambda, borrow, Lambda.capture] at copy
  · refine ⟨fun _ => kept, ?_, ?_, sound.faithful⟩
    · intro values copy
      simp only [Invocation.makeLambda, borrow, Lambda.capture, Option.some.injEq, Capture.byValue.injEq,
        Bool.false_eq_true, if_false] at copy
      exact copy.symm.trans kept
    · intro reference
      simp [Invocation.makeLambda, borrow, Lambda.capture] at reference

/-- With a lambda that captured by reference Qt posts only what it waits for. -/
theorem borrowed_not_queued (qt : InvokeMethod) (borrow : call.byReference home = true) :
    qt.choose call.connectionType (call.sameThread home) ≠ .queued := by
  simp only [Invocation.byReference, Bool.or_eq_true, Bool.and_eq_true, decide_eq_true_eq] at borrow
  rcases borrow with (direct | blocking) | ⟨auto, same⟩
  · simp [direct, qt.direct]
  · simp [blocking, qt.blockingQueued]
  · simp [auto, same, qt.auto]

theorem Sound.dispatch (sound : Sound home call) (qt : InvokeMethod) (invoking : call.phase = .invoking)
    (made : call.lambda = .made capture) : Sound home (call.dispatch home qt capture) := by
  have kept := sound.untouched (by simp [Invocation.Busy, invoking])
  obtain ⟨-, copied, borrowed, faithful⟩ := sound
  rw [made] at copied borrowed
  unfold Invocation.dispatch
  split
  · exact ⟨fun _ => kept, copied, fun _ => trivial, faithful⟩
  · exact ⟨fun _ => kept, copied, fun _ => trivial, faithful⟩
  · next queued =>
    refine ⟨fun _ => kept, copied, ?_, faithful⟩
    intro reference
    have borrow : call.byReference home = true := by
      simpa only [MayBorrow, invoking] using borrowed reference
    exact absurd queued (borrowed_not_queued qt borrow)
  · exact ⟨fun _ => kept, fun _ absent => (nomatch absent), fun absent => (nomatch absent), faithful⟩

theorem Sound.start (sound : Sound home call) (posted : call.lambda = .posted capture) :
    Sound home { call with lambda := .running capture } := by
  obtain ⟨kept, copied, borrowed, faithful⟩ := sound
  rw [posted] at copied borrowed
  exact ⟨kept, copied, borrowed, faithful⟩

theorem Sound.finish (sound : Sound home call) : Sound home { call with lambda := .ended } :=
  ⟨sound.kept, fun _ absent => (nomatch absent), fun absent => (nomatch absent), sound.faithful⟩

/-- A lambda that captured by reference is gone when the call returns. -/
theorem Sound.not_returned (sound : Sound home call) (reference : call.lambda.capture = some .byReference) :
    ¬ call.Returned := by
  rintro ⟨invoked, returned⟩
  have borrow := sound.borrowed reference
  simp [MayBorrow, returned] at borrow

theorem Sound.read (sound : Sound home call) (running : call.lambda = .running capture) :
    Sound home (call.read capture) := by
  have held : call.lambda.capture = some capture := by rw [running, Lambda.capture]
  have right : capture.read call.current = call.args := by
    cases capture with
    | byReference => exact sound.kept (sound.not_returned held)
    | byValue values => exact sound.copied values held
  refine ⟨sound.kept, sound.copied, sound.borrowed, ?_⟩
  intro values member
  rcases List.mem_append.mp member with earlier | last
  · exact sound.faithful values earlier
  · exact (List.mem_singleton.mp last).trans right

theorem Sound.leave (sound : Sound home call) (done : call.outcome = some invoked) :
    Sound home { call with phase := .returned invoked } := by
  refine ⟨fun unreturned => absurd ⟨invoked, rfl⟩ unreturned, sound.copied, ?_, sound.faithful⟩
  intro reference
  have borrow := sound.borrowed reference
  unfold Invocation.outcome at done
  split at done
  · next ended => simp [ended, Lambda.capture] at reference
  · next ended => simp [ended, Lambda.capture] at reference
  · next leaving => simp [MayBorrow, leaving] at borrow
  · contradiction

theorem Sound.assign (sound : Sound home call) (returned : call.Returned) (values : Args) :
    Sound home { call with current := values } :=
  ⟨fun unreturned => absurd returned unreturned, sound.copied, sound.borrowed, sound.faithful⟩

def Safe (system : System Thread Context Args) : Prop :=
  ∀ call ∈ system.calls, Sound system.home call

theorem Safe.put (safe : Safe system) (sound : Sound system.home call) (index : Nat) :
    Safe (system.put index call) := by
  intro other member
  rcases List.mem_or_eq_of_mem_set member with kept | rfl
  · exact safe other kept
  · exact sound

theorem Safe.faithful (safe : Safe system) : Faithful system := by
  intro call member
  refine ⟨(safe call member).faithful, ?_⟩
  rintro ⟨returned, running⟩
  exact (safe call member).not_returned (by rw [running, Lambda.capture]) returned

end Calls

/-! ### Runs -/

section Runs
variable [DecidableEq Thread] [DecidableEq Context] {system after : System Thread Context Args}
  {home : Context → Thread} {call : Invocation Thread Context Args}

/-- The check stays true when a thread with other work moves a context. -/
theorem byReference_move (idle : call.caller ≠ home context) (borrow : call.byReference home = true)
    (thread : Thread) : call.byReference (Function.update home context thread) = true := by
  by_cases moved : call.context = context
  · have other : call.sameThread home = false := by
      simp [Invocation.sameThread, moved, idle]
    simp only [Invocation.byReference, other, Bool.and_false, Bool.or_false] at borrow
    simp only [Invocation.byReference, borrow, Bool.true_or]
  · have same : call.sameThread (Function.update home context thread) = call.sameThread home := by
      simp only [Invocation.sameThread, Function.update_of_ne moved]
    simpa only [Invocation.byReference, same] using borrow

theorem Sound.move (sound : Sound home call) (free : ¬ (call.caller = home context ∧ call.Busy))
    (thread : Thread) : Sound (Function.update home context thread) call := by
  refine ⟨sound.kept, sound.copied, ?_, sound.faithful⟩
  intro reference
  have borrow := sound.borrowed reference
  unfold MayBorrow at borrow ⊢
  cases phase : call.phase with
  | invoking =>
    simp only [phase] at borrow ⊢
    have idle : call.caller ≠ home context := fun same => free ⟨same, by simp [Invocation.Busy, phase]⟩
    exact byReference_move idle borrow thread
  | direct | waiting => trivial
  | entered | leaving | returned => simp [phase] at borrow

theorem safe_step (safe : Safe system) (step : Step qt system event after) : Safe after := by
  have known : ∀ {index : Nat} {call}, system.calls[index]? = some call → Sound system.home call :=
    fun found => safe _ (List.mem_of_getElem? found)
  cases step with
  | call free =>
    intro call member
    rcases List.mem_append.mp member with earlier | last
    · exact safe call earlier
    · rw [List.mem_singleton.mp last]
      exact sound_enter ..
  | capture found entered => exact safe.put ((known found).makeLambda entered) _
  | dispatch found invoking made => exact safe.put ((known found).dispatch qt invoking made) _
  | dispatchDirect found invoking made => exact safe.put ((known found).dispatch qt invoking made) _
  | start found posted => exact safe.put ((known found).start posted) _
  | discard found => exact safe.put (known found).finish _
  | read found running => exact safe.put ((known found).read running) _
  | finish found => exact safe.put (known found).finish _
  | leave found done => exact safe.put ((known found).leave done) _
  | assign found returned => exact safe.put ((known found).assign returned _) _
  | moveToThread free =>
    intro call member
    exact (safe call member).move (fun both => free ⟨call, member, both⟩) _

/-- For every delivery that keeps to what Qt documents, all threads, contexts
and calls, and every order of steps: what the callables see was passed at the
call, and nothing runs on references after the return. -/
theorem arguments_outlive (qt : InvokeMethod) (home : Context → Thread)
    (events : List (Event Thread Context Args)) :
    Always (Step qt) Faithful (idle home : System Thread Context Args) events := by
  have safe : Safe (idle home : System Thread Context Args) := fun _ absent => (nomatch absent)
  have always : Always (Step qt) Safe _ events := always_of_inv safe safe_step
  exact fun before rest last split run => (always before rest last split run).faithful

/-- A queued call, read after its caller has changed the variable. -/
theorem arguments_outlive_queued :
    ∃ last : System Nat Unit Nat,
      Run (Step default) (idle fun _ => 1) [.call 0 () .queued 5, .capture 0, .dispatch 0, .leave 0,
        .assign 0 6, .start 0, .read 0] last ∧ last.calls.map (·.seen) = [[5]] ∧ Faithful last := by
  let running (seen : List Nat) : System Nat Unit Nat :=
    ⟨fun _ => 1, [⟨0, (), .queued, 5, 6, .returned true, .running (.byValue 5), seen⟩],
      Function.update (fun _ => []) 1 [0]⟩
  have quiet (thread : Nat) (seen : List Nat) : ¬ (running seen).Busy thread := by
    rintro ⟨call, only, -, busy⟩
    obtain rfl := List.mem_singleton.mp only
    exact busy
  have reads : Step default (running []) (.read 0) (running [5]) :=
    .read rfl rfl (List.mem_singleton_self 0 : 0 ∈ (running []).stack 1) (quiet 1 [])
  have run : Run (Step default) (idle fun _ => 1) [.call 0 () .queued 5, .capture 0, .dispatch 0,
      .leave 0, .assign 0 6, .start 0, .read 0] (running [5]) := by
    refine .next (.call ?_) (.next (.capture rfl rfl) (.next (.dispatch rfl rfl rfl nofun)
      (.next (.leave rfl rfl) (.next (.assign rfl ⟨true, rfl⟩) (.next (.start rfl rfl ?_)
        (.next reads (.done _)))))))
    · rintro ⟨call, absent, -⟩
      exact absurd absent List.not_mem_nil
    · rintro ⟨call, only, -, busy⟩
      obtain rfl := List.mem_singleton.mp only
      exact busy
  exact ⟨_, run, rfl, arguments_outlive default _ _ _ [] _ (List.append_nil _).symm run⟩

end Runs
end Gymansie.InvokeInContext
