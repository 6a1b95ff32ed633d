import Gymansie.Runs
import Mathlib.Logic.Function.Basic

/-! Operations that lock, run their statements one by one on a shared state,
unlock, and return. Calls of any number of threads are interleaved statement by
statement. Their results, and the state they leave, are those of one call after
another in the order in which they release the lock. The return comes later: by
then another thread may have locked, released and returned, so the order of the
returns is another one, but each thread is handed its own results in order. -/
namespace Gymansie.Sections
universe u v w x y
variable {σ : Type u} {Op : Type v} {Point : Type w} {R : Type x} {Thread : Type y}

/-- The point behind the locker of each operation, or the result it has without
locking, and what the statement at a point does to the state: it goes on to
another point or ends with a result. -/
structure Statements (σ : Type u) (Op : Type v) (Point : Type w) (R : Type x) where
  enter : Op → Point ⊕ R
  next : Point → σ → (Point ⊕ R) × σ

/-- The statements from a point on, without interruption. -/
inductive Finishes (code : Statements σ Op Point R) : Point → σ → R → σ → Prop where
  | last (ends : code.next point s = (.inr result, t)) : Finishes code point s result t
  | next (goes : code.next point s = (.inl after, t)) (rest : Finishes code after t result u) :
      Finishes code point s result u

theorem finishes_unique {code : Statements σ Op Point R} (first : Finishes code point s result t)
    (second : Finishes code point s result' t') : result = result' ∧ t = t' := by
  induction first with
  | last ends =>
    cases second with
    | last ends' =>
      obtain ⟨same, rfl⟩ := Prod.mk.inj (ends.symm.trans ends')
      exact ⟨Sum.inr.inj same, rfl⟩
    | next goes => simp [ends] at goes
  | next goes _ ih =>
    cases second with
    | last ends => simp [goes] at ends
    | next goes' rest =>
      obtain ⟨same, rfl⟩ := Prod.mk.inj (goes.symm.trans goes')
      obtain rfl := Sum.inl.inj same
      exact ih rest

/-- A whole operation, as if it were one step. -/
def Performs (code : Statements σ Op Point R) (op : Op) (s : σ) (result : R) (t : σ) : Prop :=
  match code.enter op with
  | .inl point => Finishes code point s result t
  | .inr early => result = early ∧ t = s

theorem performs_locked {code : Statements σ Op Point R} (locks : code.enter op = .inl point) :
    Performs code op s result t ↔ Finishes code point s result t := by
  rw [Performs, locks]

theorem performs_early {code : Statements σ Op Point R} (early : code.enter op = .inr answer) :
    Performs code op s result t ↔ result = answer ∧ t = s := by
  rw [Performs, early]

theorem performs_unique {code : Statements σ Op Point R} (first : Performs code op s result t)
    (second : Performs code op s result' t') : result = result' ∧ t = t' := by
  cases enters : code.enter op with
  | inl point =>
    rw [performs_locked enters] at first second
    exact finishes_unique first second
  | inr early =>
    rw [performs_early enters] at first second
    exact ⟨first.1.trans second.1.symm, first.2.trans second.2.symm⟩

structure Answered (Op : Type v) (R : Type x) (Thread : Type y) where
  thread : Thread
  op : Op
  result : R

abbrev Sequential (code : Statements σ Op Point R) : σ → List (Answered Op R Thread) → σ → Prop :=
  Runs.Run fun s call t => Performs code call.op s call.result t

inductive Control (Op : Type v) (Point : Type w) (R : Type x) where
  | idle
  | called (op : Op)
  | inside (op : Op) (point : Point)
  -- at the destructor of the locker
  | leaving (op : Op) (result : R)
  | returning (op : Op) (result : R)

structure Config (σ : Type u) (Op : Type v) (Point : Type w) (R : Type x) (Thread : Type y) where
  owner : Option Thread
  shared : σ
  control : Thread → Control Op Point R

inductive Event (Op : Type v) (R : Type x) (Thread : Type y) where
  | call (thread : Thread) (op : Op)
  -- the call has its result without locking
  | early (call : Answered Op R Thread)
  | lock (thread : Thread)
  | work (thread : Thread)
  | release (call : Answered Op R Thread)
  | returned (call : Answered Op R Thread)

/-- The calls in the order in which they release the lock; one that does not lock
has its place where its result is settled. -/
def history (events : List (Event Op R Thread)) : List (Answered Op R Thread) :=
  events.filterMap fun
    | .early call | .release call => some call
    | _ => none

def returns (events : List (Event Op R Thread)) : List (Answered Op R Thread) :=
  events.filterMap fun
    | .returned call => some call
    | _ => none

def start (s : σ) : Config σ Op Point R Thread := ⟨none, s, fun _ => .idle⟩

variable [DecidableEq Thread]

inductive Step (code : Statements σ Op Point R) : Config σ Op Point R Thread →
    Event Op R Thread → Config σ Op Point R Thread → Prop where
  | call {c t op} (ready : c.control t = .idle) :
      Step code c (.call t op) { c with control := Function.update c.control t (.called op) }
  | early {c t op result} (called : c.control t = .called op) (ends : code.enter op = .inr result) :
      Step code c (.early ⟨t, op, result⟩)
        { c with control := Function.update c.control t (.returning op result) }
  | lock {c t op point} (called : c.control t = .called op) (locks : code.enter op = .inl point)
      (free : c.owner = none) :
      Step code c (.lock t)
        ⟨some t, c.shared, Function.update c.control t (.inside op point)⟩
  | work {c t op point after s} (at_point : c.control t = .inside op point)
      (goes : code.next point c.shared = (.inl after, s)) :
      Step code c (.work t) ⟨c.owner, s, Function.update c.control t (.inside op after)⟩
  | last {c t op point result s} (at_point : c.control t = .inside op point)
      (ends : code.next point c.shared = (.inr result, s)) :
      Step code c (.work t) ⟨c.owner, s, Function.update c.control t (.leaving op result)⟩
  | release {c t op result} (leaves : c.control t = .leaving op result) :
      Step code c (.release ⟨t, op, result⟩)
        ⟨none, c.shared, Function.update c.control t (.returning op result)⟩
  -- other threads may have had the lock since the release
  | returned {c t op result} (returning : c.control t = .returning op result) :
      Step code c (.returned ⟨t, op, result⟩)
        { c with control := Function.update c.control t .idle }

def Control.Locked : Control Op Point R → Prop
  | .idle | .called _ | .returning _ _ => False
  | .inside _ _ | .leaving _ _ => True

/-- The owner has come from the state `base`, in which its call began. -/
def Control.From (code : Statements σ Op Point R) (base shared : σ) : Control Op Point R → Prop
  | .idle | .called _ | .returning _ _ => False
  | .inside op point => ∀ result t, Finishes code point shared result t → Performs code op base result t
  | .leaving op result => Performs code op base result shared

/-- Only the owner is at its statements, and `base` is the state before its call. -/
structure Since (code : Statements σ Op Point R) (base : σ) (c : Config σ Op Point R Thread) :
    Prop where
  alone : ∀ t, (c.control t).Locked → c.owner = some t
  inside : ∀ t, c.owner = some t → (c.control t).From code base c.shared
  outside : c.owner = none → c.shared = base

variable {code : Statements σ Op Point R} {c d : Config σ Op Point R Thread} {base : σ}

omit [DecidableEq Thread] in
theorem since_start (s : σ) : Since code s (start s : Config σ Op Point R Thread) :=
  ⟨fun _ locked => locked.elim, fun _ owned => by simp [start] at owned, fun _ => rfl⟩

theorem locked_of_update {f : Thread → Control Op Point R}
    (locked : (Function.update f t next u).Locked) (other : u ≠ t) : (f u).Locked := by
  rwa [Function.update_of_ne other] at locked

theorem Since.moved (since : Since code base c) (owned : c.owner = some t) {s : σ}
    {next : Control Op Point R} (from_base : next.From code base s) :
    Since code base ⟨c.owner, s, Function.update c.control t next⟩ := by
  refine ⟨?_, ?_, ?_⟩
  · intro u locked
    by_cases same : u = t
    · rw [same]
      exact owned
    · exact since.alone u (locked_of_update locked same)
  · intro u owned'
    obtain rfl : t = u := Option.some.inj (owned.symm.trans owned')
    simpa using from_base
  · intro free
    exact absurd (owned.symm.trans free) (by simp)

/-- A thread that does not own the lock goes to another point without it. -/
theorem Since.aside (since : Since code base c) (unlocked : ¬ (c.control t).Locked)
    {next : Control Op Point R} (unlocked' : ¬ next.Locked) :
    Since code base { c with control := Function.update c.control t next } := by
  refine ⟨?_, ?_, since.outside⟩
  · intro u locked
    by_cases same : u = t
    · subst u
      simp only [Function.update_self] at locked
      exact absurd locked unlocked'
    · exact since.alone u (locked_of_update locked same)
  · intro u owned
    have from_base := since.inside u owned
    have other : u ≠ t := by
      rintro rfl
      cases control : c.control u with
      | inside | leaving => simp [control, Control.Locked] at unlocked
      | _ => simp [control, Control.From] at from_base
    simpa only [Function.update_of_ne other] using from_base

/-- One step is either none or one of the whole calls. -/
theorem since_step {event : Event Op R Thread} (since : Since code base c)
    (step : Step code c event d) :
    ∃ base', Sequential code base (history [event]) base' ∧ Since code base' d := by
  cases step with
  | @call t op ready =>
    exact ⟨base, .done base, since.aside (by simp [ready, Control.Locked]) fun locked => locked⟩
  | @early t op result called ends =>
    have performed : Performs code op base result base := (performs_early ends).mpr ⟨rfl, rfl⟩
    exact ⟨base, .next performed (.done _),
      since.aside (by simp [called, Control.Locked]) fun locked => locked⟩
  | @lock t op point called locks free =>
    refine ⟨base, .done base, ?_, ?_, fun held => by simp at held⟩
    · intro u locked
      by_cases same : u = t
      · rw [same]
      · have before := since.alone u (locked_of_update locked same)
        exact absurd (before.symm.trans free) (by simp)
    · intro u owned
      obtain rfl : t = u := Option.some.inj owned
      simp only [Function.update_self, since.outside free]
      exact fun result s finishes => (performs_locked locks).mpr finishes
  | @work t op point after s at_point goes =>
    have owned : c.owner = some t := since.alone t (by rw [at_point]; trivial)
    have from_base := since.inside t owned
    rw [at_point] at from_base
    exact ⟨base, .done base, since.moved owned fun result u rest => from_base result u (.next goes rest)⟩
  | @last t op point result s at_point ends =>
    have owned : c.owner = some t := since.alone t (by rw [at_point]; trivial)
    have from_base := since.inside t owned
    rw [at_point] at from_base
    exact ⟨base, .done base, since.moved owned (from_base result s (.last ends))⟩
  | @release t op result leaves =>
    have owned : c.owner = some t := since.alone t (by rw [leaves]; trivial)
    have performed := since.inside t owned
    rw [leaves] at performed
    refine ⟨c.shared, .next performed (.done _), ?_, fun _ owned' => by simp at owned', fun _ => rfl⟩
    intro u locked
    by_cases same : u = t
    · subst u
      simp [Control.Locked] at locked
    · have before := since.alone u (locked_of_update locked same)
      exact absurd (Option.some.inj (owned.symm.trans before)).symm same
  | @returned t op result returning =>
    exact ⟨base, .done base, since.aside (by simp [returning, Control.Locked]) fun locked => locked⟩

omit [DecidableEq Thread] in
theorem history_cons (event : Event Op R Thread) (events : List (Event Op R Thread)) :
    history (event :: events) = history [event] ++ history events := by
  simp only [history, ← List.filterMap_append, List.singleton_append]

/-- Every interleaving is one call after another, in the order of the releases. -/
theorem run_sequential {events : List (Event Op R Thread)} (since : Since code base c)
    (run : Runs.Run (Step code) c events d) :
    ∃ base', Sequential code base (history events) base' ∧ Since code base' d := by
  induction run generalizing base with
  | done => exact ⟨base, .done base, since⟩
  | @next c event d events e head tail ih =>
    obtain ⟨middle, first, after⟩ := since_step since head
    obtain ⟨last, rest, reached⟩ := ih after
    rw [history_cons]
    exact ⟨last, first.append rest, reached⟩

/-! ### What each thread is handed -/

def Event.thread : Event Op R Thread → Thread
  | .call t _ => t
  | .early answered => answered.thread
  | .lock t => t
  | .work t => t
  | .release answered => answered.thread
  | .returned answered => answered.thread

def Config.returning (c : Config σ Op Point R Thread) (t : Thread) : List (Answered Op R Thread) :=
  match c.control t with
  | .returning op result => [⟨t, op, result⟩]
  | _ => []

def own (t : Thread) (log : List (Answered Op R Thread)) : List (Answered Op R Thread) :=
  log.filter fun call => call.thread = t

theorem own_append (t : Thread) (first second : List (Answered Op R Thread)) :
    own t (first ++ second) = own t first ++ own t second :=
  List.filter_append ..

theorem own_others {event : Event Op R Thread} {t : Thread} (other : t ≠ event.thread) :
    own t (history [event]) = [] ∧ own t (returns [event]) = [] := by
  cases event <;> simp_all [own, history, returns, Event.thread, ne_comm]

theorem step_others {event : Event Op R Thread} {t : Thread} (step : Step code c event d)
    (other : t ≠ event.thread) : d.control t = c.control t := by
  cases step <;> simp only [Event.thread] at other <;> exact Function.update_of_ne other _ _

/-- A step settles one result of its thread, or returns it, or does neither. -/
theorem step_returns {event : Event Op R Thread} (step : Step code c event d) (t : Thread) :
    c.returning t ++ own t (history [event]) = own t (returns [event]) ++ d.returning t := by
  by_cases same : t = event.thread
  · subst t
    cases step with
    | call control | early control | lock control | work control | last control | release control
    | returned control => simp [Config.returning, history, returns, own, Event.thread, control]
  · obtain ⟨unsettled, unreturned⟩ := own_others same
    simp only [Config.returning, step_others step same, unsettled, unreturned, List.append_nil,
      List.nil_append]

/-- Each thread is handed its results in their order; at most the last is still
to come. -/
theorem run_returns {events : List (Event Op R Thread)} (run : Runs.Run (Step code) c events d)
    (t : Thread) : c.returning t ++ own t (history events) = own t (returns events) ++ d.returning t := by
  induction run with
  | done => simp [history, returns, own]
  | @next c event d events e head tail ih =>
    have returns_cons : returns (event :: events) = returns [event] ++ returns events := by
      simp only [returns, ← List.filterMap_append, List.singleton_append]
    rw [history_cons, returns_cons, own_append, own_append, ← List.append_assoc, step_returns head t,
      List.append_assoc, ih, List.append_assoc]

theorem start_returns {events : List (Event Op R Thread)} (run : Runs.Run (Step code) (start s) events d)
    (t : Thread) : own t (history events) = own t (returns events) ++ d.returning t :=
  run_returns run t

/-! ### States and results in terms of the calls before

`reached` is the state after calls, and `answer` what one more call returns. -/

section Answers
variable {reached : List Op → σ} {answer : List Op → Op → R}

omit [DecidableEq Thread] in
theorem sequential_answers {log : List (Answered Op R Thread)}
    (performs : ∀ calls op, Performs code op (reached calls) (answer calls op) (reached (calls ++ [op])))
    (earlier : List Op) (sequential : Sequential code (reached earlier) log after) :
    after = reached (earlier ++ log.map (·.op)) ∧
      ∀ before call later, log = before ++ call :: later →
        call.result = answer (earlier ++ before.map (·.op)) call.op := by
  induction log generalizing earlier with
  | nil =>
    cases sequential
    exact ⟨by simp, fun before call later split => by simp at split⟩
  | cons first log ih =>
    obtain _ | ⟨performed, rest⟩ := sequential
    obtain ⟨result, rfl⟩ := performs_unique (performs earlier first.op) performed
    obtain ⟨last, answers⟩ := ih (earlier ++ [first.op]) rest
    refine ⟨by simpa using last, ?_⟩
    intro before call later split
    cases before with
    | nil =>
      obtain ⟨rfl, -⟩ := List.cons.inj split
      simpa using result.symm
    | cons _ before =>
      obtain ⟨rfl, behind⟩ := List.cons.inj split
      simpa using answers before call later behind

/-- In every interleaving each call is answered as its place among the releases
says. -/
theorem run_answers {events : List (Event Op R Thread)}
    (performs : ∀ calls op, Performs code op (reached calls) (answer calls op) (reached (calls ++ [op])))
    (run : Runs.Run (Step code) (start (reached [])) events d) :
    (∀ before call later, history events = before ++ call :: later →
        call.result = answer (before.map (·.op)) call.op) ∧
      (d.owner = none → d.shared = reached ((history events).map (·.op))) := by
  obtain ⟨last, sequential, since⟩ := run_sequential (since_start (reached [])) run
  obtain ⟨same, answers⟩ := sequential_answers performs [] sequential
  exact ⟨answers, fun free => (since.outside free).trans same⟩

end Answers
end Gymansie.Sections
