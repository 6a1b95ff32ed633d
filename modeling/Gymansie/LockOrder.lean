import Gymansie.Runs
import Mathlib.Algebra.Order.BigOperators.Group.Finset
import Mathlib.Data.Set.Finite.Basic
import Mathlib.Logic.Function.Basic
import Mathlib.Order.Defs.Unbundled
import Mathlib.Order.Preorder.Finite

/-! Threads that hold any number of non-recursive locks in nested blocks. A set
of threads that wait for one another stays blocked for ever. It cannot come
about if locks are requested along a strict order, for any number of threads
and any interleaving; one thread alone is blocked exactly by a block inside a
block of the same lock. Nothing is said about fairness. -/
namespace Gymansie.LockOrder
universe u v
variable {L : Type u} {Thread : Type v}

/-- What the code of a thread does to locks: each block is left before what
stands behind it. -/
inductive Code (L : Type u) where
  | done
  | block (lock : L) (body rest : Code L)

inductive Op (L : Type u) where
  | request (lock : L)
  | release (lock : L)

namespace Code

def seq : Code L → Code L → Code L
  | done, second => second
  | block lock body rest, second => block lock body (rest.seq second)

def ops : Code L → List (Op L)
  | done => []
  | block lock body rest => .request lock :: (body.ops ++ .release lock :: rest.ops)

def locks : Code L → List L
  | done => []
  | block lock body rest => lock :: (body.locks ++ rest.locks)

/-- Inside a block, at any depth, only locks are requested that `R` allows. -/
def Nested (R : L → L → Prop) : Code L → Prop
  | done => True
  | block lock body rest => (∀ inner ∈ body.locks, R lock inner) ∧ body.Nested R ∧ rest.Nested R

@[simp]
theorem locks_seq (first second : Code L) : (first.seq second).locks = first.locks ++ second.locks := by
  induction first with
  | done => rfl
  | block lock body rest _ ih => simp [seq, locks, ih]

@[simp]
theorem nested_seq (R : L → L → Prop) (first second : Code L) :
    (first.seq second).Nested R ↔ first.Nested R ∧ second.Nested R := by
  induction first with
  | done => simp [seq, Nested]
  | block lock body rest _ ih => simp only [seq, Nested, ih, and_assoc]

theorem nested_true (code : Code L) : code.Nested fun _ _ => True := by
  induction code with
  | done => trivial
  | block lock body rest inside behind => exact ⟨fun _ _ => trivial, inside, behind⟩

end Code

/-- The operations ahead of a thread that holds `held`, newest first: blocks are
left in the opposite order, and every request is allowed over all locks held. -/
def Ahead (R : L → L → Prop) : List L → List (Op L) → Prop
  | held, [] => held = []
  | held, .request lock :: ops => (∀ outer ∈ held, R outer lock) ∧ Ahead R (lock :: held) ops
  | held, .release lock :: ops => ∃ outer, held = lock :: outer ∧ Ahead R outer ops

theorem ahead_code {R : L → L → Prop} (code : Code L) (held : List L) (ops : List (Op L)) :
    Ahead R held (code.ops ++ ops) ↔
      (∀ inner ∈ code.locks, ∀ outer ∈ held, R outer inner) ∧ code.Nested R ∧ Ahead R held ops := by
  induction code generalizing held ops with
  | done => simp [Code.ops, Code.locks, Code.Nested]
  | block lock body rest inside behind =>
    have leaves : Ahead R (lock :: held) (.release lock :: (rest.ops ++ ops)) ↔
        Ahead R held (rest.ops ++ ops) := by
      constructor
      · rintro ⟨outer, same, after⟩
        rwa [(List.cons.inj same).2]
      · intro after
        exact ⟨held, rfl, after⟩
    simp only [Code.ops, List.cons_append, List.append_assoc, Ahead, Code.locks, Code.Nested,
      List.forall_mem_cons, List.forall_mem_append]
    rw [inside, leaves, behind]
    simp only [List.forall_mem_cons]
    constructor
    · rintro ⟨first, within, nested, later, nested', after⟩
      exact ⟨⟨first, fun inner member => (within inner member).2, later⟩,
        ⟨fun inner member => (within inner member).1, nested, nested'⟩, after⟩
    · rintro ⟨⟨first, within, later⟩, ⟨direct, nested, nested'⟩, after⟩
      exact ⟨first, fun inner member => ⟨direct inner member, within inner member⟩, nested, later,
        nested', after⟩

theorem ahead_ops {R : L → L → Prop} {code : Code L} : Ahead R [] code.ops ↔ code.Nested R := by
  have whole := ahead_code (R := R) code [] []
  simpa [Ahead] using whole

/-! ### Threads -/

structure Config (L : Type u) (Thread : Type v) where
  owner : L → Option Thread
  ahead : Thread → List (Op L)

def start (code : Thread → Code L) : Config L Thread := ⟨fun _ => none, fun t => (code t).ops⟩

variable [DecidableEq L] [DecidableEq Thread]

/-- A request is granted only while nobody owns the lock. -/
inductive Step : Config L Thread → Thread → Config L Thread → Prop where
  | request {c t lock ops} (next : c.ahead t = .request lock :: ops) (free : c.owner lock = none) :
      Step c t ⟨Function.update c.owner lock (some t), Function.update c.ahead t ops⟩
  | release {c t lock ops} (next : c.ahead t = .release lock :: ops)
      (owned : c.owner lock = some t) :
      Step c t ⟨Function.update c.owner lock none, Function.update c.ahead t ops⟩

omit [DecidableEq L] [DecidableEq Thread] in
/-- Threads each of which waits for a lock that another one of them owns. -/
def Deadlock (c : Config L Thread) : Prop :=
  ∃ waiting : Set Thread, waiting.Nonempty ∧ ∀ t ∈ waiting, ∃ lock ops other,
    c.ahead t = .request lock :: ops ∧ c.owner lock = some other ∧ other ∈ waiting

/-- Some continuation brings every thread to its end. -/
def Finishes (c : Config L Thread) : Prop :=
  ∃ schedule d, Runs.Run Step c schedule d ∧ ∀ t, d.ahead t = []

omit [DecidableEq L] [DecidableEq Thread] in
/-- `held t` are the locks that `t` owns, in the order in which it leaves them. -/
structure Holds (R : L → L → Prop) (held : Thread → List L) (c : Config L Thread) : Prop where
  nodup : ∀ t, (held t).Nodup
  ahead : ∀ t, Ahead R (held t) (c.ahead t)
  owner : ∀ t lock, c.owner lock = some t ↔ lock ∈ held t

section Steps
variable {R : L → L → Prop} {held : Thread → List L} {c d : Config L Thread} {t : Thread}

omit [DecidableEq L] [DecidableEq Thread] in
theorem holds_start {code : Thread → Code L} (nested : ∀ t, (code t).Nested R) :
    Holds R (fun _ => []) (start code) := by
  refine ⟨fun _ => List.nodup_nil, fun t => ahead_ops.mpr (nested t), fun t lock => ?_⟩
  simp [start]

theorem holds_request (holds : Holds R held c) (next : c.ahead t = .request lock :: ops)
    (free : c.owner lock = none) :
    Holds R (Function.update held t (lock :: held t))
      ⟨Function.update c.owner lock (some t), Function.update c.ahead t ops⟩ := by
  have unheld : ∀ u, lock ∉ held u := by
    intro u member
    exact absurd ((holds.owner u lock).mpr member) (by simp [free])
  refine ⟨?_, ?_, ?_⟩
  · intro u
    by_cases same : u = t
    · subst u
      simpa using ⟨unheld t, holds.nodup t⟩
    · simpa [same] using holds.nodup u
  · intro u
    by_cases same : u = t
    · subst u
      have going := holds.ahead t
      rw [next] at going
      simpa using going.2
    · simpa [same] using holds.ahead u
  · intro u other
    by_cases asked : other = lock
    · subst other
      by_cases same : u = t
      · simp [same]
      · simp [same, Ne.symm same, unheld u]
    · by_cases same : u = t
      · simp [same, asked, holds.owner]
      · simp [same, asked, holds.owner]

theorem holds_release (holds : Holds R held c) (next : c.ahead t = .release lock :: ops) :
    ∃ outer, held t = lock :: outer ∧ Holds R (Function.update held t outer)
      ⟨Function.update c.owner lock none, Function.update c.ahead t ops⟩ := by
  have going := holds.ahead t
  rw [next] at going
  obtain ⟨outer, top, going⟩ := going
  have distinct := holds.nodup t
  rw [top, List.nodup_cons] at distinct
  have owned : c.owner lock = some t := (holds.owner t lock).mpr (by simp [top])
  refine ⟨outer, top, ?_, ?_, ?_⟩
  · intro u
    by_cases same : u = t
    · subst u
      simpa using distinct.2
    · simpa [same] using holds.nodup u
  · intro u
    by_cases same : u = t
    · subst u
      simpa using going
    · simpa [same] using holds.ahead u
  · intro u other
    by_cases left : other = lock
    · subst other
      by_cases same : u = t
      · simp [same, distinct.1]
      · have elsewhere : lock ∉ held u := by
          rw [← holds.owner u lock, owned]
          simpa using Ne.symm same
        simp [same, elsewhere]
    · by_cases same : u = t
      · simp [same, left, holds.owner, top]
      · simp [same, left, holds.owner]

theorem holds_step (holds : Holds R held c) (step : Step c t d) : ∃ held', Holds R held' d := by
  cases step with
  | request next free => exact ⟨_, holds_request holds next free⟩
  | release next owned =>
    obtain ⟨outer, -, after⟩ := holds_release holds next
    exact ⟨_, after⟩

theorem holds_run (holds : Holds R held c) (run : Runs.Run Step c schedule d) :
    ∃ held', Holds R held' d := by
  induction run generalizing held with
  | done => exact ⟨held, holds⟩
  | next head tail ih =>
    obtain ⟨_, after⟩ := holds_step holds head
    exact ih after

omit [DecidableEq L] [DecidableEq Thread] in
theorem Holds.unfinished (holds : Holds R held c) (owned : c.owner lock = some t) :
    c.ahead t ≠ [] := by
  intro ended
  have going := holds.ahead t
  rw [ended] at going
  have member := (holds.owner t lock).mp owned
  rw [going] at member
  exact List.not_mem_nil member

omit [DecidableEq L] [DecidableEq Thread] in
theorem Holds.free (holds : Holds R held c) (ended : ∀ t, c.ahead t = []) (lock : L) :
    c.owner lock = none := by
  cases owned : c.owner lock with
  | none => rfl
  | some t => exact absurd (ended t) (holds.unfinished owned)

/-- A thread that cannot go on waits for a lock that is owned. -/
theorem waits_of_stuck (holds : Holds R held c) (unfinished : c.ahead t ≠ [])
    (stuck : ∀ d, ¬ Step c t d) :
    ∃ lock ops other, c.ahead t = .request lock :: ops ∧ c.owner lock = some other := by
  cases ahead : c.ahead t with
  | nil => exact absurd ahead unfinished
  | cons op ops =>
    cases op with
    | request lock =>
      cases owned : c.owner lock with
      | none => exact absurd (.request ahead owned) (stuck _)
      | some other => exact ⟨lock, ops, other, rfl, owned⟩
    | release lock =>
      obtain ⟨outer, top, -⟩ := holds_release holds ahead
      have owned : c.owner lock = some t := (holds.owner t lock).mpr (by simp [top])
      exact absurd (.release ahead owned) (stuck _)

theorem progress (holds : Holds R held c) (safe : ¬ Deadlock c)
    (unfinished : ∃ t, c.ahead t ≠ []) : ∃ t d, Step c t d := by
  by_contra none
  have stuck : ∀ t d, ¬ Step c t d := fun t d step => none ⟨t, d, step⟩
  refine safe ⟨{t | c.ahead t ≠ []}, unfinished, ?_⟩
  intro t waits
  obtain ⟨lock, ops, other, ahead, owned⟩ := waits_of_stuck holds waits (stuck t)
  exact ⟨lock, ops, other, ahead, owned, holds.unfinished owned⟩

/-! ### Coming to an end -/

def work [Fintype Thread] (c : Config L Thread) : Nat := ∑ t, (c.ahead t).length

theorem work_step [Fintype Thread] (step : Step c t d) : work d < work c := by
  have shorter {ops : List (Op L)} (less : ops.length < (c.ahead t).length) :
      ∑ u, (Function.update c.ahead t ops u).length < ∑ u, (c.ahead u).length := by
    refine Finset.sum_lt_sum (fun u _ => ?_) ⟨t, Finset.mem_univ t, by simpa using less⟩
    by_cases same : u = t
    · subst u
      simpa using less.le
    · simp [same]
  cases step with
  | request next free => exact shorter (by simp [next])
  | release next owned => exact shorter (by simp [next])

/-- Finitely many threads come to an end wherever none of them can wait for one
another. -/
theorem finishes_of_safe [Finite Thread] (holds : Holds R held c)
    (safe : ∀ schedule d, Runs.Run Step c schedule d → ¬ Deadlock d) : Finishes c := by
  have := Fintype.ofFinite Thread
  induction size : work c using Nat.strong_induction_on generalizing c held with
  | h n ih =>
    by_cases ended : ∀ t, c.ahead t = []
    · exact ⟨[], c, .done c, ended⟩
    · obtain ⟨t, d, step⟩ := progress holds (safe [] c (.done c)) (not_forall.mp ended)
      obtain ⟨held', after⟩ := holds_step holds step
      have later : ∀ schedule e, Runs.Run Step d schedule e → ¬ Deadlock e :=
        fun schedule e run => safe (t :: schedule) e (.next step run)
      obtain ⟨schedule, e, run, ended⟩ := ih (work d) (size ▸ work_step step) after later rfl
      exact ⟨t :: schedule, e, .next step run, ended⟩

/-- Threads that wait for one another stay where they are. -/
theorem deadlock_step (deadlock : Deadlock c) (step : Step c t d) : Deadlock d := by
  obtain ⟨waiting, nonempty, blocked⟩ := deadlock
  have outside : t ∉ waiting := by
    intro member
    obtain ⟨lock, ops, other, ahead, owned, -⟩ := blocked t member
    cases step with
    | request next free =>
      rw [ahead] at next
      obtain ⟨same, rfl⟩ := List.cons.inj next
      obtain rfl := Op.request.inj same
      simp [free] at owned
    | release next owned' =>
      rw [ahead] at next
      simp at next
  refine ⟨waiting, nonempty, ?_⟩
  intro u member
  have other : u ≠ t := fun same => outside (same ▸ member)
  obtain ⟨lock, ops, owner, ahead, owned, inside⟩ := blocked u member
  have kept : owner ≠ t := fun same => outside (same ▸ inside)
  refine ⟨lock, ops, owner, ?_, ?_, inside⟩
  · cases step <;> simpa [other] using ahead
  · cases step with
    | @request taken _ next free =>
      have different : lock ≠ taken := by
        rintro rfl
        simp [free] at owned
      simpa [different] using owned
    | @release left _ next owned' =>
      have different : lock ≠ left := by
        rintro rfl
        exact kept (Option.some.inj (owned.symm.trans owned'))
      simpa [different] using owned

theorem not_deadlock_of_finishes (finishes : Finishes c) : ¬ Deadlock c := by
  obtain ⟨schedule, d, run, ended⟩ := finishes
  intro deadlock
  induction run with
  | done s =>
    obtain ⟨waiting, ⟨t, member⟩, blocked⟩ := deadlock
    obtain ⟨lock, ops, other, ahead, -⟩ := blocked t member
    simp [ended t] at ahead
  | next head tail ih => exact ih ended (deadlock_step deadlock head)

/-! ### Locks requested along a strict order -/

omit [DecidableEq L] [DecidableEq Thread] in
theorem empty_of_ascending (before : L → L → Prop) [IsStrictOrder L before] {s : Set L}
    (finite : s.Finite) (higher : ∀ a ∈ s, ∃ b ∈ s, before a b) : s = ∅ := by
  by_contra nonempty
  let _ := partialOrderOfSO before
  obtain ⟨a, member, highest⟩ := finite.exists_maximal (Set.nonempty_iff_ne_empty.mpr nonempty)
  obtain ⟨b, other, above⟩ := higher a member
  have below : b ≤ a := highest other (le_of_lt above)
  exact absurd (lt_of_lt_of_le above below) (lt_irrefl a)

/-- Only finitely many locks are owned at a time, however many there are. -/
theorem owned_finite {code : Thread → Code L} (run : Runs.Run Step (start code) schedule c) :
    {lock | c.owner lock ≠ none}.Finite := by
  have initial : {lock | (start code : Config L Thread).owner lock ≠ none}.Finite := by simp [start]
  generalize start code = b at run initial
  induction run with
  | done => exact initial
  | @next b t d schedule c step tail ih =>
    refine ih ?_
    cases step with
    | @request lock ops next free =>
      refine (initial.insert lock).subset fun other owned => ?_
      by_cases same : other = lock
      · exact .inl same
      · exact .inr (by simpa [same] using owned)
    | @release lock ops next owned =>
      refine initial.subset fun other owned => ?_
      by_cases same : other = lock
      · simp [same] at owned
      · simpa [same] using owned

/-- Each lock waited for by an owner comes after the one it owns, so the locks
owned by threads that wait for one another would go up for ever. -/
theorem no_deadlock {before : L → L → Prop} [IsStrictOrder L before] {code : Thread → Code L}
    (nested : ∀ t, (code t).Nested before) (run : Runs.Run Step (start code) schedule c) :
    ¬ Deadlock c := by
  rintro ⟨waiting, ⟨t, member⟩, blocked⟩
  obtain ⟨held, holds⟩ := holds_run (holds_start nested) run
  let among : Set L := {lock | ∃ u ∈ waiting, c.owner lock = some u}
  have finite : among.Finite := by
    refine (owned_finite run).subset ?_
    rintro lock ⟨u, -, owned⟩
    simp [owned]
  have empty : among = ∅ := by
    refine empty_of_ascending before finite ?_
    rintro lock ⟨u, member, owned⟩
    obtain ⟨next, ops, other, ahead, owned', inside⟩ := blocked u member
    have going := holds.ahead u
    rw [ahead] at going
    exact ⟨next, ⟨other, inside, owned'⟩, going.1 lock ((holds.owner u lock).mp owned)⟩
  obtain ⟨lock, ops, other, -, owned, inside⟩ := blocked t member
  have : lock ∈ among := ⟨other, inside, owned⟩
  simp [empty] at this

/-- Wherever threads that keep to a strict order have got to, they can go on to
their ends, and then no lock is owned. -/
theorem finishes_of_ordered [Finite Thread] {before : L → L → Prop} [IsStrictOrder L before]
    {code : Thread → Code L} (nested : ∀ t, (code t).Nested before)
    (run : Runs.Run Step (start code) schedule c) : Finishes c := by
  obtain ⟨held, holds⟩ := holds_run (holds_start nested) run
  refine finishes_of_safe holds fun schedule d later => ?_
  exact no_deadlock nested (run.append later)

end Steps

/-! ### One thread -/

omit [DecidableEq Thread] in
/-- A run of one thread that comes to its end has never asked for a lock that
the thread held. -/
theorem ahead_of_run {held : Unit → List L} {c d : Config L Unit}
    (holds : Holds (fun _ _ => True) held c) (run : Runs.Run Step c schedule d)
    (ended : d.ahead () = []) : Ahead (· ≠ ·) (held ()) (c.ahead ()) := by
  induction run generalizing held with
  | done c =>
    have going := holds.ahead ()
    rw [ended] at going ⊢
    exact going
  | @next c t e schedule d head tail ih =>
    cases head with
    | @request lock ops next free =>
      have after := ih (holds_request holds next free) ended
      simp only [Function.update_self] at after
      rw [next]
      refine ⟨?_, after⟩
      rintro outer member rfl
      exact absurd ((holds.owner () outer).mpr member) (by simp [free])
    | @release lock ops next owned =>
      obtain ⟨outer, top, released⟩ := holds_release holds next
      have after := ih released ended
      simp only [Function.update_self] at after
      rw [next]
      exact ⟨outer, top, after⟩

omit [DecidableEq Thread] in
/-- One thread goes on from wherever it has got to if no block stands in a block
of the same lock: a lock that it waits for could only be its own. -/
theorem finishes_of_unnested {code : Code L} (nested : code.Nested (· ≠ ·))
    (run : Runs.Run Step (start fun _ : Unit => code) schedule c) : Finishes c := by
  obtain ⟨held, holds⟩ := holds_run (holds_start fun _ => nested) run
  refine finishes_of_safe holds fun later d rest => ?_
  rintro ⟨waiting, ⟨t, member⟩, blocked⟩
  obtain ⟨held', holds'⟩ := holds_run holds rest
  obtain ⟨lock, ops, other, ahead, owned, -⟩ := blocked t member
  have going := holds'.ahead t
  rw [ahead] at going
  exact going.1 lock ((holds'.owner other lock).mp owned) rfl

omit [DecidableEq Thread] in
theorem alone_finishes_iff (code : Code L) :
    Finishes (start fun _ : Unit => code) ↔ code.Nested (· ≠ ·) := by
  constructor
  · rintro ⟨schedule, d, run, ended⟩
    exact ahead_ops.mp (ahead_of_run (holds_start fun _ => code.nested_true) run (ended ()))
  · intro nested
    exact finishes_of_unnested nested (.done _)

/-! ### Cycles -/

omit [DecidableEq L] [DecidableEq Thread] in
/-- The elements passed on the way from `a` to `b`. -/
theorem passed_of_transGen {R : L → L → Prop} {a b : L} (way : Relation.TransGen R a b) :
    ∃ passed : List L, a ∈ passed ∧ ∀ x ∈ passed, ∃ y, R x y ∧ (y ∈ passed ∨ y = b) := by
  induction way using Relation.TransGen.head_induction_on with
  | @single a last => exact ⟨[a], List.mem_singleton_self a, by simpa using ⟨b, last, .inr rfl⟩⟩
  | @head a c first rest ih =>
    obtain ⟨passed, member, next⟩ := ih
    refine ⟨a :: passed, List.mem_cons_self, List.forall_mem_cons.mpr ⟨?_, ?_⟩⟩
    · exact ⟨c, first, .inl (List.mem_cons_of_mem a member)⟩
    · intro x inside
      obtain ⟨y, related, found⟩ := next x inside
      exact ⟨y, related, found.imp_left (List.mem_cons_of_mem a)⟩

/-- Threads that ask for different locks, all free, get them one by one. -/
theorem all_granted {c : Config L Thread} {first : Thread → L} {behind : Thread → List (Op L)}
    (ts : List Thread) (distinct : (ts.map first).Nodup)
    (asks : ∀ t ∈ ts, c.ahead t = .request (first t) :: behind t)
    (free : ∀ t ∈ ts, c.owner (first t) = none) :
    ∃ d, Runs.Run Step c ts d ∧
      (∀ t ∈ ts, d.ahead t = behind t ∧ d.owner (first t) = some t) ∧
      (∀ t ∉ ts, d.ahead t = c.ahead t) ∧
      ∀ lock ∉ ts.map first, d.owner lock = c.owner lock := by
  induction ts generalizing c with
  | nil => exact ⟨c, .done c, by simp, fun _ _ => rfl, fun _ _ => rfl⟩
  | cons t ts ih =>
    rw [List.map_cons, List.nodup_cons] at distinct
    obtain ⟨asks, asksRest⟩ := List.forall_mem_cons.mp asks
    obtain ⟨free, freeRest⟩ := List.forall_mem_cons.mp free
    have absent : t ∉ ts := fun member => distinct.1 (List.mem_map_of_mem member)
    have other : ∀ u ∈ ts, u ≠ t := fun u member same => absent (same ▸ member)
    have otherLock : ∀ u ∈ ts, first u ≠ first t :=
      fun u member same => distinct.1 (same ▸ List.mem_map_of_mem member)
    obtain ⟨d, run, granted, threads, locks⟩ := @ih
      ⟨Function.update c.owner (first t) (some t), Function.update c.ahead t (behind t)⟩
      distinct.2 (fun u member => by simpa [other u member] using asksRest u member)
      (fun u member => by simpa [otherLock u member] using freeRest u member)
    refine ⟨d, .next (.request asks free) run, List.forall_mem_cons.mpr ⟨⟨?_, ?_⟩, granted⟩, ?_, ?_⟩
    · simpa using threads t absent
    · simpa using locks (first t) distinct.1
    · intro u outside
      obtain ⟨different, outside⟩ := not_or.mp (List.mem_cons.not.mp outside)
      simpa [different] using threads u outside
    · intro lock outside
      obtain ⟨different, outside⟩ := not_or.mp (List.mem_cons.not.mp outside)
      simpa [different] using locks lock outside

/-- Threads that ask for a second lock over a first one, round a cycle, can be
brought to wait for one another. -/
theorem deadlock_of_cycle (c : Config L Thread) {first second : Thread → L}
    {behind : Thread → List (Op L)} (fresh : ∀ lock, c.owner lock = none)
    (asks : ∀ t, c.ahead t = .request (first t) :: .request (second t) :: behind t)
    (cycle : Relation.TransGen (fun a b => ∃ t, first t = a ∧ second t = b) lock lock) :
    ∃ schedule d, Runs.Run Step c schedule d ∧ Deadlock d := by
  obtain ⟨passed, inside, next⟩ := passed_of_transGen cycle
  have threads : ∀ x ∈ passed, ∃ t, first t = x ∧ second t ∈ passed := by
    intro x member
    obtain ⟨y, ⟨t, rfl, rfl⟩, found⟩ := next x member
    exact ⟨t, rfl, found.elim id fun last => last ▸ inside⟩
  have : Nonempty Thread := ⟨(threads lock inside).choose⟩
  choose! pick firstPick secondPick using threads
  have picked : (passed.dedup.map pick).map first = passed.dedup := by
    rw [List.map_map]
    refine (List.map_congr_left fun x member => ?_).trans (List.map_id _)
    exact firstPick x (List.mem_dedup.mp member)
  obtain ⟨d, run, granted, -⟩ := all_granted (passed.dedup.map pick)
    (picked.symm ▸ passed.nodup_dedup) (fun t _ => asks t) (fun t _ => fresh (first t))
  have member {x : L} (on : x ∈ passed) : pick x ∈ passed.dedup.map pick :=
    List.mem_map_of_mem (List.mem_dedup.mpr on)
  refine ⟨_, d, run, {t | t ∈ passed.dedup.map pick}, ⟨_, member inside⟩, ?_⟩
  rintro t chosen
  obtain ⟨x, on, rfl⟩ := List.mem_map.mp chosen
  have later := secondPick x (List.mem_dedup.mp on)
  refine ⟨second (pick x), behind (pick x), pick (second (pick x)), (granted _ chosen).1, ?_, member later⟩
  have owned := (granted _ (member later)).2
  rwa [firstPick _ later] at owned

/-- Any number of threads that each nest one lock in another can always come to
their ends exactly if no lock is behind itself. -/
theorem pairs_finish_iff [Finite Thread] (first second : Thread → L) :
    (∀ schedule c, Runs.Run Step
        (start fun t => .block (first t) (.block (second t) .done .done) .done) schedule c → Finishes c) ↔
      ∀ lock, ¬ Relation.TransGen (fun a b => ∃ t, first t = a ∧ second t = b) lock lock := by
  constructor
  · intro finish lock cycle
    obtain ⟨schedule, d, run, deadlock⟩ := deadlock_of_cycle
      (start fun t => .block (first t) (.block (second t) .done .done) .done)
      (fun _ => rfl) (fun t => rfl) cycle
    exact not_deadlock_of_finishes (finish schedule d run) deadlock
  · intro acyclic schedule c run
    have : IsStrictOrder L (Relation.TransGen fun a b => ∃ t, first t = a ∧ second t = b) :=
      { irrefl := acyclic, trans := fun _ _ _ => Relation.TransGen.trans }
    have nested : ∀ t, (Code.block (first t) (.block (second t) .done .done) .done).Nested
        (Relation.TransGen fun a b => ∃ t, first t = a ∧ second t = b) := by
      intro t
      have inner : (Code.block (second t) .done .done).Nested
          (Relation.TransGen fun a b => ∃ t, first t = a ∧ second t = b) :=
        ⟨fun _ member => absurd member List.not_mem_nil, trivial, trivial⟩
      exact ⟨List.forall_mem_singleton.mpr (.single ⟨t, rfl, rfl⟩), inner, trivial⟩
    exact finishes_of_ordered nested run

end Gymansie.LockOrder
