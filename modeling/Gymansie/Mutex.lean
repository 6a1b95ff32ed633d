import Gymansie.Runs
import Mathlib.Logic.Function.Basic

/-! Threads that share a state guarded by one non-recursive lock with an owner.
Each thread runs calls one after another through control points that say what
it does next. A lock discipline tells for every control point whether the lock
is held there; it excludes self-deadlock and returning with the lock, for any
number of threads and any interleaving. Nothing is said about fairness. -/
namespace Gymansie.Mutex
universe u v w x
variable {σ : Type u} {C : Type v} {Op : Type w} {Thread : Type x}

inductive Action (σ : Type u) (C : Type v) where
  | request (next : C)
  | release (next : C)
  | work (effect : σ → σ → C → Prop)
  /-- No call is in progress; the last one has returned. -/
  | idle

structure Program (σ : Type u) (C : Type v) (Op : Type w) where
  code : C → Action σ C
  enter : Op → C

structure Config (σ : Type u) (C : Type v) (Thread : Type x) where
  owner : Option Thread
  shared : σ
  control : Thread → C

inductive Label (Thread : Type x) (Op : Type w) where
  | call (thread : Thread) (op : Op)
  | run (thread : Thread)

variable [DecidableEq Thread]

/-- A request is granted only while nobody owns the lock. -/
inductive Step (program : Program σ C Op) :
    Config σ C Thread → Label Thread Op → Config σ C Thread → Prop where
  | call {c t op} (ready : program.code (c.control t) = .idle) :
      Step program c (.call t op) { c with control := Function.update c.control t (program.enter op) }
  | acquire {c t next} (asks : program.code (c.control t) = .request next) (free : c.owner = none) :
      Step program c (.run t) ⟨some t, c.shared, Function.update c.control t next⟩
  | release {c t next} (leaves : program.code (c.control t) = .release next) (owned : c.owner = some t) :
      Step program c (.run t) ⟨none, c.shared, Function.update c.control t next⟩
  | work {c t effect after next} (works : program.code (c.control t) = .work effect)
      (done : effect c.shared after next) :
      Step program c (.run t) ⟨c.owner, after, Function.update c.control t next⟩

/-- No thread waits for a lock it owns, and none has returned with it. -/
structure Safe (program : Program σ C Op) (c : Config σ C Thread) : Prop where
  request : ∀ t next, program.code (c.control t) = .request next → c.owner ≠ some t
  returned : ∀ t, program.code (c.control t) = .idle → c.owner ≠ some t

/-- A static account of where the lock is held, for the control points it
covers. Only `permitted` operations have to start at such a point, and working
steps have to respect it only where they are `allowed`. -/
structure Discipline (program : Program σ C Op) where
  covers : C → Prop
  holds : C → Prop
  permitted : Op → Prop
  allowed : C → Prop
  enter : ∀ op, permitted op → covers (program.enter op) ∧ ¬ holds (program.enter op)
  request : ∀ {c next}, covers c → program.code c = .request next →
    covers next ∧ ¬ holds c ∧ holds next
  release : ∀ {c next}, covers c → program.code c = .release next →
    covers next ∧ holds c ∧ ¬ holds next
  work : ∀ {c effect s t next}, covers c → allowed c → program.code c = .work effect →
    effect s t next → covers next ∧ (holds next ↔ holds c)
  idle : ∀ {c}, covers c → program.code c = .idle → ¬ holds c

namespace Discipline
variable {program : Program σ C Op}

/-- Every thread is at a covered point, and owns the lock exactly where it is held. -/
def Inv (d : Discipline program) (c : Config σ C Thread) : Prop :=
  ∀ t, d.covers (c.control t) ∧ (d.holds (c.control t) ↔ c.owner = some t)

/-- The steps that keep the invariant. -/
def Allows (d : Discipline program) (c : Config σ C Thread) : Label Thread Op → Prop
  | .call _ op => d.permitted op
  | .run t => (∃ effect, program.code (c.control t) = .work effect) → d.allowed (c.control t)

omit [DecidableEq Thread] in
theorem inv_safe {d : Discipline program} {c : Config σ C Thread} (inv : d.Inv c) :
    Safe program c := by
  refine ⟨?_, ?_⟩
  · intro t next asks owned
    exact (d.request (inv t).1 asks).2.1 ((inv t).2.mpr owned)
  · intro t ready owned
    exact d.idle (inv t).1 ready ((inv t).2.mpr owned)

/-- The invariant after one thread moved on, from what is known of that thread
and of the ownership of the others. -/
theorem inv_update {d : Discipline program} {c : Config σ C Thread} (inv : d.Inv c) (t : Thread)
    (shared : σ) (moved : d.covers next ∧ (d.holds next ↔ owner = some t))
    (others : ∀ u, u ≠ t → (owner = some u ↔ c.owner = some u)) :
    d.Inv ⟨owner, shared, Function.update c.control t next⟩ := by
  intro u
  by_cases same : u = t
  · subst u
    simpa only [Function.update_self] using moved
  · simpa only [Function.update_of_ne same, others u same] using inv u

theorem inv_step {d : Discipline program} {c after : Config σ C Thread} {label : Label Thread Op}
    (inv : d.Inv c) (step : Step program c label after) (allows : d.Allows c label) :
    d.Inv after := by
  cases step with
  | @call t op ready =>
    have unowned : c.owner ≠ some t := (inv_safe inv).returned t ready
    obtain ⟨covered, unheld⟩ := d.enter op allows
    exact inv_update inv t _ ⟨covered, iff_of_false unheld unowned⟩ (fun _ _ => Iff.rfl)
  | @acquire t next asks free =>
    obtain ⟨covered, -, held⟩ := d.request (inv t).1 asks
    refine inv_update inv t _ ⟨covered, iff_of_true held rfl⟩ ?_
    intro u other
    simp [free, Ne.symm other]
  | @release t next leaves owned =>
    obtain ⟨covered, -, unheld⟩ := d.release (inv t).1 leaves
    refine inv_update inv t _ ⟨covered, iff_of_false unheld (by simp)⟩ ?_
    intro u other
    simp [owned, Ne.symm other]
  | @work t effect after next works done =>
    obtain ⟨covered, same⟩ := d.work (inv t).1 (allows ⟨effect, works⟩) works done
    exact inv_update inv t _ ⟨covered, same.trans (inv t).2⟩ (fun _ _ => Iff.rfl)

theorem always_safe (d : Discipline program) {c : Config σ C Thread} (initial : d.Inv c)
    {labels : List (Label Thread Op)} (allows : Runs.Each (Step program) d.Allows c labels) :
    Runs.Always (Step program) (Safe program) c labels :=
  Runs.always_of_each initial inv_step inv_safe allows

/-- A run is safe throughout exactly if it keeps to the allowed steps, when
every other step leads to an unsafe configuration. -/
theorem always_safe_iff (d : Discipline program) {c : Config σ C Thread} (initial : d.Inv c)
    (needed : ∀ {c after : Config σ C Thread} {label : Label Thread Op}, d.Inv c →
      Step program c label after → Safe program after → d.Allows c label)
    (labels : List (Label Thread Op)) :
    Runs.Always (Step program) (Safe program) c labels ↔ Runs.Each (Step program) d.Allows c labels :=
  Runs.always_iff_each initial inv_step inv_safe needed

end Discipline
end Gymansie.Mutex
