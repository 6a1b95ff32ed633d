import Gymansie.Runs
import Mathlib.Data.List.Induction
import Mathlib.Data.Set.Insert

/-! Sets edited by insertions and by removals of everything a pattern covers.
An element is in the result of a history exactly when some insertion of it was
not followed by a removal that covers it. A system refines such a set along a
run when each of its steps makes the matching edit. -/
namespace Gymansie.Edits
universe u v w
variable {α : Type u}

inductive Edit (α : Type u) where
  | add (x : α)
  | remove (pattern : Set α)

def Edit.apply (edit : Edit α) (current : Set α) : Set α :=
  match edit with
  | .add x => insert x current
  | .remove pattern => current \ pattern

def Edit.Removes (edit : Edit α) (x : α) : Prop :=
  match edit with
  | .add _ => False
  | .remove pattern => x ∈ pattern

/-- The set that a history leads to. -/
def replay (history : List (Edit α)) (start : Set α) : Set α :=
  history.foldl (fun current edit => edit.apply current) start

/-- Some insertion of `x` is not undone by a later edit. -/
def Outstanding (history : List (Edit α)) (x : α) : Prop :=
  ∃ before after, history = before ++ .add x :: after ∧ ∀ edit ∈ after, ¬ edit.Removes x

theorem mem_apply_iff (edit : Edit α) (current : Set α) (x : α) :
    x ∈ edit.apply current ↔ edit = .add x ∨ x ∈ current ∧ ¬ edit.Removes x := by
  cases edit with
  | add y =>
    simp only [Edit.apply, Set.mem_insert_iff, Edit.add.injEq, Edit.Removes, not_false_eq_true,
      and_true, eq_comm]
  | remove pattern =>
    simp only [Edit.apply, Set.mem_sdiff, reduceCtorEq, Edit.Removes, false_or]

theorem outstanding_iff_since (history : List (Edit α)) (x : α) :
    Outstanding history x ↔
      Runs.Since (fun _ edit => edit = .add x) (fun edit => ¬ edit.Removes x) history := by
  constructor
  · rintro ⟨before, after, split, kept⟩
    exact ⟨before, .add x, after, split, rfl, kept⟩
  · rintro ⟨before, edit, after, split, rfl, kept⟩
    exact ⟨before, after, split, kept⟩

theorem mem_replay_iff (history : List (Edit α)) (x : α) :
    x ∈ replay history ∅ ↔ Outstanding history x := by
  rw [outstanding_iff_since]
  induction history using List.reverseRecOn with
  | nil => exact iff_of_false (Set.notMem_empty x) Runs.not_since_nil
  | append_singleton history last ih =>
    have unfolded : replay (history ++ [last]) ∅ = last.apply (replay history ∅) := by
      simp only [replay, List.foldl_append, List.foldl_cons, List.foldl_nil]
    rw [unfolded, mem_apply_iff, Runs.since_snoc, ih, and_comm]

/-- Steps that each make their edit compose to a run that replays the history. -/
theorem run_replays {S : Type v} {E : Type w} {view : S → Set α} {step : S → E → S}
    {edit : E → Edit α} {C : S → E → Prop} {s : S} {es : List E}
    (tracks : ∀ {s e}, C s e → view (step s e) = (edit e).apply (view s))
    (each : Runs.Each (fun s e t => t = step s e) C s es) :
    view (es.foldl step s) = replay (es.map edit) (view s) := by
  induction es generalizing s with
  | nil => rfl
  | cons e es ih =>
    obtain ⟨met, rest⟩ := Runs.each_cons.mp each _ rfl
    rw [List.foldl_cons, ih rest, tracks met]
    rfl

end Gymansie.Edits
