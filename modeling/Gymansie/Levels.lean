import Mathlib.Algebra.BigOperators.Group.List.Basic
import Mathlib.Algebra.Order.Monoid.Defs
import Mathlib.Data.List.Induction
import Mathlib.Order.Bounds.Image
import Mathlib.Order.Bounds.Basic

/-! A level that goes up and down with the events and stops at zero. It is the
greatest of what the events sum up to, from the start or from any moment on: the
last moment at which it would have fallen below zero is where the count begins
anew. -/
namespace Gymansie.Levels
universe u v
variable {M : Type u} [AddCommMonoid M] [LinearOrder M] [IsOrderedAddMonoid M] {E : Type v}

def level (change : E → M) (start : M) (events : List E) : M :=
  events.foldl (fun current event => max 0 (current + change event)) start

/-- All changes together. -/
def net (change : E → M) (events : List E) : M := (events.map change).sum

/-- The start with all changes, or the changes from some moment on. -/
def Sums (change : E → M) (start : M) (events : List E) : Set M :=
  {total | total = start + net change events ∨ ∃ later, later <:+ events ∧ total = net change later}

omit [LinearOrder M] [IsOrderedAddMonoid M] in
theorem net_snoc (change : E → M) (events : List E) (last : E) :
    net change (events ++ [last]) = net change events + change last := by
  simp [net]

omit [LinearOrder M] [IsOrderedAddMonoid M] in
theorem sums_snoc (change : E → M) (start : M) (events : List E) (last : E) :
    Sums change start (events ++ [last]) = insert 0 ((· + change last) '' Sums change start events) := by
  have whole : start + net change (events ++ [last]) = start + net change events + change last := by
    rw [net_snoc, add_assoc]
  ext total
  constructor
  · rintro (rfl | ⟨later, ends, rfl⟩)
    · exact .inr ⟨_, .inl rfl, whole.symm⟩
    · rcases List.suffix_concat_iff.mp ends with rfl | ⟨shorter, rfl, before⟩
      · exact .inl rfl
      · exact .inr ⟨_, .inr ⟨shorter, before, rfl⟩, (net_snoc change shorter last).symm⟩
  · rintro (rfl | ⟨_, rfl | ⟨later, ends, rfl⟩, rfl⟩)
    · exact .inr ⟨[], List.nil_suffix, rfl⟩
    · exact .inl whole.symm
    · exact .inr ⟨later ++ [last], List.suffix_concat_iff.mpr (.inr ⟨later, rfl, ends⟩),
        (net_snoc change later last).symm⟩

theorem level_greatest {change : E → M} {start : M} (nonneg : 0 ≤ start) (events : List E) :
    IsGreatest (Sums change start events) (level change start events) := by
  induction events using List.reverseRecOn with
  | nil =>
    refine ⟨.inl (add_zero start).symm, ?_⟩
    rintro total (rfl | ⟨later, ends, rfl⟩)
    · exact le_of_eq (add_zero start)
    · obtain rfl := List.suffix_nil.mp ends
      exact nonneg
  | append_singleton events last ih =>
    have unfolded : level change start (events ++ [last]) =
        max 0 (level change start events + change last) := by
      simp only [level, List.foldl_append, List.foldl_cons, List.foldl_nil]
    have raised : Monotone (· + change last) := fun _ _ below => add_le_add_left below _
    rw [unfolded, sums_snoc]
    exact (raised.map_isGreatest ih).insert 0

end Gymansie.Levels
