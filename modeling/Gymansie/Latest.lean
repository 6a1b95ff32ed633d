import Mathlib.Data.List.Count

/-! The latest occurrences of each element of a list: of `x` the last `quota x`.
This is what is left of a log when each removal takes the first entry equal to
the element it removes. -/
namespace Gymansie.Latest
universe u
variable {α : Type u} [BEq α] {quota quota' : α → Nat} {log : List α}

def latest (quota : α → Nat) : List α → List α
  | [] => []
  | x :: rest => if rest.count x < quota x then x :: latest quota rest else latest quota rest

theorem latest_sublist (quota : α → Nat) (log : List α) : (latest quota log).Sublist log := by
  induction log with
  | nil => exact List.Sublist.slnil
  | cons x rest ih =>
    rw [latest]
    split
    · exact ih.cons_cons x
    · exact ih.cons x

variable [LawfulBEq α]

/-- Only as much of a quota counts as there are occurrences. -/
theorem latest_congr (same : ∀ x, min (quota x) (log.count x) = min (quota' x) (log.count x)) :
    latest quota log = latest quota' log := by
  induction log with
  | nil => rfl
  | cons x rest ih =>
    have here := same x
    rw [List.count_cons_self] at here
    have tails : latest quota rest = latest quota' rest := by
      refine ih fun y => ?_
      have there := same y
      rw [List.count_cons] at there
      split at there <;> omega
    have kept : rest.count x < quota x ↔ rest.count x < quota' x := by omega
    rw [latest, latest, tails]
    simp only [kept]

theorem latest_all (enough : ∀ x, log.count x ≤ quota x) : latest quota log = log := by
  induction log with
  | nil => rfl
  | cons x rest ih =>
    have here := enough x
    rw [List.count_cons_self] at here
    rw [latest, if_pos (by omega), ih]
    intro y
    have there := enough y
    rw [List.count_cons] at there
    split at there <;> omega

section Quotas
variable [DecidableEq α]

/-- A new entry is among the latest. -/
theorem latest_append (quota : α → Nat) (log : List α) (x : α) :
    latest (fun y => quota y + if y = x then 1 else 0) (log ++ [x]) = latest quota log ++ [x] := by
  induction log with
  | nil => simp [latest]
  | cons y rest ih =>
    rw [List.cons_append, latest, latest, ih, List.count_append, List.count_singleton]
    by_cases same : y = x
    · subst y
      simp only [BEq.rfl, if_true, Nat.add_lt_add_iff_right]
      split <;> rfl
    · have other : (x == y) = false := by simpa using Ne.symm same
      simp only [same, other, Bool.false_eq_true, if_false, Nat.add_zero]
      split <;> rfl

/-- Taking the first entry equal to `x` away takes it off the quota of `x`. -/
theorem latest_erase {x : α} (within : quota x ≤ log.count x) :
    (latest quota log).erase x = latest (fun y => quota y - if y = x then 1 else 0) log := by
  induction log with
  | nil => rfl
  | cons y rest ih =>
    rw [latest, latest]
    by_cases same : y = x
    · subst y
      rw [List.count_cons_self] at within
      by_cases kept : rest.count x < quota x
      · have dropped : ¬ rest.count x < quota x - if x = x then 1 else 0 := by
          rw [if_pos rfl]
          omega
        rw [if_pos kept, if_neg dropped, List.erase_cons_head]
        -- all entries behind it are within either quota
        refine latest_congr fun z => ?_
        by_cases equal : z = x
        · subst z
          rw [if_pos rfl]
          omega
        · rw [if_neg equal, Nat.sub_zero]
      · have dropped : ¬ rest.count x < quota x - if x = x then 1 else 0 := by
          rw [if_pos rfl]
          omega
        rw [if_neg kept, if_neg dropped]
        exact ih (by omega)
    · have inside : quota x ≤ rest.count x := by
        rwa [List.count_cons_of_ne same] at within
      rw [if_neg same, Nat.sub_zero]
      split
      · rw [List.erase_cons_tail (by simpa using same), ih inside]
      · exact ih inside

end Quotas

/-! ### What is left of a log -/

/-- `left` is the latest of each element in the log, as many as it has. -/
def IsLatest (left log : List α) : Prop := left = latest (fun x => left.count x) log

theorem isLatest_refl (log : List α) : IsLatest log log :=
  (latest_all fun _ => Nat.le_refl _).symm

variable {left : List α}

omit [LawfulBEq α] in
theorem IsLatest.sublist (isLatest : IsLatest left log) : left.Sublist log := by
  rw [isLatest]
  exact latest_sublist _ log

variable [DecidableEq α]

theorem IsLatest.append (isLatest : IsLatest left log) (x : α) : IsLatest (left ++ [x]) (log ++ [x]) := by
  have counts : (fun y => (left ++ [x]).count y) = fun y => left.count y + if y = x then 1 else 0 := by
    funext y
    rw [List.count_append, List.count_singleton]
    by_cases same : y = x
    · simp [same]
    · simp [same, Ne.symm same]
  rw [IsLatest, counts, latest_append, ← isLatest]

theorem IsLatest.erase (isLatest : IsLatest left log) (x : α) : IsLatest (left.erase x) log := by
  have counts : (fun y => (left.erase x).count y) = fun y => left.count y - if y = x then 1 else 0 := by
    funext y
    rw [List.count_erase]
    by_cases same : y = x
    · simp [same]
    · simp [same, Ne.symm same]
  rw [IsLatest, counts, ← latest_erase (isLatest.sublist.count_le x), ← isLatest]

end Gymansie.Latest
