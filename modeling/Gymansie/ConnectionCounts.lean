import Gymansie.ConnectionRuns
import Gymansie.Latest
import Gymansie.Levels
import Mathlib.Algebra.Order.Group.Int

/-! How often a connection is listed after a run, from any table. A slot stays a
key until a call erases it, and no call makes it one. While it is a key, each
registration adds an entry, and each disconnect of the signal alone takes one
away where there is one. -/
namespace Gymansie.Connections
variable {Slot Signal : Type} [DecidableEq Slot] [DecidableEq Signal]

namespace Call

def Erases (slot : Ptr Slot) (call : Call Slot Signal) : Prop :=
  call = .disconnect none none ∨ call = .disconnect slot none

/-- What the call adds to the entries of a connection. -/
def change (slot : Ptr Slot) (signal : Ptr Signal) : Call Slot Signal → ℤ
  | .register slot' signal' => if slot' = slot ∧ signal' = signal then 1 else 0
  | .disconnect slot' signal' => if slot' = none ∧ signal' = signal ∧ signal ≠ none then -1 else 0

end Call

omit [DecidableEq Signal] in
theorem count_register (table : ProviderList Slot Signal) (slot key : Ptr Slot) (signal : Ptr Signal) :
    (registerConnection table slot signal).count key = table.count key := by
  cases known : table.count slot with
  | false => rw [register_unknown known]
  | true =>
    rw [register_known known, UnorderedMap.count_eq, UnorderedMap.find?_set]
    split
    · subst key
      exact known.symm
    · rfl

theorem count_apply_iff (table : ProviderList Slot Signal) (call : Call Slot Signal) (slot : Ptr Slot) :
    (call.apply table).count slot = true ↔ table.count slot = true ∧ ¬ call.Erases slot := by
  match call with
  | .register slot' signal' =>
    rw [Call.apply, count_register]
    simp [Call.Erases]
  | .disconnect none none => simp [Call.apply, Call.Erases]
  | .disconnect (some slot') none =>
    simp only [Call.apply, disconnect_slot, UnorderedMap.count_eq, UnorderedMap.find?_erase, Call.Erases,
      Call.disconnect.injEq, reduceCtorEq, and_true, false_or]
    by_cases same : slot = some slot'
    · simp [same]
    · simp [same, Ne.symm same]
  | .disconnect none (some signal') => simp [Call.apply, Call.Erases]
  | .disconnect (some slot') (some signal') => simp [Call.apply, Call.Erases]

/-- One call moves the number of entries by its change, but not below zero. -/
theorem count_listed_apply {table : ProviderList Slot Signal} {call : Call Slot Signal}
    {slot : Ptr Slot} (kept : (call.apply table).count slot = true) (signal : Ptr Signal) :
    ((listed (call.apply table) slot).count signal : ℤ) =
      max 0 (((listed table slot).count signal : ℤ) + call.change slot signal) := by
  obtain ⟨known, uncleared⟩ := (count_apply_iff table call slot).mp kept
  match call with
  | .register slot' signal' =>
    rw [Call.apply, listed_register, Call.change]
    by_cases same : slot' = slot
    · subst slot'
      rw [if_pos ⟨known, rfl⟩, List.count_append, List.count_singleton]
      by_cases same' : signal' = signal
      · rw [if_pos (beq_iff_eq.mpr same'), if_pos ⟨rfl, same'⟩]
        omega
      · rw [if_neg fun equal => same' (beq_iff_eq.mp equal), if_neg fun both => same' both.2]
        omega
    · rw [if_neg fun both => same both.2.symm, if_neg fun both => same both.1]
      omega
  | .disconnect none none => exact absurd (.inl rfl) uncleared
  | .disconnect (some slot') none =>
    have other : slot ≠ some slot' := by
      rintro rfl
      exact uncleared (.inr rfl)
    rw [Call.apply, listed_disconnect_slot, if_neg other, Call.change, if_neg fun both => by simp at both]
    omega
  | .disconnect none (some signal') =>
    rw [Call.apply, listed_disconnect_signal, Call.change]
    by_cases same : some signal' = signal
    · subst signal
      rw [List.count_erase_self, if_pos ⟨rfl, rfl, Option.some_ne_none signal'⟩]
      omega
    · rw [List.count_erase_of_ne (Ne.symm same), if_neg fun both => same both.2.1]
      omega
  | .disconnect (some slot') (some signal') => simp [Call.apply, Call.change]

theorem count_run_iff (table : ProviderList Slot Signal) (calls : List (Call Slot Signal))
    (slot : Ptr Slot) : (run table calls).count slot = true ↔
      table.count slot = true ∧ ∀ call ∈ calls, ¬ call.Erases slot := by
  induction calls generalizing table with
  | nil => simp [run]
  | cons call calls ih =>
    have first : run table (call :: calls) = run (call.apply table) calls := rfl
    rw [first, ih, count_apply_iff, List.forall_mem_cons, and_assoc]

theorem count_listed_run {table : ProviderList Slot Signal} {calls : List (Call Slot Signal)}
    {slot : Ptr Slot} (kept : (run table calls).count slot = true) (signal : Ptr Signal) :
    ((listed (run table calls) slot).count signal : ℤ) =
      Levels.level (Call.change slot signal) ((listed table slot).count signal) calls := by
  induction calls generalizing table with
  | nil => rfl
  | cons call calls ih =>
    have first : run table (call :: calls) = run (call.apply table) calls := rfl
    rw [first] at kept ⊢
    have known := ((count_run_iff _ _ _).mp kept).1
    rw [ih kept, count_listed_apply known]
    rfl

/-- For every table, every run and every connection. The slot is a key at the end
if it was one at first and no call has erased it, and the connection is then
listed as often as the registrations outnumber the disconnects of its signal,
counted with the entries at first or from the moment that makes the most of it. -/
theorem run_counts (table : ProviderList Slot Signal) (calls : List (Call Slot Signal))
    (slot : Ptr Slot) (signal : Ptr Signal) :
    ((run table calls).count slot = true ↔
        table.count slot = true ∧ ∀ call ∈ calls, ¬ call.Erases slot) ∧
      ((run table calls).count slot = true →
        IsGreatest (Levels.Sums (Call.change slot signal) ((listed table slot).count signal : ℤ) calls)
          ((listed (run table calls) slot).count signal : ℤ)) := by
  refine ⟨count_run_iff table calls slot, ?_⟩
  intro kept
  rw [count_listed_run kept]
  exact Levels.level_greatest (Int.natCast_nonneg _) calls

/-! ### Which entries are left -/

def registrations (slot : Ptr Slot) (calls : List (Call Slot Signal)) : List (Ptr Signal) :=
  calls.filterMap fun
    | .register slot' signal => if slot' = slot then some signal else none
    | .disconnect _ _ => none

omit [DecidableEq Signal] in
theorem registrations_snoc (slot : Ptr Slot) (calls : List (Call Slot Signal)) (last : Call Slot Signal) :
    registrations slot (calls ++ [last]) = registrations slot calls ++ registrations slot [last] := by
  rw [registrations, List.filterMap_append, registrations, registrations]

theorem isLatest_apply {table : ProviderList Slot Signal} {call : Call Slot Signal} {slot : Ptr Slot}
    {log : List (Ptr Signal)} (kept : (call.apply table).count slot = true)
    (isLatest : Latest.IsLatest (listed table slot) log) :
    Latest.IsLatest (listed (call.apply table) slot) (log ++ registrations slot [call]) := by
  obtain ⟨known, uncleared⟩ := (count_apply_iff table call slot).mp kept
  match call with
  | .register slot' signal' =>
    rw [Call.apply, listed_register]
    by_cases same : slot' = slot
    · subst slot'
      rw [if_pos ⟨known, rfl⟩]
      simpa [registrations] using isLatest.append signal'
    · rw [if_neg fun both => same both.2.symm]
      simpa [registrations, same] using isLatest
  | .disconnect none none => exact absurd (.inl rfl) uncleared
  | .disconnect (some slot') none =>
    have other : slot ≠ some slot' := by
      rintro rfl
      exact uncleared (.inr rfl)
    rw [Call.apply, listed_disconnect_slot, if_neg other]
    simpa [registrations] using isLatest
  | .disconnect none (some signal') =>
    rw [Call.apply, listed_disconnect_signal]
    simpa [registrations] using isLatest.erase (some signal')
  | .disconnect (some slot') (some signal') =>
    rw [Call.apply, disconnect_connection]
    simpa [registrations] using isLatest

/-- As many of each signal are left as there are. -/
theorem isLatest_run {table : ProviderList Slot Signal} {calls : List (Call Slot Signal)}
    {slot : Ptr Slot} (kept : (run table calls).count slot = true) :
    Latest.IsLatest (listed (run table calls) slot)
      (listed table slot ++ registrations slot calls) := by
  induction calls using List.reverseRecOn with
  | nil =>
    rw [registrations, List.filterMap_nil, List.append_nil]
    exact Latest.isLatest_refl _
  | append_singleton calls last ih =>
    have unfolded : run table (calls ++ [last]) = last.apply (run table calls) := by
      simp only [run, List.foldl_append, List.foldl_cons, List.foldl_nil]
    rw [unfolded] at kept ⊢
    rw [registrations_snoc, ← List.append_assoc]
    exact isLatest_apply kept (ih ((count_apply_iff _ _ _).mp kept).1)

/-- For every table, every run and every slot that is a key at the end: the list
is what was there at first and then registered, in this order, less the oldest
entries of each signal. What stays of a signal is counted by the calls: one more
for each registration, one less for each disconnect of the signal alone that finds
one. -/
theorem run_keeps_latest {table : ProviderList Slot Signal} {calls : List (Call Slot Signal)}
    {slot : Ptr Slot} (kept : (run table calls).count slot = true) :
    listed (run table calls) slot =
      Latest.latest
        (fun signal =>
          (Levels.level (Call.change slot signal) ((listed table slot).count signal : ℤ) calls).toNat)
        (listed table slot ++ registrations slot calls) := by
  have counts (signal : Ptr Signal) : (listed (run table calls) slot).count signal =
      (Levels.level (Call.change slot signal) ((listed table slot).count signal : ℤ) calls).toNat := by
    rw [← count_listed_run kept, Int.toNat_natCast]
  simp only [← counts]
  exact isLatest_run kept

theorem reconnected_last :
    listed (run ((∅ : ProviderList Nat Nat).set (some 1) [some 5])
        [.register (some 1) (some 6), .register (some 1) (some 5), .disconnect none (some 5)]) (some 1) =
      [some 6, some 5] ∧
    Latest.latest
      (fun signal => (Levels.level (Call.change (some 1) signal)
        ((listed ((∅ : ProviderList Nat Nat).set (some 1) [some 5]) (some 1)).count signal : ℤ)
        [.register (some 1) (some 6), .register (some 1) (some 5), .disconnect none (some 5)]).toNat)
      [some 5, some 6, some 5] = [some 6, some 5] := by
  have left : listed (run ((∅ : ProviderList Nat Nat).set (some 1) [some 5])
      [.register (some 1) (some 6), .register (some 1) (some 5), .disconnect none (some 5)]) (some 1) =
        Latest.latest _ [some 5, some 6, some 5] :=
    run_keeps_latest (by decide)
  have last : listed (run ((∅ : ProviderList Nat Nat).set (some 1) [some 5])
      [.register (some 1) (some 6), .register (some 1) (some 5), .disconnect none (some 5)]) (some 1) =
        [some 6, some 5] := by
    decide
  exact ⟨last, left.symm.trans last⟩

end Gymansie.Connections
