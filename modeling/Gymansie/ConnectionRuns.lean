import Gymansie.Disconnect
import Gymansie.Edits

/-! The connection table over whole runs, against an abstract set of
connections. One step refines the matching edit of the set exactly when a
registration finds its slot and a disconnect is separable. A provider that
starts with no slot never gets one. -/
namespace Gymansie.Connections
open Edits
variable {Slot Signal : Type} [DecidableEq Slot] [DecidableEq Signal]

inductive Call (Slot Signal : Type) where
  | register (slot : Ptr Slot) (signal : Ptr Signal)
  | disconnect (slot : Ptr Slot) (signal : Ptr Signal)
  deriving DecidableEq

def Call.apply (table : ProviderList Slot Signal) : Call Slot Signal → ProviderList Slot Signal
  | .register slot signal => registerConnection table slot signal
  | .disconnect slot signal => disconnectCommunication table slot signal

def run (table : ProviderList Slot Signal) (calls : List (Call Slot Signal)) :
    ProviderList Slot Signal :=
  calls.foldl Call.apply table

/-- The call is a disconnect whose arguments match the connection. -/
def Call.Disconnects (slot : Ptr Slot) (signal : Ptr Signal) : Call Slot Signal → Prop
  | .register _ _ => False
  | .disconnect slot' signal' => Matches slot' signal' slot signal

/-- Some registration of the connection has not been followed by a disconnect
that matches it. -/
def Connected (calls : List (Call Slot Signal)) (slot : Ptr Slot) (signal : Ptr Signal) : Prop :=
  ∃ before after, calls = before ++ .register slot signal :: after ∧
    ∀ call ∈ after, ¬ call.Disconnects slot signal

/-- The set of connections that a table stands for. -/
def connections (table : ProviderList Slot Signal) : Set (Ptr Slot × Ptr Signal) :=
  {connection | connection.2 ∈ listed table connection.1}

omit [DecidableEq Signal] in
theorem mem_connections (table : ProviderList Slot Signal) (slot : Ptr Slot) (signal : Ptr Signal) :
    (slot, signal) ∈ connections table ↔ signal ∈ listed table slot := Iff.rfl

def Call.edit : Call Slot Signal → Edit (Ptr Slot × Ptr Signal)
  | .register slot signal => .add (slot, signal)
  | .disconnect slot signal => .remove {connection | Matches slot signal connection.1 connection.2}

/-- What a step needs to refine its edit. -/
def Call.Tracked (table : ProviderList Slot Signal) : Call Slot Signal → Prop
  | .register slot _ => table.count slot = true
  | .disconnect slot signal => Separable table slot signal

omit [DecidableEq Signal] in
theorem connections_register (table : ProviderList Slot Signal) (slot : Ptr Slot)
    (signal : Ptr Signal) (known : table.count slot = true) :
    connections (registerConnection table slot signal) =
      insert (slot, signal) (connections table) := by
  ext ⟨slot', signal'⟩
  simp only [mem_connections, Set.mem_insert_iff, Prod.mk.injEq, listed_register, known, true_and]
  by_cases same : slot' = slot
  · subst slot'
    simp only [if_true, List.mem_append, List.mem_singleton, true_and, or_comm]
  · simp only [same, if_false, false_and, false_or]

/-- A disconnect that removes exactly the matching connections removes them
from the set. -/
theorem connections_disconnect {table : ProviderList Slot Signal}
    (separable : Separable table slot signal) :
    connections (disconnectCommunication table slot signal) =
      connections table \ {connection | Matches slot signal connection.1 connection.2} := by
  obtain ⟨gone, kept⟩ := separable.removes
  ext ⟨slot', signal'⟩
  change signal' ∈ listed _ slot' ↔ signal' ∈ listed table slot' ∧ ¬ Matches slot signal slot' signal'
  by_cases matched : Matches slot signal slot' signal'
  · exact iff_of_false (gone slot' signal' matched) (fun h => h.2 matched)
  · have same := congrArg (signal' ∈ ·) (kept slot')
    simpa [List.mem_filter, matched] using same

theorem apply_refines {table : ProviderList Slot Signal} {call : Call Slot Signal}
    (tracked : call.Tracked table) :
    connections (call.apply table) = call.edit.apply (connections table) := by
  cases call with
  | register slot signal => exact connections_register table slot signal tracked
  | disconnect slot signal => exact connections_disconnect tracked

/-- Refinement over every run whose steps are tracked, from any table. -/
theorem run_refines {table : ProviderList Slot Signal} {calls : List (Call Slot Signal)}
    (tracked : Runs.Each (fun before call after => after = call.apply before)
      (fun before call => call.Tracked before) table calls) :
    connections (run table calls) = replay (calls.map Call.edit) (connections table) :=
  run_replays apply_refines tracked

omit [DecidableEq Slot] [DecidableEq Signal] in
theorem removes_edit_iff (call : Call Slot Signal) (slot : Ptr Slot) (signal : Ptr Signal) :
    call.edit.Removes (slot, signal) ↔ call.Disconnects slot signal := by
  cases call <;> rfl

omit [DecidableEq Slot] [DecidableEq Signal] in
theorem edit_eq_add {call : Call Slot Signal} (same : call.edit = .add (slot, signal)) :
    call = .register slot signal := by
  cases call with
  | register slot' signal' =>
    simp only [Call.edit, Edit.add.injEq, Prod.mk.injEq] at same
    rw [same.1, same.2]
  | disconnect slot' signal' => contradiction

omit [DecidableEq Slot] [DecidableEq Signal] in
theorem connected_iff_outstanding (calls : List (Call Slot Signal)) (slot : Ptr Slot)
    (signal : Ptr Signal) :
    Connected calls slot signal ↔ Outstanding (calls.map Call.edit) (slot, signal) := by
  constructor
  · rintro ⟨before, after, rfl, kept⟩
    refine ⟨before.map Call.edit, after.map Call.edit, by simp [Call.edit], ?_⟩
    intro edit member removed
    obtain ⟨call, later, rfl⟩ := List.mem_map.mp member
    exact kept call later ((removes_edit_iff call slot signal).mp removed)
  · rintro ⟨before, after, split, kept⟩
    obtain ⟨first, rest, rfl, -, restEdits⟩ := List.map_eq_append_iff.mp split
    obtain ⟨call, last, rfl, callEdit, rfl⟩ := List.map_eq_cons_iff.mp restEdits
    obtain rfl := edit_eq_add callEdit
    refine ⟨first, last, rfl, ?_⟩
    intro call member undone
    exact kept call.edit (List.mem_map_of_mem member) ((removes_edit_iff call slot signal).mpr undone)

/-- Once a provider knows its slots, a tracked run lists what is connected. -/
theorem tracked_run_lists_connected {table : ProviderList Slot Signal}
    {calls : List (Call Slot Signal)} (fresh : connections table = ∅)
    (tracked : Runs.Each (fun before call after => after = call.apply before)
      (fun before call => call.Tracked before) table calls) :
    signal ∈ listed (run table calls) slot ↔ Connected calls slot signal := by
  rw [← mem_connections, run_refines tracked, fresh, mem_replay_iff, connected_iff_outstanding]

theorem apply_empty (call : Call Slot Signal) : call.apply ∅ = ∅ := by
  cases call with
  | register slot signal => exact register_unknown rfl signal
  | disconnect slot signal =>
    cases signal with
    | none => cases slot <;> rfl
    | some signal =>
      cases slot with
      | none => rfl
      | some slot => exact disconnect_connection ∅ slot signal

theorem run_empty (calls : List (Call Slot Signal)) : run ∅ calls = ∅ := by
  induction calls with
  | nil => rfl
  | cons call rest ih => rw [run, List.foldl_cons, apply_empty, ← run, ih]

/-- From an empty table the listed connections are the connected ones exactly
for the runs that leave nothing connected. -/
theorem run_lists_connected_iff (calls : List (Call Slot Signal)) :
    (∀ slot signal, signal ∈ listed (run ∅ calls) slot ↔ Connected calls slot signal) ↔
      ∀ before slot signal after, calls = before ++ .register slot signal :: after →
        ∃ call ∈ after, call.Disconnects slot signal := by
  simp only [run_empty, listed_empty, List.not_mem_nil, false_iff]
  constructor
  · intro none before slot signal after split
    by_contra kept
    exact none slot signal ⟨before, after, split, fun call member undone => kept ⟨call, member, undone⟩⟩
  · rintro undone slot signal ⟨before, after, split, kept⟩
    obtain ⟨call, member, disconnects⟩ := undone before slot signal after split
    exact kept call member disconnects

/-- The first registration of a fresh provider is lost. -/
theorem first_registration_lost :
    ¬ ∀ slot signal, signal ∈ listed (run ∅ [Call.register (some 1) (some 5)]) slot ↔
      Connected [Call.register (some 1) (some 5)] (slot : Ptr Nat) (signal : Ptr Nat) := by
  intro listed
  have lost := (listed (some 1) (some 5)).mpr ⟨[], [], rfl, by simp⟩
  exact absurd lost (by decide)

end Gymansie.Connections
