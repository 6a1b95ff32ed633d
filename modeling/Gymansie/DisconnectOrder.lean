import Gymansie.Connections
import Mathlib.Data.List.Perm.Basic

/-! Disconnects in any order. Each one acts on every entry of the table by
itself: it deletes the entry, or it erases a signal from its list or leaves the
list alone. Two of these actions on one entry commute, and so do the disconnects. -/
namespace Gymansie.Connections
variable {Slot Signal : Type} [DecidableEq Slot] [DecidableEq Signal]

/-- The disconnect deletes the entry of `key`. -/
def Deletes (slot : Ptr Slot) (signal_provider : Ptr Signal) (key : Ptr Slot) : Prop :=
  signal_provider = none ∧ (slot = none ∨ key = slot)

instance (slot key : Ptr Slot) (signal_provider : Ptr Signal) :
    Decidable (Deletes slot signal_provider key) := inferInstanceAs (Decidable (_ ∧ _))

/-- What the disconnect leaves of a list whose entry it does not delete. -/
def remaining (slot : Ptr Slot) (signal_provider : Ptr Signal) (list : List (Ptr Signal)) :
    List (Ptr Signal) :=
  match slot, signal_provider with
  | none, some signal => list.erase (some signal)
  | _, _ => list

/-- A finite sequence of disconnects. -/
def disconnects (table : ProviderList Slot Signal) (calls : List (Ptr Slot × Ptr Signal)) :
    ProviderList Slot Signal :=
  calls.foldl (fun current call => disconnectCommunication current call.1 call.2) table

theorem find?_disconnect (table : ProviderList Slot Signal) (slot : Ptr Slot) (signal : Ptr Signal)
    (key : Ptr Slot) :
    (disconnectCommunication table slot signal).find? key =
      if Deletes slot signal key then none else (table.find? key).map (remaining slot signal) := by
  match slot, signal with
  | none, none => rw [disconnect_all, UnorderedMap.find?_empty, if_pos ⟨rfl, .inl rfl⟩]
  | some slot, none =>
    have kept : remaining (some slot) (none : Ptr Signal) = id := rfl
    rw [disconnect_slot, UnorderedMap.find?_erase, kept, Option.map_id_fun, id]
    exact if_congr (by simp [Deletes]) rfl rfl
  | none, some signal =>
    rw [disconnect_signal, UnorderedMap.find?_mapValues, if_neg (by simp [Deletes])]
    rfl
  | some slot, some signal =>
    have kept : remaining (some slot) (some signal) = id := rfl
    rw [disconnect_connection, kept, Option.map_id_fun, if_neg (by simp [Deletes]), id]

omit [DecidableEq Slot] in
theorem remaining_comm (slot slot' : Ptr Slot) (signal signal' : Ptr Signal)
    (list : List (Ptr Signal)) :
    remaining slot signal (remaining slot' signal' list) =
      remaining slot' signal' (remaining slot signal list) := by
  match slot, signal, slot', signal' with
  | none, some signal, none, some signal' => exact List.erase_comm _ _
  | none, none, _, _ | some _, _, _, _ => rfl
  | none, some _, none, none | none, some _, some _, _ => rfl

theorem disconnect_comm (table : ProviderList Slot Signal) (slot slot' : Ptr Slot)
    (signal signal' : Ptr Signal) :
    disconnectCommunication (disconnectCommunication table slot signal) slot' signal' =
      disconnectCommunication (disconnectCommunication table slot' signal') slot signal := by
  ext1 key
  simp only [find?_disconnect]
  by_cases deleted : Deletes slot signal key
  · simp only [deleted, if_true, Option.map_none, ite_self]
  · by_cases deleted' : Deletes slot' signal' key
    · simp only [deleted', if_true, Option.map_none, ite_self]
    · have commute : remaining slot' signal' ∘ remaining slot signal =
          remaining slot signal ∘ remaining slot' signal' :=
        funext (remaining_comm slot' slot signal' signal)
      simp only [deleted, deleted', if_false, Option.map_map, commute]

/-- For every table, any two disconnects and any sequence of them. -/
theorem disconnects_commute (table : ProviderList Slot Signal) :
    (∀ slot signal slot' signal',
      disconnectCommunication (disconnectCommunication table slot signal) slot' signal' =
        disconnectCommunication (disconnectCommunication table slot' signal') slot signal) ∧
    ∀ calls calls', calls.Perm calls' → disconnects table calls = disconnects table calls' := by
  refine ⟨fun slot signal slot' signal' => disconnect_comm table slot slot' signal signal', ?_⟩
  intro calls calls' permuted
  apply permuted.foldl_eq'
  intro call _ call' _ current
  exact disconnect_comm current call.1 call'.1 call.2 call'.2

theorem disconnects_swap :
    disconnects ((∅ : ProviderList Nat Nat).set (some 1) [some 5, some 6, some 5])
        [(none, some 5), (some 1, none)] =
      disconnects ((∅ : ProviderList Nat Nat).set (some 1) [some 5, some 6, some 5])
        [(some 1, none), (none, some 5)] :=
  (disconnects_commute _).2 _ _ (List.Perm.swap _ _ _)

end Gymansie.Connections
