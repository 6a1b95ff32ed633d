import Gymansie.UnorderedMap
import Mathlib.Data.List.Perm.Basic

/-! The connection table of a slot provider: `registerConnection` and the four
branches of `disconnectCommunication`, both on one `provider_list`. Pointers may
be null, as keys, as list elements and as the wildcards of a disconnect. -/
namespace Gymansie

/-- A pointer to an object of type `α`; `none` is the null pointer. -/
abbrev Ptr (α : Type) := Option α

namespace Connections
variable {Slot Signal : Type} [DecidableEq Slot]

/-- `SlotProvider::provider_list`, from slots to the signal providers of each. -/
abbrev ProviderList (Slot Signal : Type) := UnorderedMap (Ptr Slot) (List (Ptr Signal))

/-- The signal providers listed under `slot`; a missing slot lists none. -/
def listed (table : ProviderList Slot Signal) (slot : Ptr Slot) : List (Ptr Signal) :=
  table.index slot []

def registerConnection (table : ProviderList Slot Signal) (slot : Ptr Slot)
    (signalprovider : Ptr Signal) : ProviderList Slot Signal :=
  -- there is no branch for a slot that is not a key yet
  if table.count slot then table.set slot (table.index slot [] ++ [signalprovider]) else table

theorem listed_of_find? {table : ProviderList Slot Signal}
    (found : table.find? slot = some list) : listed table slot = list := by
  simp only [listed, UnorderedMap.index, found, Option.getD_some]

@[simp]
theorem listed_empty (slot : Ptr Slot) : listed (∅ : ProviderList Slot Signal) slot = [] := by
  simp only [listed, UnorderedMap.index, UnorderedMap.find?_empty, Option.getD_none]

theorem register_known {table : ProviderList Slot Signal} (known : table.count slot = true)
    (signal : Ptr Signal) :
    registerConnection table slot signal = table.set slot (listed table slot ++ [signal]) := by
  rw [registerConnection, if_pos known]
  rfl

theorem register_unknown {table : ProviderList Slot Signal} (unknown : table.count slot = false)
    (signal : Ptr Signal) : registerConnection table slot signal = table := by
  rw [registerConnection, if_neg (Bool.eq_false_iff.mp unknown)]

/-- Registration either appends to the list of a slot it knows or does nothing. -/
theorem listed_register (table : ProviderList Slot Signal) (slot key : Ptr Slot)
    (signal : Ptr Signal) :
    listed (registerConnection table slot signal) key =
      if table.count slot = true ∧ key = slot then listed table slot ++ [signal]
      else listed table key := by
  cases known : table.count slot with
  | true =>
    simp only [register_known known, listed, UnorderedMap.index, UnorderedMap.find?_set, true_and]
    split <;> rfl
  | false => simp only [register_unknown known, Bool.false_eq_true, false_and, if_false]

variable [DecidableEq Signal]

/-- What the loops compare `*it` with: a signal provider, or a whole list of
them, which no element equals. -/
inductive Operand (Signal : Type) where
  | provider (signal_provider : Ptr Signal)
  | providers (signalProviders : List (Ptr Signal))
  deriving DecidableEq

/-- `for (it ...) if (*it == target) { erase(it); break; }` -/
def eraseFirst (target : Operand Signal) : List (Ptr Signal) → List (Ptr Signal)
  | [] => []
  | it :: rest => if Operand.provider it = target then rest else it :: eraseFirst target rest

def disconnectCommunication (table : ProviderList Slot Signal) (slot : Ptr Slot)
    (signal_provider : Ptr Signal) : ProviderList Slot Signal :=
  if slot = none ∧ signal_provider = none then ∅
  else if slot ≠ none ∧ signal_provider = none then table.erase slot
  else if slot = none then table.mapValues (eraseFirst (.provider signal_provider))
  else if table.count slot then
    let signalProviders := table.index slot []
    -- the comparison names the list, not the argument `signal_provider`
    table.set slot (eraseFirst (.providers signalProviders) signalProviders)
  else table

theorem eraseFirst_provider (signal : Ptr Signal) (list : List (Ptr Signal)) :
    eraseFirst (.provider signal) list = list.erase signal := by
  induction list with
  | nil => rfl
  | cons it rest ih => simp only [eraseFirst, Operand.provider.injEq, List.erase_cons, beq_iff_eq, ih]

theorem eraseFirst_providers (others list : List (Ptr Signal)) :
    eraseFirst (.providers others) list = list := by
  induction list with
  | nil => rfl
  | cons it rest ih => simp only [eraseFirst, reduceCtorEq, if_false, ih]

/-! One equation for each branch of `disconnectCommunication`. -/

@[simp]
theorem disconnect_all (table : ProviderList Slot Signal) :
    disconnectCommunication table none none = ∅ := rfl

@[simp]
theorem disconnect_slot (table : ProviderList Slot Signal) (slot : Slot) :
    disconnectCommunication table (some slot) none = table.erase (some slot) := rfl

@[simp]
theorem disconnect_signal (table : ProviderList Slot Signal) (signal : Signal) :
    disconnectCommunication table none (some signal) = table.mapValues (·.erase (some signal)) := by
  have loop : eraseFirst (.provider (some signal)) = fun list => list.erase (some signal) :=
    funext (eraseFirst_provider (some signal))
  simp [disconnectCommunication, loop]

/-- With both arguments given nothing is ever erased: no element of a list is
equal to the list. -/
@[simp]
theorem disconnect_connection (table : ProviderList Slot Signal) (slot : Slot) (signal : Signal) :
    disconnectCommunication table (some slot) (some signal) = table := by
  simp only [disconnectCommunication, reduceCtorEq, and_false, if_false, eraseFirst_providers]
  split
  · rename_i counted
    obtain ⟨list, found⟩ := Option.isSome_iff_exists.mp counted
    ext1 key
    rw [UnorderedMap.find?_set]
    split
    · subst key
      rw [found, ← listed_of_find? found]
      rfl
    · rfl
  · rfl

theorem listed_disconnect_slot (table : ProviderList Slot Signal) (slot : Slot) (key : Ptr Slot) :
    listed (disconnectCommunication table (some slot) none) key =
      if key = some slot then [] else listed table key := by
  rw [disconnect_slot]
  simp only [listed, UnorderedMap.index, UnorderedMap.find?_erase]
  split <;> rfl

theorem listed_disconnect_signal (table : ProviderList Slot Signal) (signal : Signal)
    (key : Ptr Slot) :
    listed (disconnectCommunication table none (some signal)) key =
      (listed table key).erase (some signal) := by
  rw [disconnect_signal]
  simp only [listed, UnorderedMap.index, UnorderedMap.find?_mapValues]
  cases table.find? key <;> rfl

end Connections
end Gymansie
