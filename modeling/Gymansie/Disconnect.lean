import Gymansie.Connections
import Mathlib.Data.List.Count
import Mathlib.Data.Finset.Dedup
import Mathlib.Data.Finset.Basic

/-! What a disconnect should remove, and exactly when each of its branches does.
A slot's whole list is always removed; a signal is erased once in each list and,
when a slot is named too, not at all. -/
namespace Gymansie.Connections
variable {Slot Signal : Type} [DecidableEq Slot] [DecidableEq Signal]

/-- The connections that the arguments of a disconnect name; null matches all. -/
def Matches (slot : Ptr Slot) (signal_provider : Ptr Signal) (slot' : Ptr Slot)
    (signal' : Ptr Signal) : Prop :=
  (slot = none ∨ slot' = slot) ∧ (signal_provider = none ∨ signal' = signal_provider)

instance (slot slot' : Ptr Slot) (signal signal' : Ptr Signal) :
    Decidable (Matches slot signal slot' signal') := inferInstanceAs (Decidable (_ ∧ _))

/-- No matching connection is listed any more; the others are, as often and in
the same order as before. -/
structure RemovesExactly (before after : ProviderList Slot Signal) (slot : Ptr Slot)
    (signal : Ptr Signal) : Prop where
  gone : ∀ slot' signal', Matches slot signal slot' signal' → signal' ∉ listed after slot'
  kept : ∀ slot', (listed after slot').filter (fun signal' => ¬ Matches slot signal slot' signal') =
    (listed before slot').filter (fun signal' => ¬ Matches slot signal slot' signal')

/-- No list holds a match that the branch taken would leave behind. -/
def Separable (table : ProviderList Slot Signal) : Ptr Slot → Ptr Signal → Prop
  | _, none => True
  | none, some signal => ∀ slot', (listed table slot').count (some signal) ≤ 1
  | some slot, some signal => some signal ∉ listed table (some slot)

theorem removes_all (table : ProviderList Slot Signal) :
    RemovesExactly table (disconnectCommunication table none none) none none := by
  refine ⟨?_, ?_⟩
  · intro slot' signal' _
    simp
  · intro slot'
    simp [Matches]

theorem removes_slot (table : ProviderList Slot Signal) (slot : Slot) :
    RemovesExactly table (disconnectCommunication table (some slot) none) (some slot) none := by
  refine ⟨?_, ?_⟩
  · rintro slot' signal' ⟨same, -⟩
    have same : slot' = some slot := by simpa using same
    rw [listed_disconnect_slot, if_pos same]
    exact List.not_mem_nil
  · intro slot'
    by_cases same : slot' = some slot
    · simp [Matches, same]
    · rw [listed_disconnect_slot, if_neg same]

theorem notMem_erase_self_iff (signal : Ptr Signal) (list : List (Ptr Signal)) :
    signal ∉ list.erase signal ↔ list.count signal ≤ 1 := by
  rw [← List.count_eq_zero, List.count_erase_self]
  omega

theorem removes_signal_iff (table : ProviderList Slot Signal) (signal : Signal) :
    RemovesExactly table (disconnectCommunication table none (some signal)) none (some signal) ↔
      ∀ slot', (listed table slot').count (some signal) ≤ 1 := by
  constructor
  · intro removes slot'
    have gone := removes.gone slot' (some signal) ⟨.inl rfl, .inr rfl⟩
    rw [listed_disconnect_signal] at gone
    exact (notMem_erase_self_iff _ _).mp gone
  · intro single
    refine ⟨?_, ?_⟩
    · rintro slot' signal' ⟨-, same⟩
      have same : signal' = some signal := by simpa using same
      rw [listed_disconnect_signal, same]
      exact (notMem_erase_self_iff _ _).mpr (single slot')
    · intro slot'
      -- erasing commutes with the filter, which has no match left to erase
      rw [listed_disconnect_signal, ← List.erase_filter]
      exact List.erase_of_not_mem (by simp [Matches])

theorem removes_connection_iff (table : ProviderList Slot Signal) (slot : Slot) (signal : Signal) :
    RemovesExactly table (disconnectCommunication table (some slot) (some signal))
        (some slot) (some signal) ↔
      some signal ∉ listed table (some slot) := by
  rw [disconnect_connection]
  constructor
  · intro removes
    exact removes.gone (some slot) (some signal) ⟨.inr rfl, .inr rfl⟩
  · intro absent
    refine ⟨?_, fun _ => rfl⟩
    rintro slot' signal' ⟨sameSlot, sameSignal⟩
    have sameSlot : slot' = some slot := by simpa using sameSlot
    have sameSignal : signal' = some signal := by simpa using sameSignal
    rwa [sameSlot, sameSignal]

theorem Separable.removes {table : ProviderList Slot Signal}
    (separable : Separable table slot signal) :
    RemovesExactly table (disconnectCommunication table slot signal) slot signal := by
  match slot, signal with
  | none, none => exact removes_all table
  | some slot, none => exact removes_slot table slot
  | none, some signal => exact (removes_signal_iff table signal).mpr separable
  | some slot, some signal => exact (removes_connection_iff table slot signal).mpr separable

/-- For every table and all four kinds of arguments. -/
theorem disconnect_removes_exactly_iff (table : ProviderList Slot Signal) (slot : Ptr Slot)
    (signal : Ptr Signal) :
    RemovesExactly table (disconnectCommunication table slot signal) slot signal ↔
      Separable table slot signal := by
  refine ⟨fun removes => ?_, Separable.removes⟩
  match slot, signal with
  | _, none => trivial
  | none, some signal => exact (removes_signal_iff table signal).mp removes
  | some slot, some signal => exact (removes_connection_iff table slot signal).mp removes

/-- A signal listed twice under one slot survives the disconnect of that signal. -/
theorem repeated_signal_survives :
    ¬ RemovesExactly ((∅ : ProviderList Nat Nat).set (some 1) [some 5, some 5])
        (disconnectCommunication ((∅ : ProviderList Nat Nat).set (some 1) [some 5, some 5])
          none (some 5)) none (some 5) := by
  intro removes
  exact removes.gone (some 1) (some 5) ⟨.inl rfl, .inr rfl⟩ (by decide)

/-! ### The wildcard against one call for each key -/

/-- One disconnect of `signal` for each slot of `order`, in that order. -/
def disconnectEach (table : ProviderList Slot Signal) (order : List (Ptr Slot)) (signal : Signal) :
    ProviderList Slot Signal :=
  order.foldl (fun current slot => disconnectCommunication current slot (some signal)) table

/-- `order` lists every key of the table once. -/
def Enumerates (order : List (Ptr Slot)) (table : ProviderList Slot Signal) : Prop :=
  order.Nodup ∧ ∀ slot, slot ∈ order ↔ slot ∈ table.keys

theorem disconnectEach_specific (table : ProviderList Slot Signal) (signal : Signal)
    (specific : none ∉ order) : disconnectEach table order signal = table := by
  induction order with
  | nil => rfl
  | cons slot rest ih =>
    cases slot with
    | none => exact absurd List.mem_cons_self specific
    | some slot =>
      simp only [disconnectEach, List.foldl_cons, disconnect_connection]
      exact ih (fun member => specific (List.mem_cons_of_mem _ member))

/-- The null slot as a key turns its own call into the wildcard call. -/
theorem disconnectEach_null (table : ProviderList Slot Signal) (signal : Signal)
    (distinct : order.Nodup) (null : none ∈ order) :
    disconnectEach table order signal = disconnectCommunication table none (some signal) := by
  obtain ⟨before, after, rfl⟩ := List.append_of_mem null
  have apart := List.nodup_append.mp distinct
  have beforeSpecific : none ∉ before := fun member => apart.2.2 none member none (by simp) rfl
  have afterSpecific : none ∉ after := (List.nodup_cons.mp apart.2.1).1
  have first := disconnectEach_specific table signal beforeSpecific
  have last := disconnectEach_specific (disconnectCommunication table none (some signal)) signal
    afterSpecific
  unfold disconnectEach at first last ⊢
  rw [List.foldl_append, first, List.foldl_cons, last]

theorem disconnect_signal_eq_self_iff (table : ProviderList Slot Signal) (signal : Signal) :
    disconnectCommunication table none (some signal) = table ↔
      ∀ slot, some signal ∉ listed table slot := by
  constructor
  · intro same slot member
    have shorter := List.length_erase_of_mem member
    rw [← listed_disconnect_signal, same] at shorter
    have positive := List.length_pos_of_mem member
    omega
  · intro absent
    rw [disconnect_signal]
    ext1 slot
    rw [UnorderedMap.find?_mapValues]
    cases found : table.find? slot with
    | none => rfl
    | some list =>
      have absent := absent slot
      rw [listed_of_find? found] at absent
      exact congrArg some (List.erase_of_not_mem absent)

theorem wildcard_agrees_iff (table : ProviderList Slot Signal) (signal : Signal) :
    (∀ order, Enumerates order table →
        disconnectCommunication table none (some signal) = disconnectEach table order signal) ↔
      none ∈ table.keys ∨ ∀ slot, some signal ∉ listed table slot := by
  by_cases null : none ∈ table.keys
  · refine iff_of_true ?_ (.inl null)
    intro order keys
    exact (disconnectEach_null table signal keys.1 ((keys.2 none).mpr null)).symm
  · rw [or_iff_right null, ← disconnect_signal_eq_self_iff]
    have specific (order : List (Ptr Slot)) (keys : Enumerates order table) :
        disconnectEach table order signal = table :=
      disconnectEach_specific table signal (fun member => null ((keys.2 none).mp member))
    constructor
    · intro agrees
      have keys : Enumerates table.keys.toList table :=
        ⟨Finset.nodup_toList _, fun slot => Finset.mem_toList⟩
      exact (agrees _ keys).trans (specific _ keys)
    · intro same order keys
      rw [same, specific order keys]

/-- One slot with one signal: the wildcard call removes it, the call for the
slot does not. -/
theorem wildcard_differs :
    ∃ order, Enumerates order ((∅ : ProviderList Nat Nat).set (some 1) [some 5]) ∧
      disconnectCommunication ((∅ : ProviderList Nat Nat).set (some 1) [some 5]) none (some 5) ≠
        disconnectEach ((∅ : ProviderList Nat Nat).set (some 1) [some 5]) order 5 := by
  refine ⟨[some 1], ⟨by decide, ?_⟩, by decide⟩
  intro slot
  rw [UnorderedMap.mem_keys_iff, UnorderedMap.find?_set]
  by_cases same : slot = some 1 <;> simp [same]

end Gymansie.Connections
