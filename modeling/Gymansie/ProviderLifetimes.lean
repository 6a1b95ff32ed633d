import Gymansie.Registry
import Gymansie.Runs

/-! Object lifetimes against the registry. The constructor of a slot provider
registers it; its destructor is defaulted and leaves the registry alone. The
registry therefore holds live providers only along exactly those runs that
destroy a provider after the last trace of it has been removed. -/
namespace Gymansie.Registry
variable {Id Provider : Type} [DecidableEq Id] [DecidableEq Provider]

/-- The registry together with the providers constructed and not destroyed. -/
structure World (Id Provider : Type) where
  registry : SlotProviderRegistry Id Provider
  live : Finset Provider

/-- Calls carry any id as the generated one, so an id may be used again; an
address may be used again once its provider is destroyed. -/
inductive Event (Id Provider : Type) where
  | construct (provider : Provider) (id : Id)
  | destroy (provider : Provider)
  | register (provider : Provider) (id : Id)
  | unregister (provider_id : Ptr Id)
  | getById (provider_id : Ptr Id)
  | getMap

inductive Lives : World Id Provider → Event Id Provider → World Id Provider → Prop where
  | construct {world provider} {id : Id} (fresh : provider ∉ world.live) :
      Lives world (.construct provider id)
        ⟨(registerSlotProvider world.registry id (some provider)).2, insert provider world.live⟩
  -- `~SlotProvider() noexcept override = default`
  | destroy (alive : provider ∈ world.live) :
      Lives world (.destroy provider) ⟨world.registry, world.live.erase provider⟩
  | register {world provider} {id : Id} (alive : provider ∈ world.live) :
      Lives world (.register provider id)
        ⟨(registerSlotProvider world.registry id (some provider)).2, world.live⟩
  | unregister : Lives world (.unregister provider_id)
      ⟨(unregisterSlotProvider world.registry provider_id).2, world.live⟩
  | getById : Lives world (.getById provider_id) world
  | getMap : Lives world .getMap world

/-- Everything in the maps is live, and so is all that a lookup can return. -/
structure HoldsLive (world : World Id Provider) : Prop where
  idMap : ∀ id provider, world.registry.slotProviderIdMap.find? id = some provider →
    provider ∈ world.live
  reverseMap : ∀ key provider, world.registry.slotProviderReverseMap.find? key = some provider →
    key ∈ world.live ∧ provider ∈ world.live
  byId : ∀ id provider, getSlotProviderById world.registry id = some provider →
    provider ∈ world.live
  byMap : ∀ key provider, (getSlotProviderMap world.registry).find? key = some provider →
    provider ∈ world.live

structure Forgotten (registry : SlotProviderRegistry Id Provider) (provider : Provider) : Prop where
  idMap : ∀ id, registry.slotProviderIdMap.find? id ≠ some provider
  reverseKey : registry.slotProviderReverseMap.find? provider = none
  reverseValue : ∀ key, registry.slotProviderReverseMap.find? key ≠ some provider

/-- A provider is destroyed only when the registry has forgotten it. -/
def Event.Released (world : World Id Provider) : Event Id Provider → Prop
  | .destroy provider => Forgotten world.registry provider
  | _ => True

/-- The two lookups add nothing to what the maps hold. -/
theorem holdsLive_of_maps {world : World Id Provider}
    (idMap : ∀ id provider, world.registry.slotProviderIdMap.find? id = some provider →
      provider ∈ world.live)
    (reverseMap : ∀ key provider, world.registry.slotProviderReverseMap.find? key = some provider →
      key ∈ world.live ∧ provider ∈ world.live) : HoldsLive world := by
  refine ⟨idMap, reverseMap, ?_, fun key provider found => (reverseMap key provider found).2⟩
  intro id provider found
  cases id with
  | none => contradiction
  | some id => exact idMap id provider found

theorem holdsLive_empty : HoldsLive (⟨∅, ∅⟩ : World Id Provider) := by
  apply holdsLive_of_maps
  · intro id provider found
    simp at found
  · intro key provider found
    simp at found

theorem holdsLive_register {world : World Id Provider} (holds : HoldsLive world) (id : Id)
    (included : world.live ⊆ live) (alive : provider ∈ live) :
    HoldsLive ⟨(registerSlotProvider world.registry id (some provider)).2, live⟩ := by
  apply holdsLive_of_maps
  · intro key value found
    rw [find?_register] at found
    split at found
    · exact Option.some.inj found ▸ alive
    · exact included (holds.idMap key value found)
  · intro key value found
    rw [find?_reverse_register] at found
    split at found
    · rename_i same
      exact ⟨same ▸ alive, Option.some.inj found ▸ alive⟩
    · obtain ⟨keyLive, valueLive⟩ := holds.reverseMap key value found
      exact ⟨included keyLive, included valueLive⟩

theorem holdsLive_unregister {world : World Id Provider} (holds : HoldsLive world) (id : Ptr Id) :
    HoldsLive ⟨(unregisterSlotProvider world.registry id).2, world.live⟩ := by
  rcases unregister_cases world.registry id with ⟨same, -⟩ | ⟨known, removed, -, -, same⟩
  · rw [same]
    exact holds
  · rw [same]
    apply holdsLive_of_maps
    · intro key value found
      exact holds.idMap key value (UnorderedMap.find?_erase_eq_some_iff.mp found).2
    · intro key value found
      exact holds.reverseMap key value (UnorderedMap.find?_erase_eq_some_iff.mp found).2

theorem holdsLive_destroy_iff {world : World Id Provider} (holds : HoldsLive world)
    (provider : Provider) :
    HoldsLive ⟨world.registry, world.live.erase provider⟩ ↔ Forgotten world.registry provider := by
  constructor
  · intro after
    have gone : provider ∉ world.live.erase provider := Finset.notMem_erase _ _
    refine ⟨fun id found => gone (after.idMap id provider found), ?_,
      fun key found => gone (after.reverseMap key provider found).2⟩
    cases found : world.registry.slotProviderReverseMap.find? provider with
    | none => rfl
    | some value => exact absurd (after.reverseMap provider value found).1 gone
  · rintro ⟨idMap, reverseKey, reverseValue⟩
    apply holdsLive_of_maps
    · intro id value found
      have other : value ≠ provider := fun same => idMap id (same ▸ found)
      exact Finset.mem_erase.mpr ⟨other, holds.idMap id value found⟩
    · intro key value found
      have otherKey : key ≠ provider := fun same => by simp [same, reverseKey] at found
      have otherValue : value ≠ provider := fun same => reverseValue key (same ▸ found)
      obtain ⟨keyLive, valueLive⟩ := holds.reverseMap key value found
      exact ⟨Finset.mem_erase.mpr ⟨otherKey, keyLive⟩, Finset.mem_erase.mpr ⟨otherValue, valueLive⟩⟩

theorem holdsLive_step_iff {world after : World Id Provider} {event : Event Id Provider}
    (holds : HoldsLive world) (step : Lives world event after) :
    HoldsLive after ↔ event.Released world := by
  cases step with
  | construct fresh =>
    refine iff_of_true ?_ trivial
    exact holdsLive_register holds _ (Finset.subset_insert _ _) (Finset.mem_insert_self _ _)
  | destroy alive => exact holdsLive_destroy_iff holds _
  | register alive => exact iff_of_true (holdsLive_register holds _ subset_rfl alive) trivial
  | unregister => exact iff_of_true (holdsLive_unregister holds _) trivial
  | getById => exact iff_of_true holds trivial
  | getMap => exact iff_of_true holds trivial

/-- For every run from the empty registry, in any order and of any length. -/
theorem always_holdsLive_iff (events : List (Event Id Provider)) :
    Runs.Always Lives HoldsLive ⟨∅, ∅⟩ events ↔
      Runs.Each Lives (fun world event => event.Released world) ⟨∅, ∅⟩ events :=
  Runs.always_iff_each_of_kept holdsLive_empty holdsLive_step_iff

theorem destroyed_provider_returned :
    ¬ Runs.Always Lives HoldsLive (⟨∅, ∅⟩ : World Nat Nat) [.construct 7 1, .destroy 7] := by
  intro always
  have run : Runs.Run Lives (⟨∅, ∅⟩ : World Nat Nat) [.construct 7 1, .destroy 7] _ :=
    .next (.construct (Finset.notMem_empty 7))
      (.next (.destroy (Finset.mem_insert_self 7 ∅)) (.done _))
  have holds := always _ [] _ (List.append_nil _).symm run
  exact absurd (holds.byId (some 1) 7 (by decide)) (by decide)

end Gymansie.Registry
