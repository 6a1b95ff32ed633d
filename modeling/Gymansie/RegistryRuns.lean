import Gymansie.Registry
import Gymansie.Runs

/-! Runs of registrations and removals. The two maps stay consistent exactly
along the runs that remove a provider's ids only once it has a single one left,
and two pointers to one character string act alike exactly when they are the
same pointer or both unknown. -/
namespace Gymansie.Registry
variable {Id Provider : Type} [DecidableEq Id] [DecidableEq Provider]

/-- A registration carries the id that `generateSlotProviderId` hands over. -/
inductive Call (Id Provider : Type) where
  | register (provider : Ptr Provider) (id : Id)
  | unregister (provider_id : Ptr Id)

def Call.apply (reg : SlotProviderRegistry Id Provider) :
    Call Id Provider → SlotProviderRegistry Id Provider
  | .register provider id => (registerSlotProvider reg id provider).2
  | .unregister provider_id => (unregisterSlotProvider reg provider_id).2

/-- The id handed over for a registration is not a key yet. -/
def Call.Fresh (reg : SlotProviderRegistry Id Provider) : Call Id Provider → Prop
  | .register none _ => True
  | .register (some _) id => reg.slotProviderIdMap.find? id = none
  | .unregister _ => True

instance (reg : SlotProviderRegistry Id Provider) :
    (call : Call Id Provider) → Decidable (call.Fresh reg)
  | .register none _ => inferInstanceAs (Decidable True)
  | .register (some _) id => inferInstanceAs (Decidable (reg.slotProviderIdMap.find? id = none))
  | .unregister _ => inferInstanceAs (Decidable True)

def Step (reg : SlotProviderRegistry Id Provider) (call : Call Id Provider)
    (after : SlotProviderRegistry Id Provider) : Prop :=
  call.Fresh reg ∧ after = call.apply reg

/-- The reverse map holds the registered providers, each as its own value. -/
structure Consistent (reg : SlotProviderRegistry Id Provider) : Prop where
  keys : ∀ provider, provider ∈ reg.slotProviderReverseMap.keys ↔
    ∃ id, reg.slotProviderIdMap.find? id = some provider
  self : ∀ key provider, reg.slotProviderReverseMap.find? key = some provider → provider = key

/-- A removal takes the last id of its provider away. -/
def Call.LastId (reg : SlotProviderRegistry Id Provider) : Call Id Provider → Prop
  | .register _ _ => True
  | .unregister none => True
  | .unregister (some provider_id) => ∀ provider other,
      reg.slotProviderIdMap.find? provider_id = some provider →
      reg.slotProviderIdMap.find? other = some provider → other = provider_id

theorem consistent_empty : Consistent (∅ : SlotProviderRegistry Id Provider) := by
  refine ⟨?_, ?_⟩
  · intro provider
    simp [UnorderedMap.mem_keys_iff]
  · intro key provider found
    simp at found

theorem consistent_register {reg : SlotProviderRegistry Id Provider} {id : Id}
    (consistent : Consistent reg) (provider : Provider) (fresh : reg.slotProviderIdMap.find? id = none) :
    Consistent (registerSlotProvider reg id (some provider)).2 := by
  refine ⟨?_, ?_⟩
  · intro key
    change key ∈ (reg.slotProviderReverseMap.set provider provider).keys ↔
      ∃ other, (reg.slotProviderIdMap.set id provider).find? other = some key
    rw [UnorderedMap.mem_keys_set, consistent.keys key, UnorderedMap.exists_find?_set fresh]
  · intro key value found
    rw [find?_reverse_register] at found
    split at found
    · rename_i same
      rw [same, Option.some.inj found]
    · exact consistent.self key value found

/-- Removing an id keeps the maps consistent exactly if no other id of the same
provider is left. -/
theorem consistent_erase_iff {reg : SlotProviderRegistry Id Provider} {id : Id}
    (consistent : Consistent reg) (found : reg.slotProviderIdMap.find? id = some provider) :
    Consistent ⟨reg.slotProviderIdMap.erase id, reg.slotProviderReverseMap.erase provider⟩ ↔
      ∀ other, reg.slotProviderIdMap.find? other = some provider → other = id := by
  constructor
  · intro after other held
    by_contra distinct
    have key := (after.keys provider).mpr
      ⟨other, UnorderedMap.find?_erase_eq_some_iff.mpr ⟨distinct, held⟩⟩
    exact (UnorderedMap.mem_keys_erase.mp key).1 rfl
  · intro last
    refine ⟨?_, ?_⟩
    · intro key
      simp only [UnorderedMap.mem_keys_erase, UnorderedMap.find?_erase_eq_some_iff, consistent.keys key]
      constructor
      · rintro ⟨different, other, held⟩
        refine ⟨other, ?_, held⟩
        rintro rfl
        exact different (Option.some.inj (held.symm.trans found))
      · rintro ⟨other, distinct, held⟩
        refine ⟨?_, other, held⟩
        rintro rfl
        exact distinct (last other held)
    · intro key value held
      exact consistent.self key value (UnorderedMap.find?_erase_eq_some_iff.mp held).2

theorem consistent_step_iff {reg after : SlotProviderRegistry Id Provider} {call : Call Id Provider}
    (consistent : Consistent reg) (step : Step reg call after) :
    Consistent after ↔ call.LastId reg := by
  obtain ⟨fresh, rfl⟩ := step
  cases call with
  | register provider id =>
    cases provider with
    | none => exact iff_of_true consistent trivial
    | some provider => exact iff_of_true (consistent_register consistent provider fresh) trivial
  | unregister provider_id =>
    rcases unregister_cases reg provider_id with ⟨same, unknown⟩ | ⟨id, provider, rfl, found, same⟩
    · rw [Call.apply, same]
      refine iff_of_true consistent ?_
      cases provider_id with
      | none => trivial
      | some id =>
        intro provider other found
        exact absurd (unknown.symm.trans found) (by simp)
    · rw [Call.apply, same, consistent_erase_iff consistent found]
      constructor
      · intro last provider' other found' held
        exact last other (by rwa [Option.some.inj (found.symm.trans found')])
      · intro last other held
        exact last provider other found held

/-- For every sequence of calls from the empty registry, with fresh ids. -/
theorem always_consistent_iff (calls : List (Call Id Provider)) :
    Runs.Always Step Consistent ∅ calls ↔
      Runs.Each Step (fun reg call => call.LastId reg) ∅ calls :=
  Runs.always_iff_each_of_kept consistent_empty consistent_step_iff

/-- A provider registered twice drops out of the reverse map with its first id
removed, although its second id still leads to it. -/
theorem removed_id_forgets_provider :
    ¬ Runs.Always Step Consistent (∅ : SlotProviderRegistry Nat Nat)
      [.register (some 7) 1, .register (some 7) 2, .unregister (some 1)] := by
  intro always
  have run : Runs.Run Step (∅ : SlotProviderRegistry Nat Nat)
      [.register (some 7) 1, .register (some 7) 2, .unregister (some 1)] _ :=
    .next ⟨by decide, rfl⟩ (.next ⟨by decide, rfl⟩ (.next ⟨trivial, rfl⟩ (.done _)))
  have consistent := always _ [] _ (List.append_nil _).symm run
  have key := (consistent.keys 7).mpr ⟨2, by decide⟩
  exact absurd key (by decide)

/-! ### Id pointers

Two pointers may point to equal character strings; the container compares the
pointers. `characters` is the string stored at an address. -/

def run (calls : List (Call Id Provider)) : SlotProviderRegistry Id Provider :=
  calls.foldl Call.apply ∅

/-- The lookup and the removal do the same for both ids. -/
structure ActAlike (reg : SlotProviderRegistry Id Provider) (a b : Id) : Prop where
  lookup : getSlotProviderById reg (some a) = getSlotProviderById reg (some b)
  removal : unregisterSlotProvider reg (some a) = unregisterSlotProvider reg (some b)

theorem actAlike_iff (reg : SlotProviderRegistry Id Provider) (a b : Id) :
    ActAlike reg a b ↔ a = b ∨
      reg.slotProviderIdMap.find? a = none ∧ reg.slotProviderIdMap.find? b = none := by
  constructor
  · rintro ⟨lookup, removal⟩
    change reg.slotProviderIdMap.find? a = reg.slotProviderIdMap.find? b at lookup
    cases found : reg.slotProviderIdMap.find? a with
    | none => exact .inr ⟨rfl, by rw [← lookup, found]⟩
    | some provider =>
      have found' := lookup.symm.trans found
      simp only [unregisterSlotProvider, found, found', Prod.mk.injEq, true_and,
        SlotProviderRegistry.mk.injEq, and_true] at removal
      -- the id removed first is still a key of the other result unless they agree
      have erased := congrArg (·.find? b) removal
      simp only [UnorderedMap.find?_erase, if_true, found'] at erased
      by_cases same : b = a
      · exact .inl same.symm
      · simp [same] at erased
  · rintro (rfl | ⟨unknown, unknown'⟩)
    · exact ⟨rfl, rfl⟩
    · refine ⟨unknown.trans unknown'.symm, ?_⟩
      simp only [unregisterSlotProvider, unknown, unknown']

theorem equal_strings_act_alike_iff {Address : Type} [DecidableEq Address]
    (characters : Address → List UInt8) (calls : List (Call Address Provider)) (a b : Address) :
    (characters a = characters b → ActAlike (run calls) a b) ↔
      (characters a = characters b → a = b ∨ (run calls).slotProviderIdMap.find? a = none ∧
        (run calls).slotProviderIdMap.find? b = none) :=
  imp_congr_right fun _ => actAlike_iff (run calls) a b

theorem copied_string_differs :
    let characters : Nat → List UInt8 := fun _ => [65]
    ¬ (characters 1 = characters 2 →
      ActAlike (run [Call.register (some 7) 1] : SlotProviderRegistry Nat Nat) 1 2) := by
  intro characters alike
  exact absurd (alike rfl).lookup (by decide)

end Gymansie.Registry
