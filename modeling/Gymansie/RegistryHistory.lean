import Gymansie.RegistryRuns

/-! What the two lookups return, read off the calls so far: any providers, any
ids, the same id handed over again, removals of ids never registered. An id finds
what its last registration gave it. A provider is mapped if nothing of it was
removed after its last registration, whatever ids it still has. -/
namespace Gymansie.Registry
variable {Id Provider : Type}

/-- The call registers some provider with the id or removes the id. -/
def Call.Concerns (id : Id) : Call Id Provider → Prop
  | .register (some _) id' => id' = id
  | .unregister (some provider_id) => provider_id = id
  | _ => False

/-- The last call that concerns the id registers the provider with it. -/
def Registered (calls : List (Call Id Provider)) (id : Id) (provider : Provider) : Prop :=
  Runs.Since (fun _ call => call = .register (some provider) id) (fun call => ¬ call.Concerns id) calls

/-- The last call that registers the provider, or removes an id that leads to it,
is a registration. -/
def Mapped (calls : List (Call Id Provider)) (provider : Provider) : Prop :=
  Runs.SinceIn (fun _ call => ∃ id, call = .register (some provider) id)
    (fun before call => ∀ id, call = .unregister (some id) → ¬ Registered before id provider) calls

theorem registered_snoc (calls : List (Call Id Provider)) (last : Call Id Provider) (id : Id)
    (provider : Provider) : Registered (calls ++ [last]) id provider ↔
      last = .register (some provider) id ∨ ¬ last.Concerns id ∧ Registered calls id provider :=
  Runs.since_snoc calls last

theorem mapped_snoc (calls : List (Call Id Provider)) (last : Call Id Provider)
    (provider : Provider) : Mapped (calls ++ [last]) provider ↔
      (∃ id, last = .register (some provider) id) ∨
        (∀ id, last = .unregister (some id) → ¬ Registered calls id provider) ∧ Mapped calls provider :=
  Runs.sinceIn_snoc calls last

variable [DecidableEq Id] [DecidableEq Provider]

theorem run_snoc (calls : List (Call Id Provider)) (last : Call Id Provider) :
    run (calls ++ [last]) = last.apply (run calls) := by
  simp only [run, List.foldl_append, List.foldl_cons, List.foldl_nil]

section Steps
variable (reg : SlotProviderRegistry Id Provider) (call : Call Id Provider)

/-- One call changes what the id finds to what it registers, or to nothing. -/
theorem find?_apply (id : Id) (provider : Provider) :
    (call.apply reg).slotProviderIdMap.find? id = some provider ↔
      call = .register (some provider) id ∨
        ¬ call.Concerns id ∧ reg.slotProviderIdMap.find? id = some provider := by
  match call with
  | .register none id' => simp [Call.apply, registerSlotProvider, Call.Concerns]
  | .register (some provider') id' =>
    rw [Call.apply, find?_register]
    by_cases same : id = id'
    · subst id'
      simp [Call.Concerns, eq_comm]
    · simp [same, Ne.symm same, Call.Concerns]
  | .unregister none => simp [Call.apply, unregisterSlotProvider, Call.Concerns]
  | .unregister (some provider_id) =>
    rw [Call.apply]
    rcases unregister_cases reg (some provider_id) with ⟨same, unknown⟩ | ⟨_, removed, known, found, same⟩
    · rw [same]
      have absent : reg.slotProviderIdMap.find? provider_id = none := unknown
      simp only [reduceCtorEq, Call.Concerns, false_or]
      refine (and_iff_right_of_imp ?_).symm
      rintro found rfl
      exact absurd (absent.symm.trans found) (by simp)
    · obtain rfl := Option.some.inj known
      rw [same, UnorderedMap.find?_erase_eq_some_iff]
      have other : id ≠ provider_id ↔ ¬ provider_id = id := ne_comm
      simp only [reduceCtorEq, Call.Concerns, false_or, other]

/-- One call maps the provider it registers, and forgets the provider whose id it
removes. -/
theorem mem_keys_apply (provider : Provider) :
    provider ∈ (call.apply reg).slotProviderReverseMap.keys ↔
      (∃ id, call = .register (some provider) id) ∨
        (∀ id, call = .unregister (some id) → reg.slotProviderIdMap.find? id ≠ some provider) ∧
          provider ∈ reg.slotProviderReverseMap.keys := by
  match call with
  | .register none id' => simp [Call.apply, registerSlotProvider]
  | .register (some provider') id' =>
    change provider ∈ (reg.slotProviderReverseMap.set provider' provider').keys ↔ _
    rw [UnorderedMap.mem_keys_set]
    simp [eq_comm]
  | .unregister none => simp [Call.apply, unregisterSlotProvider]
  | .unregister (some provider_id) =>
    rw [Call.apply]
    rcases unregister_cases reg (some provider_id) with ⟨same, unknown⟩ | ⟨_, removed, known, found, same⟩
    · rw [same]
      have absent : reg.slotProviderIdMap.find? provider_id = none := unknown
      simp [absent]
    · obtain rfl := Option.some.inj known
      rw [same, UnorderedMap.mem_keys_erase]
      simp [found, eq_comm]

end Steps

theorem find?_run_iff (calls : List (Call Id Provider)) (id : Id) (provider : Provider) :
    (run calls).slotProviderIdMap.find? id = some provider ↔ Registered calls id provider := by
  induction calls using List.reverseRecOn with
  | nil => exact iff_of_false (by simp [run]) Runs.not_since_nil
  | append_singleton calls last ih =>
    rw [run_snoc, find?_apply, ih, registered_snoc]

theorem mem_keys_run_iff (calls : List (Call Id Provider)) (provider : Provider) :
    provider ∈ (run calls).slotProviderReverseMap.keys ↔ Mapped calls provider := by
  induction calls using List.reverseRecOn with
  | nil => exact iff_of_false (by simp [run, UnorderedMap.mem_keys_iff]) Runs.not_sinceIn_nil
  | append_singleton calls last ih =>
    rw [run_snoc, mem_keys_apply, ih, mapped_snoc]
    simp only [ne_eq, find?_run_iff]

theorem self_run {calls : List (Call Id Provider)} {key provider : Provider}
    (found : (run calls).slotProviderReverseMap.find? key = some provider) : provider = key := by
  induction calls using List.reverseRecOn with
  | nil => simp [run] at found
  | append_singleton calls last ih =>
    rw [run_snoc] at found
    cases last with
    | register provider' id =>
      cases provider' with
      | none => exact ih found
      | some provider' =>
        rw [Call.apply, find?_reverse_register] at found
        split at found
        · rename_i same
          rw [same, Option.some.inj found]
        · exact ih found
    | unregister provider_id =>
      rw [Call.apply] at found
      rcases unregister_cases (run calls) provider_id with ⟨same, -⟩ | ⟨_, removed, -, -, same⟩
      · rw [same] at found
        exact ih found
      · rw [same] at found
        exact ih (UnorderedMap.find?_erase_eq_some_iff.mp found).2

/-- For every sequence of calls from the empty registry, with any ids: both
lookups in terms of the calls alone. -/
theorem lookups_from_history (calls : List (Call Id Provider)) (id : Id) (key provider : Provider) :
    (getSlotProviderById (run calls) (some id) = some provider ↔ Registered calls id provider) ∧
      ((getSlotProviderMap (run calls)).find? key = some provider ↔
        provider = key ∧ Mapped calls key) := by
  refine ⟨find?_run_iff calls id provider, ?_⟩
  rw [← mem_keys_run_iff, UnorderedMap.mem_keys_iff]
  constructor
  · intro found
    exact ⟨self_run found, Option.isSome_of_eq_some found⟩
  · rintro ⟨rfl, present⟩
    obtain ⟨value, found⟩ := Option.isSome_iff_exists.mp present
    rw [self_run found] at found
    exact found

end Gymansie.Registry
