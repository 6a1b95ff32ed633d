import Gymansie.ProviderLifetimes
import Gymansie.RegistryHistory

/-! When a provider may be destroyed, read off the calls so far: the registry still
holds it as long as one of its ids finds it, or nothing of it was removed after its
last registration. -/
namespace Gymansie.Registry
variable {Id Provider : Type}

def Event.call? : Event Id Provider → Option (Call Id Provider)
  | .construct provider id | .register provider id => some (.register (some provider) id)
  | .unregister provider_id => some (.unregister provider_id)
  | .destroy _ | .getById _ | .getMap => none

def callsOf (events : List (Event Id Provider)) : List (Call Id Provider) :=
  events.filterMap Event.call?

variable [DecidableEq Id] [DecidableEq Provider]

theorem registry_step {world after : World Id Provider} {event : Event Id Provider}
    (step : Lives world event after) :
    after.registry = event.call?.elim world.registry (Call.apply world.registry) := by
  cases step <;> rfl

theorem registry_run {events : List (Event Id Provider)} {world : World Id Provider}
    (lives : Runs.Run Lives ⟨∅, ∅⟩ events world) : world.registry = run (callsOf events) := by
  induction lives using Runs.Run.snoc_induction with
  | initial => rfl
  | @snoc events world event after _ step ih =>
    rw [registry_step step, ih, callsOf, callsOf, List.filterMap_append]
    cases called : event.call? with
    | none => simp [called]
    | some call => simpa [called] using (run_snoc ..).symm

/-- The registry mentions the provider as long as an id finds it or it is mapped. -/
theorem forgotten_run_iff (calls : List (Call Id Provider)) (provider : Provider) :
    Forgotten (run calls) provider ↔
      (∀ id, ¬ Registered calls id provider) ∧ ¬ Mapped calls provider := by
  simp only [← find?_run_iff, ← mem_keys_run_iff, UnorderedMap.mem_keys_iff, Option.not_isSome_iff_eq_none]
  constructor
  · rintro ⟨idMap, reverseKey, -⟩
    exact ⟨idMap, reverseKey⟩
  · rintro ⟨idMap, reverseKey⟩
    refine ⟨idMap, reverseKey, ?_⟩
    rintro key found
    rw [self_run found, found] at reverseKey
    cases reverseKey

/-- For every run from the empty registry: it holds live providers only, exactly if
each provider is destroyed when by the calls before no id finds it and it is not
mapped. -/
theorem always_holdsLive_iff_calls (events : List (Event Id Provider)) :
    Runs.Always Lives HoldsLive ⟨∅, ∅⟩ events ↔
      ∀ before provider after world, events = before ++ .destroy provider :: after →
        Runs.Run Lives ⟨∅, ∅⟩ before world → provider ∈ world.live →
        (∀ id, ¬ Registered (callsOf before) id provider) ∧ ¬ Mapped (callsOf before) provider := by
  have kept : Runs.Always Lives HoldsLive ⟨∅, ∅⟩ events ↔
      Runs.Each Lives (fun world event => event.Released world) ⟨∅, ∅⟩ events :=
    Runs.always_iff_each_of_kept holdsLive_empty holdsLive_step_iff
  rw [kept]
  constructor
  · intro each before provider after world split lives alive
    have released := each before _ after world _ split lives (.destroy alive)
    change Forgotten world.registry provider at released
    rwa [registry_run lives, forgotten_run_iff] at released
  · intro destroyed before event after world next split lives step
    cases step with
    | destroy alive =>
      change Forgotten world.registry _
      rw [registry_run lives, forgotten_run_iff]
      exact destroyed before _ after world split lives alive
    | _ => trivial

end Gymansie.Registry
