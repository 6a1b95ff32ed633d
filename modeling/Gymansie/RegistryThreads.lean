import Gymansie.RegistryMutex
import Gymansie.Sections

/-! Removals and lookups in the registry on any number of threads, statement by
statement under `registry_mutex`. Of all removals of one id the first to release
the mutex is the only one that succeeds, and every lookup sees whole removals. A
registration blocks itself and never returns, so the registry only shrinks. -/
namespace Gymansie.Registry
variable {Id Provider Thread : Type} [DecidableEq Id] [DecidableEq Provider]

/-- The calls that lock once, or not at all for a null id. -/
inductive LockedCall (Id : Type) where
  | unregisterSlotProvider (provider_id : Ptr Id)
  | getSlotProviderById (provider_id : Ptr Id)
  | getSlotProviderMap

def LockedCall.apply (reg : SlotProviderRegistry Id Provider) :
    LockedCall Id → Result Id Provider × SlotProviderRegistry Id Provider
  | .unregisterSlotProvider provider_id =>
    let (removed, after) := Registry.unregisterSlotProvider reg provider_id
    (.flag removed, after)
  | .getSlotProviderById provider_id => (.provider (Registry.getSlotProviderById reg provider_id), reg)
  | .getSlotProviderMap => (.map (Registry.getSlotProviderMap reg), reg)

/-- The statements behind the lockers; `it` is a key with its provider. -/
inductive Point (Id Provider : Type) where
  | findForRemoval (provider_id : Id)
  -- `reg.slot_provider_reverse_map.erase(static_cast<void*>(it->second))`
  | eraseReverse (it : Id × Provider)
  -- `reg.slot_provider_id_map.erase(it); return true;`
  | eraseId (it : Id × Provider)
  | findForLookup (provider_id : Id)
  | copyMap

def nextStatement (point : Point Id Provider) (reg : SlotProviderRegistry Id Provider) :
    (Point Id Provider ⊕ Result Id Provider) × SlotProviderRegistry Id Provider :=
  match point with
  | .findForRemoval provider_id =>
    match reg.slotProviderIdMap.find? provider_id with
    | none => (.inr (.flag false), reg)
    | some provider => (.inl (.eraseReverse (provider_id, provider)), reg)
  | .eraseReverse it =>
    (.inl (.eraseId it), { reg with slotProviderReverseMap := reg.slotProviderReverseMap.erase it.2 })
  | .eraseId it =>
    (.inr (.flag true), { reg with slotProviderIdMap := reg.slotProviderIdMap.erase it.1 })
  | .findForLookup provider_id => (.inr (.provider (reg.slotProviderIdMap.find? provider_id)), reg)
  | .copyMap => (.inr (.map reg.slotProviderReverseMap), reg)

def statements : Sections.Statements (SlotProviderRegistry Id Provider) (LockedCall Id)
    (Point Id Provider) (Result Id Provider) where
  -- `if (!provider_id)` stands before the locker
  enter
    | .unregisterSlotProvider none => .inr (.flag false)
    | .unregisterSlotProvider (some provider_id) => .inl (.findForRemoval provider_id)
    | .getSlotProviderById none => .inr (.provider none)
    | .getSlotProviderById (some provider_id) => .inl (.findForLookup provider_id)
    | .getSlotProviderMap => .inl .copyMap
  next := nextStatement

theorem performs_apply (reg : SlotProviderRegistry Id Provider) (op : LockedCall Id) :
    Sections.Performs statements op reg (op.apply reg).1 (op.apply reg).2 := by
  rcases op with (_ | provider_id) | (_ | provider_id) | _
  case getSlotProviderMap => exact (Sections.performs_locked rfl).mpr (.last rfl)
  case getSlotProviderById.none => exact (Sections.performs_early rfl).mpr ⟨rfl, rfl⟩
  case getSlotProviderById.some => exact (Sections.performs_locked rfl).mpr (.last rfl)
  case unregisterSlotProvider.none => exact (Sections.performs_early rfl).mpr ⟨rfl, rfl⟩
  case unregisterSlotProvider.some =>
    rw [Sections.performs_locked rfl]
    rcases unregister_cases reg (some provider_id) with ⟨same, unknown⟩ | ⟨known, provider, id, found, same⟩
    · have finds : nextStatement (.findForRemoval provider_id) reg = (.inr (.flag false), reg) := by
        have unfound : reg.slotProviderIdMap.find? provider_id = none := unknown
        simp only [nextStatement, unfound]
      have applied : (LockedCall.unregisterSlotProvider (some provider_id)).apply reg =
          (.flag false, reg) := by
        simp only [LockedCall.apply, same]
      rw [applied]
      exact .last finds
    · obtain rfl := Option.some.inj id
      have finds : nextStatement (.findForRemoval provider_id) reg =
          (.inl (.eraseReverse (provider_id, provider)), reg) := by
        simp only [nextStatement, found]
      have applied : (LockedCall.unregisterSlotProvider (some provider_id)).apply reg =
          (.flag true, ⟨reg.slotProviderIdMap.erase provider_id,
            reg.slotProviderReverseMap.erase provider⟩) := by
        simp only [LockedCall.apply, same]
      rw [applied]
      exact .next finds (.next rfl (.last rfl))

/-- The ids that calls remove, known or not. -/
def removed (calls : List (LockedCall Id)) : List Id :=
  calls.filterMap fun
    | .unregisterSlotProvider provider_id => provider_id
    | _ => none

/-- The registry `reg` once the ids `gone` have been removed: a provider leaves
the reverse map with the first of its ids. -/
structure Without (reg : SlotProviderRegistry Id Provider) (gone : List Id)
    (after : SlotProviderRegistry Id Provider) : Prop where
  ids : ∀ id, after.slotProviderIdMap.find? id =
    if id ∈ gone then none else reg.slotProviderIdMap.find? id
  providers : ∀ key provider, after.slotProviderReverseMap.find? key = some provider ↔
    reg.slotProviderReverseMap.find? key = some provider ∧
      ∀ id ∈ gone, reg.slotProviderIdMap.find? id ≠ some key

section Without
variable {reg after : SlotProviderRegistry Id Provider} {gone : List Id} {provider_id : Id}

theorem without_unknown (without : Without reg gone after)
    (unknown : after.slotProviderIdMap.find? provider_id = none) :
    Without reg (gone ++ [provider_id]) after := by
  have absent := (without.ids provider_id).symm.trans unknown
  constructor
  · intro id
    rw [without.ids]
    by_cases same : id = provider_id
    · subst id
      simpa using absent
    · simp [same]
  · intro key provider
    rw [without.providers]
    refine and_congr_right fun _ => ⟨?_, fun kept id member => kept id (List.mem_append_left _ member)⟩
    intro kept
    refine List.forall_mem_append.mpr ⟨kept, List.forall_mem_singleton.mpr ?_⟩
    intro found
    by_cases member : provider_id ∈ gone
    · exact kept provider_id member found
    · simp [member, found] at absent

theorem without_known {provider : Provider} (without : Without reg gone after)
    (found : after.slotProviderIdMap.find? provider_id = some provider) :
    Without reg (gone ++ [provider_id])
      ⟨after.slotProviderIdMap.erase provider_id, after.slotProviderReverseMap.erase provider⟩ := by
  have present : reg.slotProviderIdMap.find? provider_id = some provider := by
    rw [without.ids] at found
    split at found
    · contradiction
    · exact found
  constructor
  · intro id
    rw [UnorderedMap.find?_erase, without.ids]
    by_cases same : id = provider_id <;> simp [same]
  · intro key other
    rw [UnorderedMap.find?_erase_eq_some_iff, without.providers, List.forall_mem_append,
      List.forall_mem_singleton, present]
    constructor
    · rintro ⟨different, listed, kept⟩
      exact ⟨listed, kept, fun same => different (Option.some.inj same).symm⟩
    · rintro ⟨listed, kept, different⟩
      exact ⟨fun same => different (congrArg some same.symm), listed, kept⟩

end Without

def reached (reg : SlotProviderRegistry Id Provider) (calls : List (LockedCall Id)) :
    SlotProviderRegistry Id Provider :=
  calls.foldl (fun reg op => (op.apply reg).2) reg

theorem reached_snoc (reg : SlotProviderRegistry Id Provider) (calls : List (LockedCall Id))
    (last : LockedCall Id) : reached reg (calls ++ [last]) = (last.apply (reached reg calls)).2 := by
  simp only [reached, List.foldl_append, List.foldl_cons, List.foldl_nil]

theorem reached_without (reg : SlotProviderRegistry Id Provider) (calls : List (LockedCall Id)) :
    Without reg (removed calls) (reached reg calls) := by
  induction calls using List.reverseRecOn with
  | nil => exact ⟨by simp [reached, removed], by simp [reached, removed]⟩
  | append_singleton calls last ih =>
    rw [reached_snoc]
    rcases last with (_ | provider_id) | provider_id | _
    case getSlotProviderById => simpa [LockedCall.apply, removed] using ih
    case getSlotProviderMap => simpa [LockedCall.apply, removed] using ih
    case unregisterSlotProvider.none =>
      simpa [LockedCall.apply, Registry.unregisterSlotProvider, removed] using ih
    case unregisterSlotProvider.some =>
      have more : removed (calls ++ [.unregisterSlotProvider (some provider_id)]) =
          removed calls ++ [provider_id] := by
        simp [removed]
      rw [more]
      rcases unregister_cases (reached reg calls) (some provider_id) with
        ⟨same, unknown⟩ | ⟨known, provider, id, found, same⟩
      · simpa only [LockedCall.apply, same] using without_unknown ih unknown
      · obtain rfl := Option.some.inj id
        simpa only [LockedCall.apply, same] using without_known ih found

def Answers (reg : SlotProviderRegistry Id Provider) (earlier : List (LockedCall Id)) :
    LockedCall Id → Result Id Provider → Prop
  | .unregisterSlotProvider none, .flag value => value = false
  | .unregisterSlotProvider (some provider_id), .flag value =>
    value = true ↔ (reg.slotProviderIdMap.find? provider_id).isSome ∧ provider_id ∉ removed earlier
  | .getSlotProviderById none, .provider value => value = none
  | .getSlotProviderById (some provider_id), .provider value =>
    value = if provider_id ∈ removed earlier then none else reg.slotProviderIdMap.find? provider_id
  | .getSlotProviderMap, .map value =>
    ∀ key provider, value.find? key = some provider ↔
      reg.slotProviderReverseMap.find? key = some provider ∧
        ∀ id ∈ removed earlier, reg.slotProviderIdMap.find? id ≠ some key
  | _, _ => False

theorem answers_reached (reg : SlotProviderRegistry Id Provider) (earlier : List (LockedCall Id))
    (op : LockedCall Id) : Answers reg earlier op (op.apply (reached reg earlier)).1 := by
  have without := reached_without reg earlier
  rcases op with (_ | provider_id) | (_ | provider_id) | _
  case getSlotProviderMap => exact without.providers
  case getSlotProviderById.none => exact rfl
  case getSlotProviderById.some => exact without.ids provider_id
  case unregisterSlotProvider.none => exact rfl
  case unregisterSlotProvider.some =>
    have known := without.ids provider_id
    rcases unregister_cases (reached reg earlier) (some provider_id) with
      ⟨same, unknown⟩ | ⟨_, provider, id, found, same⟩
    · have absent := known.symm.trans unknown
      simp only [LockedCall.apply, same, Answers]
      refine iff_of_false Bool.false_ne_true ?_
      rintro ⟨present, kept⟩
      rw [if_neg kept] at absent
      simp [absent] at present
    · obtain rfl := Option.some.inj id
      rw [found] at known
      simp only [LockedCall.apply, same, Answers]
      refine iff_of_true trivial ?_
      split at known
      · contradiction
      · exact ⟨Option.isSome_of_eq_some known.symm, ‹_›⟩

section Threads
variable [DecidableEq Thread]

/-- For every registry, any number of threads and every interleaving of their
statements: of all removals of a known id exactly the first to release the mutex
succeeds, each lookup finds what has not been removed by then, each thread is
handed its results in that order, and the registry keeps what was not removed. -/
theorem removals_answered {reg : SlotProviderRegistry Id Provider}
    {events : List (Sections.Event (LockedCall Id) (Result Id Provider) Thread)}
    (interleaved : Runs.Run (Sections.Step statements) (Sections.start reg) events d) :
    (∀ before call later, Sections.history events = before ++ call :: later →
        Answers reg (before.map (·.op)) call.op call.result) ∧
      (∀ t, Sections.own t (Sections.history events) =
        Sections.own t (Sections.returns events) ++ d.returning t) ∧
      (d.owner = none → Without reg (removed ((Sections.history events).map (·.op))) d.shared) := by
  have performs (calls : List (LockedCall Id)) (op : LockedCall Id) :
      Sections.Performs statements op (reached reg calls) (op.apply (reached reg calls)).1
        (reached reg (calls ++ [op])) := by
    rw [reached_snoc]
    exact performs_apply _ op
  obtain ⟨answers, left⟩ := Sections.run_answers performs interleaved
  refine ⟨?_, Sections.start_returns interleaved, ?_⟩
  · intro before call later split
    rw [answers before call later split]
    exact answers_reached reg _ call.op
  · intro free
    rw [left free]
    exact reached_without reg _

theorem one_removal_succeeds : ∃ d : Sections.Config _ _ (Point Nat Nat) _ Nat,
    Runs.Run (Sections.Step statements)
      (Sections.start (registerSlotProvider ∅ 5 (some 7)).2)
      [.call 1 (.unregisterSlotProvider (some 5)), .call 2 (.unregisterSlotProvider (some 5)), .lock 2,
        .work 2, .work 2, .work 2, .release ⟨2, .unregisterSlotProvider (some 5), .flag true⟩,
        .lock 1, .work 1, .release ⟨1, .unregisterSlotProvider (some 5), .flag false⟩,
        .returned ⟨1, .unregisterSlotProvider (some 5), .flag false⟩,
        .returned ⟨2, .unregisterSlotProvider (some 5), .flag true⟩] d ∧
      d.shared.slotProviderIdMap.find? 5 = none ∧
      ∀ provider, d.shared.slotProviderReverseMap.find? 7 ≠ some provider := by
  have interleaved : Runs.Run (Sections.Step statements)
      (Sections.start (registerSlotProvider ∅ 5 (some 7)).2)
      [.call 1 (.unregisterSlotProvider (some 5)), .call 2 (.unregisterSlotProvider (some 5)), .lock 2,
        .work 2, .work 2, .work 2, .release ⟨2, .unregisterSlotProvider (some 5), .flag true⟩,
        .lock 1, .work 1, .release ⟨1, .unregisterSlotProvider (some 5), .flag false⟩,
        .returned ⟨1, .unregisterSlotProvider (some 5), .flag false⟩,
        .returned ⟨2, .unregisterSlotProvider (some 5), .flag true⟩] _ :=
    .next (.call rfl) (.next (.call rfl) (.next (.lock rfl rfl rfl) (.next (.work rfl rfl)
      (.next (.work rfl rfl) (.next (.last rfl rfl) (.next (.release rfl) (.next (.lock rfl rfl rfl)
      (.next (.last rfl rfl) (.next (.release rfl) (.next (.returned rfl) (.next (.returned rfl)
      (.done _))))))))))))
  obtain ⟨-, -, left⟩ := removals_answered interleaved
  have without := left rfl
  refine ⟨_, interleaved, without.ids 5, ?_⟩
  intro provider found
  exact ((without.providers 7 provider).mp found).2 5 List.mem_cons_self rfl

end Threads
end Gymansie.Registry
