import Gymansie.Registry
import Mathlib.Data.List.Count
import Mathlib.Data.Finset.Card

/-! Registration with generated one-byte ids. The generator rejects a drawn
zero while the empty id is in use and accepts every other draw, so a
registration overwrites an earlier one exactly when a nonzero value is drawn
again. Any number of providers and any values from the random source. -/
namespace Gymansie.Registry
variable {Provider : Type} [DecidableEq Provider]

/-- Register the providers in order, each under the byte the generator settles
on: these bytes, the registry and the values left over. -/
def registerAll (reg : SlotProviderRegistry UInt8 Provider) : List Provider → List (Fin 256) →
    Option (List UInt8 × SlotProviderRegistry UInt8 Provider × List (Fin 256))
  | [], draws => some ([], reg, draws)
  | provider :: providers, draws =>
    match generateSlotProviderId (fun id_str => id_str) reg draws with
    | none => none
    | some (number_instance, rest) =>
      (registerAll (registerSlotProvider reg number_instance (some provider)).2 providers rest).map
        fun (ids, after, rest) => (number_instance :: ids, after, rest)

/-- Distinct ids, one entry for each provider, and every id leads to its own. -/
structure NoneLost (providers : List Provider) (ids : List UInt8)
    (reg : SlotProviderRegistry UInt8 Provider) : Prop where
  distinct : ids.Nodup
  entries : reg.slotProviderIdMap.keys.card = providers.length
  lookup : ∀ entry ∈ providers.zip ids, getSlotProviderById reg (some entry.2) = some entry.1

def ZeroKnown (reg : SlotProviderRegistry UInt8 Provider) : Prop :=
  (reg.slotProviderIdMap.find? 0).isSome

omit [DecidableEq Provider] in
theorem emptyKnown_byte_iff (reg : SlotProviderRegistry UInt8 Provider) :
    EmptyKnown (fun id_str => id_str) reg ↔ ZeroKnown reg := by
  constructor
  · rintro ⟨id, provider, found, rfl⟩
    exact Option.isSome_of_eq_some found
  · intro known
    obtain ⟨provider, found⟩ := Option.isSome_iff_exists.mp known
    exact ⟨0, provider, found, rfl⟩

omit [DecidableEq Provider] in
/-- The loop skips zeros that are taken and settles on the first other draw. -/
theorem generate_draws {reg : SlotProviderRegistry UInt8 Provider} {draws rest : List (Fin 256)}
    (settled : generateSlotProviderId (fun id_str => id_str) reg draws = some (number_instance, rest)) :
    ∃ skipped drawn, draws = skipped ++ drawn :: rest ∧ number_instance = UInt8.ofFin drawn ∧
      (∀ value ∈ skipped, value = 0) ∧ ¬ (number_instance = 0 ∧ ZeroKnown reg) := by
  obtain ⟨zeros, drawn, split, same, -, free⟩ := (generate_iff _ reg).mp settled
  rw [emptyKnown_byte_iff] at free
  exact ⟨List.replicate zeros 0, drawn, split, same, fun _ => List.eq_of_mem_replicate, free⟩

theorem registerAll_nil {reg : SlotProviderRegistry UInt8 Provider} {draws rest : List (Fin 256)}
    (finished : registerAll reg [] draws = some (ids, after, rest)) :
    ids = [] ∧ after = reg ∧ rest = draws := by
  simp only [registerAll, Option.some.injEq, Prod.mk.injEq] at finished
  obtain ⟨rfl, rfl, rfl⟩ := finished
  exact ⟨rfl, rfl, rfl⟩

theorem registerAll_cons {reg : SlotProviderRegistry UInt8 Provider} {draws rest : List (Fin 256)}
    (finished : registerAll reg (provider :: providers) draws = some (ids, after, rest)) :
    ∃ number_instance middle others,
      generateSlotProviderId (fun id_str => id_str) reg draws = some (number_instance, middle) ∧
      registerAll (registerSlotProvider reg number_instance (some provider)).2 providers middle =
        some (others, after, rest) ∧ ids = number_instance :: others := by
  rw [registerAll] at finished
  split at finished
  · contradiction
  · rename_i number_instance middle settled
    obtain ⟨⟨others, after', rest'⟩, remaining, same⟩ := Option.map_eq_some_iff.mp finished
    simp only [Prod.mk.injEq] at same
    obtain ⟨rfl, rfl, rfl⟩ := same
    exact ⟨number_instance, middle, others, settled, remaining, rfl⟩

theorem zeroKnown_register (reg : SlotProviderRegistry UInt8 Provider) (provider : Provider)
    (id : UInt8) :
    ZeroKnown (registerSlotProvider reg id (some provider)).2 ↔ id = 0 ∨ ZeroKnown reg := by
  rw [ZeroKnown, find?_register]
  by_cases zero : 0 = id
  · simp [zero]
  · simp [zero, Ne.symm zero, ZeroKnown]

/-- Every nonzero value drawn becomes an id; zero does at most once. -/
theorem registerAll_draws {providers : List Provider} {draws rest : List (Fin 256)}
    (finished : registerAll reg providers draws = some (ids, after, rest)) :
    ∃ consumed, draws = consumed ++ rest ∧
      (∀ value, value ≠ 0 → ids.count (UInt8.ofFin value) = consumed.count value) ∧
      ids.count 0 ≤ 1 ∧ (ZeroKnown reg → ids.count 0 = 0) := by
  induction providers generalizing reg draws ids with
  | nil =>
    obtain ⟨rfl, rfl, rfl⟩ := registerAll_nil finished
    exact ⟨[], rfl, by simp⟩
  | cons provider providers ih =>
    obtain ⟨number_instance, middle, others, settled, remaining, rfl⟩ := registerAll_cons finished
    obtain ⟨skipped, drawn, rfl, rfl, zeros, free⟩ := generate_draws settled
    obtain ⟨consumed, rfl, counts, once, none⟩ := ih remaining
    refine ⟨skipped ++ drawn :: consumed, by simp, ?_, ?_, ?_⟩
    · intro value nonzero
      have absent : skipped.count value = 0 :=
        List.count_eq_zero.mpr fun member => nonzero (zeros value member)
      simp only [List.count_cons, List.count_append, beq_iff_eq, absent, counts value nonzero,
        ofFin_injective.eq_iff, Nat.zero_add]
    · rw [List.count_cons]
      split
      · rename_i zero
        rw [none ((zeroKnown_register _ _ _).mpr (.inl (eq_of_beq zero)))]
      · exact once
    · intro known
      rw [List.count_cons, none ((zeroKnown_register _ _ _).mpr (.inr known)), Nat.zero_add, if_neg]
      exact fun zero => free ⟨eq_of_beq zero, known⟩

theorem registerAll_find?_other {providers : List Provider} {draws rest : List (Fin 256)}
    (finished : registerAll reg providers draws = some (ids, after, rest)) (other : key ∉ ids) :
    after.slotProviderIdMap.find? key = reg.slotProviderIdMap.find? key := by
  induction providers generalizing reg draws ids with
  | nil =>
    obtain ⟨-, rfl, -⟩ := registerAll_nil finished
    rfl
  | cons provider providers ih =>
    obtain ⟨number_instance, middle, others, settled, remaining, rfl⟩ := registerAll_cons finished
    rw [List.mem_cons, not_or] at other
    rw [ih remaining other.2, find?_register, if_neg other.1]

theorem registerAll_length {providers : List Provider} {draws rest : List (Fin 256)}
    (finished : registerAll reg providers draws = some (ids, after, rest)) :
    ids.length = providers.length := by
  induction providers generalizing reg draws ids with
  | nil =>
    obtain ⟨rfl, -⟩ := registerAll_nil finished
    rfl
  | cons provider providers ih =>
    obtain ⟨number_instance, middle, others, settled, remaining, rfl⟩ := registerAll_cons finished
    rw [List.length_cons, List.length_cons, ih remaining]

theorem registerAll_keys {providers : List Provider} {draws rest : List (Fin 256)}
    (finished : registerAll reg providers draws = some (ids, after, rest)) :
    after.slotProviderIdMap.keys = reg.slotProviderIdMap.keys ∪ ids.toFinset := by
  induction providers generalizing reg draws ids with
  | nil =>
    obtain ⟨rfl, rfl, -⟩ := registerAll_nil finished
    rw [List.toFinset_nil, Finset.union_empty]
  | cons provider providers ih =>
    obtain ⟨number_instance, middle, others, settled, remaining, rfl⟩ := registerAll_cons finished
    ext key
    rw [ih remaining, Finset.mem_union, Finset.mem_union, mem_keys_register, List.toFinset_cons,
      Finset.mem_insert, or_assoc, or_left_comm]

theorem registerAll_lookup {providers : List Provider} {draws rest : List (Fin 256)}
    (finished : registerAll reg providers draws = some (ids, after, rest)) (distinct : ids.Nodup) :
    ∀ entry ∈ providers.zip ids, after.slotProviderIdMap.find? entry.2 = some entry.1 := by
  induction providers generalizing reg draws ids with
  | nil => simp
  | cons provider providers ih =>
    obtain ⟨number_instance, middle, others, settled, remaining, rfl⟩ := registerAll_cons finished
    rw [List.nodup_cons] at distinct
    intro entry member
    rw [List.zip_cons_cons, List.mem_cons] at member
    rcases member with rfl | later
    · rw [registerAll_find?_other remaining distinct.1, find?_register, if_pos rfl]
    · exact ih remaining distinct.2 entry later

theorem registerAll_distinct_iff {providers : List Provider} {consumed rest : List (Fin 256)}
    (finished : registerAll reg providers (consumed ++ rest) = some (ids, after, rest)) :
    ids.Nodup ↔ ∀ value, value ≠ 0 → consumed.count value ≤ 1 := by
  obtain ⟨consumed', split, counts, once, -⟩ := registerAll_draws finished
  obtain rfl := List.append_cancel_right split
  rw [List.nodup_iff_count_le_one]
  constructor
  · intro single value nonzero
    rw [← counts value nonzero]
    exact single _
  · intro single byte
    by_cases zero : byte = 0
    · rw [zero]
      exact once
    · have nonzero : byte.toFin ≠ 0 := fun h => zero (congrArg UInt8.ofFin h)
      exact (counts byte.toFin nonzero).trans_le (single _ nonzero)

/-- For any providers and any draws that finish, those used up being `consumed`. -/
theorem none_lost_iff {providers : List Provider} {consumed rest : List (Fin 256)}
    (finished : registerAll ∅ providers (consumed ++ rest) = some (ids, reg, rest)) :
    NoneLost providers ids reg ↔ ∀ value, value ≠ 0 → consumed.count value ≤ 1 := by
  rw [← registerAll_distinct_iff finished]
  refine ⟨NoneLost.distinct, fun distinct => ⟨distinct, ?_, registerAll_lookup finished distinct⟩⟩
  have keys := registerAll_keys finished
  rw [show (∅ : SlotProviderRegistry UInt8 Provider).slotProviderIdMap.keys = ∅ from Finmap.keys_empty,
    Finset.empty_union] at keys
  rw [keys, List.toFinset_card_of_nodup distinct, registerAll_length finished]

theorem none_lost_two : ∃ reg,
    registerAll (∅ : SlotProviderRegistry UInt8 Nat) [7, 8] ([0, 5] ++ []) = some ([0, 5], reg, []) ∧
      NoneLost [7, 8] [0, 5] reg :=
  ⟨_, rfl, (none_lost_iff (rfl : registerAll ∅ [7, 8] ([0, 5] ++ []) = some ([0, 5], _, []))).mpr
    fun value _ => List.nodup_iff_count_le_one.mp (by decide) value⟩

theorem repeated_draw_overwrites : ∃ ids reg,
    registerAll (∅ : SlotProviderRegistry UInt8 Nat) [7, 8] [5, 5] = some (ids, reg, []) ∧
      ¬ NoneLost [7, 8] ids reg :=
  ⟨[5, 5], _, rfl, fun kept => absurd kept.distinct (by decide)⟩

/-! ### What the loop settles on -/

section Exit
variable {Id : Type} [DecidableEq Id]

/-- If the loop ends, it does so with a byte that is not the first byte of any
id in the map. -/
def ExitsFree (firstByte : Id → UInt8) (reg : SlotProviderRegistry Id Provider)
    (draws : List (Fin 256)) : Prop :=
  ∀ number_instance rest,
    generateSlotProviderId firstByte reg draws = some (number_instance, rest) →
      ∀ id provider, reg.slotProviderIdMap.find? id = some provider → firstByte id ≠ number_instance

omit [DecidableEq Provider] in
/-- For every map, any ids and all draws: the first nonzero draw has to be free,
unless a zero that is not taken comes before it. -/
theorem exits_free_iff (firstByte : Id → UInt8) (reg : SlotProviderRegistry Id Provider)
    (draws : List (Fin 256)) :
    ExitsFree firstByte reg draws ↔
      ∀ zeros drawn rest, draws = List.replicate zeros 0 ++ drawn :: rest → drawn ≠ 0 →
        (0 < zeros → EmptyKnown firstByte reg) →
          ∀ id provider, reg.slotProviderIdMap.find? id = some provider →
            firstByte id ≠ UInt8.ofFin drawn := by
  constructor
  · intro exits zeros drawn rest split nonzero taken
    have free : ¬ (UInt8.ofFin drawn = 0 ∧ EmptyKnown firstByte reg) :=
      fun both => nonzero (ofFin_injective both.1)
    exact exits _ rest ((generate_iff firstByte reg).mpr ⟨zeros, drawn, split, rfl, taken, free⟩)
  · intro condition number_instance rest settled
    obtain ⟨zeros, drawn, split, rfl, taken, free⟩ := (generate_iff firstByte reg).mp settled
    by_cases zero : drawn = 0
    · subst drawn
      intro id provider found empty
      exact free ⟨rfl, id, provider, found, empty⟩
    · exact condition zeros drawn rest split zero taken

/-- The id "A" is in the map, and its byte is drawn at once. -/
theorem taken_byte_accepted :
    ¬ ExitsFree (fun id_str : List UInt8 => id_str.headD 0)
      (registerSlotProvider ∅ [65] (some 7)).2 [65] := by
  intro exits
  exact exits 65 [] rfl [65] 7 rfl rfl

end Exit
end Gymansie.Registry
