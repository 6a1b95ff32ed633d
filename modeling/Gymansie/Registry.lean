import Gymansie.Connections

/-! The slot provider registry without its locking: two maps in opposite
directions, registration, removal and the two lookups. Ids stand for the
`const char*` keys, compared as the container compares them; providers for the
addresses of live or dead objects. -/
namespace Gymansie.Registry
variable {Id Provider : Type}

structure SlotProviderRegistry (Id Provider : Type) where
  slotProviderIdMap : UnorderedMap Id Provider
  slotProviderReverseMap : UnorderedMap Provider Provider

instance : EmptyCollection (SlotProviderRegistry Id Provider) := ⟨⟨∅, ∅⟩⟩

variable [DecidableEq Id] [DecidableEq Provider]

/-- `id` is what `generateSlotProviderId` hands over for this call. -/
def registerSlotProvider (reg : SlotProviderRegistry Id Provider) (id : Id) :
    Ptr Provider → Bool × SlotProviderRegistry Id Provider
  | none => (false, reg)
  | some provider =>
    (true, ⟨reg.slotProviderIdMap.set id provider,
      reg.slotProviderReverseMap.set provider provider⟩)

def unregisterSlotProvider (reg : SlotProviderRegistry Id Provider) :
    Ptr Id → Bool × SlotProviderRegistry Id Provider
  | none => (false, reg)
  | some provider_id =>
    match reg.slotProviderIdMap.find? provider_id with
    | none => (false, reg)
    | some provider =>
      (true, ⟨reg.slotProviderIdMap.erase provider_id,
        reg.slotProviderReverseMap.erase provider⟩)

def getSlotProviderById (reg : SlotProviderRegistry Id Provider) : Ptr Id → Ptr Provider
  | none => none
  | some provider_id => reg.slotProviderIdMap.find? provider_id

def getSlotProviderMap (reg : SlotProviderRegistry Id Provider) : UnorderedMap Provider Provider :=
  reg.slotProviderReverseMap

/-! The id generator. `idStr0` is the first character of an id in the map. -/

/-- `!id_str[0] && static_cast<uint8_t>(id_str[0]) == number_instance`. -/
def collides (number_instance idStr0 : UInt8) : Bool :=
  idStr0 == 0 && idStr0 == number_instance

/-- `is_unique` after the scan of the id map. -/
def isUnique (firstByte : Id → UInt8) (reg : SlotProviderRegistry Id Provider)
    (number_instance : UInt8) : Bool :=
  !Finmap.any (fun id_str _ => collides number_instance (firstByte id_str)) reg.slotProviderIdMap

/-- The `for` loop over the ids in some order, up to its `break`. -/
def scan (firstByte : Id → UInt8) (number_instance : UInt8) : List Id → Bool
  | [] => true
  | id_str :: rest =>
    if collides number_instance (firstByte id_str) then false
    else scan firstByte number_instance rest

/-- The `do ... while (!is_unique)` loop on the values that `dist(rng)` draws:
the byte it settles on and the values left over. `none` when the given values
run out first. -/
def generateSlotProviderId (firstByte : Id → UInt8) (reg : SlotProviderRegistry Id Provider) :
    List (Fin 256) → Option (UInt8 × List (Fin 256))
  | [] => none
  | drawn :: rest =>
    let number_instance := UInt8.ofFin drawn
    if isUnique firstByte reg number_instance then some (number_instance, rest)
    else generateSlotProviderId firstByte reg rest

/-! What one call can do, in terms of lookups. -/

omit [DecidableEq Provider] in
@[simp]
theorem find?_empty (id : Id) :
    (∅ : SlotProviderRegistry Id Provider).slotProviderIdMap.find? id = none :=
  UnorderedMap.find?_empty id

omit [DecidableEq Id] in
@[simp]
theorem find?_reverse_empty (provider : Provider) :
    (∅ : SlotProviderRegistry Id Provider).slotProviderReverseMap.find? provider = none :=
  UnorderedMap.find?_empty provider

variable {reg : SlotProviderRegistry Id Provider}

theorem find?_register (provider : Provider) (id key : Id) :
    (registerSlotProvider reg id (some provider)).2.slotProviderIdMap.find? key =
      if key = id then some provider else reg.slotProviderIdMap.find? key :=
  UnorderedMap.find?_set _ _ _ _

theorem find?_reverse_register (provider key : Provider) (id : Id) :
    (registerSlotProvider reg id (some provider)).2.slotProviderReverseMap.find? key =
      if key = provider then some provider else reg.slotProviderReverseMap.find? key :=
  UnorderedMap.find?_set _ _ _ _

theorem mem_keys_register {provider : Provider} {id key : Id} :
    key ∈ (registerSlotProvider reg id (some provider)).2.slotProviderIdMap.keys ↔
      key = id ∨ key ∈ reg.slotProviderIdMap.keys :=
  UnorderedMap.mem_keys_set

/-- Removal does nothing unless the id is a key. -/
theorem unregister_cases (reg : SlotProviderRegistry Id Provider) (id : Ptr Id) :
    unregisterSlotProvider reg id = (false, reg) ∧ getSlotProviderById reg id = none ∨
    ∃ known provider, id = some known ∧ reg.slotProviderIdMap.find? known = some provider ∧
      unregisterSlotProvider reg id = (true, ⟨reg.slotProviderIdMap.erase known,
        reg.slotProviderReverseMap.erase provider⟩) := by
  cases id with
  | none => exact .inl ⟨rfl, rfl⟩
  | some known =>
    cases found : reg.slotProviderIdMap.find? known with
    | none => exact .inl ⟨by simp only [unregisterSlotProvider, found], found⟩
    | some provider =>
      exact .inr ⟨known, provider, rfl, found, by simp only [unregisterSlotProvider, found]⟩

section Generator
omit [DecidableEq Provider]
variable (firstByte : Id → UInt8) (reg : SlotProviderRegistry Id Provider)

/-- Some id in the map is empty. -/
def EmptyKnown : Prop :=
  ∃ id provider, reg.slotProviderIdMap.find? id = some provider ∧ firstByte id = 0

/-- The scan only ever notices the empty id, and only for a drawn zero. -/
theorem isUnique_iff (number_instance : UInt8) :
    isUnique firstByte reg number_instance = true ↔
      ¬ (number_instance = 0 ∧ EmptyKnown firstByte reg) := by
  rw [isUnique, Bool.not_eq_true', ← Bool.not_eq_true, UnorderedMap.any_iff]
  refine not_congr ⟨?_, ?_⟩
  · rintro ⟨id, provider, found, collision⟩
    simp only [collides, Bool.and_eq_true, beq_iff_eq] at collision
    exact ⟨collision.2.symm.trans collision.1, id, provider, found, collision.1⟩
  · rintro ⟨zero, id, provider, found, empty⟩
    exact ⟨id, provider, found, by simp only [collides, zero, empty, BEq.rfl, Bool.and_self]⟩

omit [DecidableEq Id] in
theorem scan_eq_any (number_instance : UInt8) (ids : List Id) :
    scan firstByte number_instance ids =
      !ids.any fun id_str => collides number_instance (firstByte id_str) := by
  induction ids with
  | nil => rfl
  | cons id_str rest ih =>
    rw [scan, ih, List.any_cons]
    cases collides number_instance (firstByte id_str) <;> rfl

/-- The order in which the ids are scanned does not matter. -/
theorem scan_eq_isUnique (number_instance : UInt8) {ids : List Id}
    (enumerates : ∀ id, id ∈ ids ↔ ∃ provider, reg.slotProviderIdMap.find? id = some provider) :
    scan firstByte number_instance ids = isUnique firstByte reg number_instance := by
  rw [scan_eq_any, isUnique]
  refine congrArg (! ·) (Bool.eq_iff_iff.mpr ?_)
  rw [List.any_eq_true, UnorderedMap.any_iff]
  constructor
  · rintro ⟨id, listed, collision⟩
    obtain ⟨provider, found⟩ := (enumerates id).mp listed
    exact ⟨id, provider, found, collision⟩
  · rintro ⟨id, provider, found, collision⟩
    exact ⟨id, (enumerates id).mpr ⟨provider, found⟩, collision⟩

theorem ofFin_injective : Function.Injective UInt8.ofFin :=
  fun _ _ same => congrArg UInt8.toFin same

variable {firstByte reg}

theorem generate_free (free : ¬ (UInt8.ofFin drawn = 0 ∧ EmptyKnown firstByte reg))
    (rest : List (Fin 256)) :
    generateSlotProviderId firstByte reg (drawn :: rest) = some (UInt8.ofFin drawn, rest) := by
  rw [generateSlotProviderId, if_pos ((isUnique_iff firstByte reg _).mpr free)]

theorem generate_taken (empty : EmptyKnown firstByte reg) (rest : List (Fin 256)) :
    generateSlotProviderId firstByte reg (0 :: rest) = generateSlotProviderId firstByte reg rest := by
  have noticed : ¬ isUnique firstByte reg (UInt8.ofFin 0) = true :=
    fun unique => (isUnique_iff firstByte reg _).mp unique ⟨rfl, empty⟩
  rw [generateSlotProviderId, if_neg noticed]

variable (firstByte reg)

/-- The loop skips zeros while the empty id is in use and settles on the first
other draw. -/
theorem generate_iff {draws rest : List (Fin 256)} :
    generateSlotProviderId firstByte reg draws = some (number_instance, rest) ↔
      ∃ zeros drawn, draws = List.replicate zeros 0 ++ drawn :: rest ∧
        number_instance = UInt8.ofFin drawn ∧ (0 < zeros → EmptyKnown firstByte reg) ∧
        ¬ (number_instance = 0 ∧ EmptyKnown firstByte reg) := by
  induction draws with
  | nil => simp [generateSlotProviderId]
  | cons first draws ih =>
    constructor
    · intro settled
      by_cases taken : UInt8.ofFin first = 0 ∧ EmptyKnown firstByte reg
      · obtain ⟨zero, empty⟩ := taken
        obtain rfl : first = 0 := ofFin_injective zero
        rw [generate_taken empty] at settled
        obtain ⟨zeros, drawn, rfl, same, -, free⟩ := ih.mp settled
        exact ⟨zeros + 1, drawn, rfl, same, fun _ => empty, free⟩
      · rw [generate_free taken] at settled
        obtain ⟨rfl, rfl⟩ := Prod.mk.inj (Option.some.inj settled)
        exact ⟨0, first, rfl, rfl, fun positive => absurd positive (Nat.lt_irrefl 0), taken⟩
    · rintro ⟨zeros, drawn, split, rfl, taken, free⟩
      cases zeros with
      | zero =>
        obtain ⟨rfl, rfl⟩ := List.cons.inj split
        exact generate_free free draws
      | succ zeros =>
        obtain ⟨rfl, later⟩ := List.cons.inj split
        have empty := taken (Nat.succ_pos zeros)
        rw [generate_taken empty]
        exact ih.mpr ⟨zeros, drawn, later, rfl, fun _ => empty, free⟩

end Generator
end Gymansie.Registry
