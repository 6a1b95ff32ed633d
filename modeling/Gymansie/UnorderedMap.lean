import Mathlib.Data.Finmap

/-! An unordered associative container: at most one value per key, no iteration
order. It is Mathlib's `Finmap` with a fixed value type, under the words of the
container's interface. Loops over all entries are order independent by type. -/
namespace Gymansie
universe u v w

abbrev UnorderedMap (K : Type u) (V : Type v) := Finmap fun _ : K => V

namespace UnorderedMap
variable {K : Type u} {V : Type v} {W : Type w}

/-- Replace every value, as a loop over `auto& entry` does through `entry.second`. -/
def mapValues (f : V → W) (m : UnorderedMap K V) : UnorderedMap K W :=
  m.liftOn (fun a => AList.toFinmap ⟨a.entries.map (Sigma.map id fun _ => f), a.nodupKeys.map₂ _ _⟩)
    fun _ _ same => AList.toFinmap_eq.mpr (same.map _)

variable [DecidableEq K]

def find? (m : UnorderedMap K V) (k : K) : Option V := Finmap.lookup k m

/-- `count(k)`, read as a condition. -/
def count (m : UnorderedMap K V) (k : K) : Bool := (m.find? k).isSome

/-- `m[k] = value`. -/
def set (m : UnorderedMap K V) (k : K) (value : V) : UnorderedMap K V := Finmap.insert k value m

def erase (m : UnorderedMap K V) (k : K) : UnorderedMap K V := Finmap.erase k m

/-- What `m[k]` reads: a missing key stands for the default value. -/
def index (m : UnorderedMap K V) (k : K) (default : V) : V := (m.find? k).getD default

@[ext]
theorem ext {m n : UnorderedMap K V} (same : ∀ k, m.find? k = n.find? k) : m = n :=
  Finmap.ext_lookup same

@[simp]
theorem find?_empty (k : K) : (∅ : UnorderedMap K V).find? k = none := Finmap.lookup_empty k

theorem find?_set (m : UnorderedMap K V) (k j : K) (value : V) :
    (m.set k value).find? j = if j = k then some value else m.find? j := by
  split
  · subst j
    exact Finmap.lookup_insert m
  · exact Finmap.lookup_insert_of_ne m ‹_›

theorem find?_erase (m : UnorderedMap K V) (k j : K) :
    (m.erase k).find? j = if j = k then none else m.find? j := by
  split
  · subst j
    exact Finmap.lookup_erase k m
  · exact Finmap.lookup_erase_ne ‹_›

theorem find?_erase_eq_some_iff {m : UnorderedMap K V} {k j : K} {value : V} :
    (m.erase k).find? j = some value ↔ j ≠ k ∧ m.find? j = some value := by
  rw [find?_erase]
  by_cases same : j = k <;> simp [same]

/-- A new key adds its value and takes none away. -/
theorem exists_find?_set {m : UnorderedMap K V} {k : K} (fresh : m.find? k = none) (new value : V) :
    (∃ j, (m.set k new).find? j = some value) ↔ value = new ∨ ∃ j, m.find? j = some value := by
  simp only [find?_set]
  constructor
  · rintro ⟨j, found⟩
    split at found
    · exact .inl (Option.some.inj found).symm
    · exact .inr ⟨j, found⟩
  · rintro (rfl | ⟨j, found⟩)
    · exact ⟨k, if_pos rfl⟩
    · have other : j ≠ k := by
        rintro rfl
        simp [fresh] at found
      exact ⟨j, by rw [if_neg other, found]⟩

@[simp]
theorem find?_mapValues (f : V → W) (m : UnorderedMap K V) (k : K) :
    (m.mapValues f).find? k = (m.find? k).map f := by
  refine Finmap.induction_on m fun a => ?_
  exact List.dlookup_map₂ k

@[simp]
theorem count_eq (m : UnorderedMap K V) (k : K) : m.count k = (m.find? k).isSome := rfl

theorem mem_keys_iff (m : UnorderedMap K V) (k : K) : k ∈ m.keys ↔ (m.find? k).isSome := by
  rw [Finmap.mem_keys]
  exact Finmap.lookup_isSome.symm

theorem mem_keys_set {m : UnorderedMap K V} {k j : K} {value : V} :
    j ∈ (m.set k value).keys ↔ j = k ∨ j ∈ m.keys := by
  rw [Finmap.mem_keys, Finmap.mem_keys]
  exact Finmap.mem_insert

theorem mem_keys_erase {m : UnorderedMap K V} {k j : K} :
    j ∈ (m.erase k).keys ↔ j ≠ k ∧ j ∈ m.keys := by
  rw [Finmap.mem_keys, Finmap.mem_keys]
  exact Finmap.mem_erase

theorem erase_of_none {m : UnorderedMap K V} {k : K} (absent : m.find? k = none) : m.erase k = m := by
  ext j : 1
  rw [find?_erase]
  split
  · subst j
    exact absent.symm
  · rfl

theorem set_erase (m : UnorderedMap K V) (k : K) (value : V) :
    (m.erase k).set k value = m.set k value := by
  ext j : 1
  rw [find?_set, find?_set, find?_erase]
  split <;> rfl

theorem set_find? {m : UnorderedMap K V} {k : K} {value : V} (found : m.find? k = some value) :
    m.set k value = m := by
  ext j : 1
  rw [find?_set]
  split
  · subst j
    exact found.symm
  · rfl

/-- The values, one for each key. -/
def values (m : UnorderedMap K V) : Multiset V := m.entries.map fun entry => entry.2

theorem values_set (m : UnorderedMap K V) (k : K) (value : V) :
    (m.set k value).values = value ::ₘ (m.erase k).values := by
  have fresh : k ∉ m.erase k := Finmap.notMem_erase_self
  rw [← set_erase, values, set, Finmap.entries_insert_of_notMem fresh, Multiset.map_cons, values]

theorem values_of_find? {m : UnorderedMap K V} {k : K} {value : V} (found : m.find? k = some value) :
    m.values = value ::ₘ (m.erase k).values := by
  conv_lhs => rw [← set_find? found, values_set]

omit [DecidableEq K] in
private theorem foldl_or (p : K → V → Bool) (entries : List (Σ _ : K, V)) (seen : Bool) :
    entries.foldl (fun found entry => found || p entry.1 entry.2) seen =
      (seen || entries.any fun entry => p entry.1 entry.2) := by
  induction entries generalizing seen with
  | nil => simp
  | cons entry rest ih => simp only [List.foldl_cons, ih, List.any_cons, Bool.or_assoc]

/-- A scan over all entries stops at a match exactly when some key has one. -/
theorem any_iff (p : K → V → Bool) (m : UnorderedMap K V) :
    Finmap.any p m = true ↔ ∃ k value, m.find? k = some value ∧ p k value = true := by
  refine Finmap.induction_on m fun a => ?_
  have scanned : Finmap.any p a.toFinmap = a.entries.any fun entry => p entry.1 entry.2 :=
    (foldl_or p a.entries false).trans (Bool.false_or _)
  have found (k : K) (value : V) :
      find? a.toFinmap k = some value ↔ (⟨k, value⟩ : Σ _ : K, V) ∈ a.entries :=
    List.mem_dlookup_iff a.nodupKeys
  rw [scanned, List.any_eq_true]
  constructor
  · rintro ⟨entry, member, matched⟩
    exact ⟨entry.1, entry.2, (found _ _).mpr member, matched⟩
  · rintro ⟨k, value, lookup, matched⟩
    exact ⟨⟨k, value⟩, (found _ _).mp lookup, matched⟩

end UnorderedMap
end Gymansie
