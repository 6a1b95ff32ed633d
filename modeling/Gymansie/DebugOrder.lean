import Gymansie.DebugText
import Gymansie.PrintedOrder

/-! Time stamps in the order of their texts, character by character. Years of
the same number of digits keep it the order of the times. A year of five digits
is compared by the first four. -/
namespace Gymansie.DebugText
open Printing

/-- Earlier, by the members from the year down. -/
instance : LT SYSTEMTIME := ⟨fun first second => first.args < second.args⟩

theorem SYSTEMTIME.lt_iff {first second : SYSTEMTIME} : first < second ↔ first.args < second.args :=
  Iff.rfl

def behindYear : List Piece :=
  [.char '-', .padded 2, .char '-', .padded 2, .char ' ', .padded 2, .char ':', .padded 2, .char ':',
    .padded 2, .char '.', .padded 3]

theorem stamp_eq (time : SYSTEMTIME) :
    stamp time = pad 4 time.wYear.toNat ++ print behindYear time.args.tail := by
  rw [stamp, parse_timeFormat]
  rfl

theorem fits_behindYear {time : SYSTEMTIME} (valid : time.Valid) :
    Fits behindYear time.args.tail := by
  obtain ⟨year, month, day, hour, minute, second, milliseconds⟩ := valid
  refine ⟨by decide, ?_, by decide, ?_, by decide, ?_, by decide, ?_, by decide, ?_, by decide, ?_, rfl⟩
  all_goals omega

/-- The years have the same number of digits. -/
def SameDigits (first second : SYSTEMTIME) : Prop :=
  first.wYear.toNat < 10000 ↔ second.wYear.toNat < 10000

theorem stamp_fits {time : SYSTEMTIME} (valid : time.Valid) (digits : Nat)
    (year : digits = 4 ∧ time.wYear.toNat < 10000 ∨ digits = 5 ∧ 10000 ≤ time.wYear.toNat) :
    stamp time = print (.padded digits :: behindYear) time.args ∧
      Fits (.padded digits :: behindYear) time.args := by
  have rest := fits_behindYear valid
  have upper := valid.year.2
  rcases year with ⟨rfl, short⟩ | ⟨rfl, long⟩
  · exact ⟨stamp_eq time, by decide, short, rest⟩
  · refine ⟨?_, by decide, by omega, rest⟩
    rw [stamp_eq, ← pad_succ_of_le (by decide) long]
    rfl

theorem stamp_lt_iff {first second : SYSTEMTIME} (s t : List Char) (valid : first.Valid)
    (valid' : second.Valid) (alike : SameDigits first second) :
    stamp first ++ s < stamp second ++ t ↔ first < second ∨ first = second ∧ s < t := by
  obtain ⟨digits, year, year'⟩ : ∃ digits,
      (digits = 4 ∧ first.wYear.toNat < 10000 ∨ digits = 5 ∧ 10000 ≤ first.wYear.toNat) ∧
      (digits = 4 ∧ second.wYear.toNat < 10000 ∨ digits = 5 ∧ 10000 ≤ second.wYear.toNat) := by
    unfold SameDigits at alike
    by_cases short : first.wYear.toNat < 10000
    · exact ⟨4, .inl ⟨rfl, short⟩, .inl ⟨rfl, alike.mp short⟩⟩
    · exact ⟨5, .inr ⟨rfl, by omega⟩, .inr ⟨rfl, by omega⟩⟩
  obtain ⟨text, fits⟩ := stamp_fits valid digits year
  obtain ⟨text', fits'⟩ := stamp_fits valid' digits year'
  rw [text, text', print_lt_iff s t fits fits', SYSTEMTIME.lt_iff, args_injective.eq_iff]

/-- The later year has five digits and its first four stand for less than the
earlier year. -/
def Displaced (first second : SYSTEMTIME) : Prop :=
  first.wYear.toNat < 10000 ∧ 10000 ≤ second.wYear.toNat ∧
    second.wYear.toNat / 10 < first.wYear.toNat

instance (first second : SYSTEMTIME) : Decidable (Displaced first second) :=
  inferInstanceAs (Decidable (_ ∧ _))

theorem years_of_lt {first second : SYSTEMTIME} (earlier : first < second) :
    first.wYear.toNat ≤ second.wYear.toNat := by
  rw [SYSTEMTIME.lt_iff, SYSTEMTIME.args, SYSTEMTIME.args, List.cons_lt_cons_iff] at earlier
  omega

/-- For all valid times: the earlier one has the lesser stamp unless its year of
four digits is greater than the first four digits of the later year. -/
theorem earlier_stamp_lt_iff {first second : SYSTEMTIME} (valid : first.Valid)
    (valid' : second.Valid) (earlier : first < second) :
    stamp first < stamp second ↔ ¬ Displaced first second := by
  have years := years_of_lt earlier
  have upper := valid'.year.2
  by_cases alike : SameDigits first second
  · have ordered := stamp_lt_iff [] [] valid valid' alike
    rw [List.append_nil, List.append_nil] at ordered
    have straight : ¬ Displaced first second := by
      unfold Displaced SameDigits at *
      omega
    exact iff_of_true (ordered.mpr (.inl earlier)) straight
  · have short : first.wYear.toNat < 10000 := by
      unfold SameDigits at alike
      omega
    have long : 10000 ≤ second.wYear.toNat := by
      unfold SameDigits at alike
      omega
    have stops : print behindYear first.args.tail = '-' :: print behindYear.tail first.args.tail := rfl
    rw [stamp_eq, stamp_eq, stops, pad_lt_wider_iff (by decide) short long (by omega) (by decide)]
    simp only [Displaced, short, long, true_and, Nat.not_lt]

/-- Year 10001 is compared by 1000. -/
theorem newYear_displaced : ∃ time : SYSTEMTIME, newYear < time ∧ ¬ stamp newYear < stamp time := by
  have valid : newYear.Valid :=
    ⟨by decide, by decide, by decide, by decide, by decide, by decide, by decide⟩
  have valid' : ({ newYear with wYear := 10001 } : SYSTEMTIME).Valid :=
    ⟨by decide, by decide, by decide, by decide, by decide, by decide, by decide⟩
  have earlier : newYear < { newYear with wYear := 10001 } :=
    SYSTEMTIME.lt_iff.mpr (by decide)
  exact ⟨_, earlier, fun lesser => (earlier_stamp_lt_iff valid valid' earlier).mp lesser (by decide)⟩

/-- The time of each call is valid, and its year has four digits or not. -/
def Uniform (short : Prop) (time : SYSTEMTIME) : Prop :=
  time.Valid ∧ (time.wYear.toNat < 10000 ↔ short)

theorem Uniform.alike {short : Prop} {first second : SYSTEMTIME} (left : Uniform short first)
    (right : Uniform short second) : SameDigits first second :=
  left.2.trans right.2.symm

/-- For all sequences of calls whose years have the same number of digits, over
the same first text: the texts that they leave are ordered as the sequences of
their times, where a sequence comes before all that continue it. -/
theorem texts_ordered {formattedDebugging left right : List Char} {first second : List Call}
    (admissible : ∀ call ∈ first ++ second, call.Admissible)
    (alike : ∀ call ∈ first ++ second, ∀ other ∈ first ++ second, SameDigits call.time other.time)
    (leaves : formatAll formattedDebugging first = some left)
    (leaves' : formatAll formattedDebugging second = some right) :
    left < right ↔ first.map Call.time < second.map Call.time := by
  let short : Prop := ∃ call ∈ first ++ second, call.time.wYear.toNat < 10000
  have uniform : ∀ time ∈ (first ++ second).map Call.time, Uniform short time := by
    intro time member
    obtain ⟨call, listed, rfl⟩ := List.mem_map.mp member
    refine ⟨(admissible call listed).valid, fun year => ⟨call, listed, year⟩, ?_⟩
    rintro ⟨other, listed', year⟩
    exact (alike call listed other listed').mpr year
  rw [List.map_append, List.forall_mem_append] at uniform
  have nonempty {time : SYSTEMTIME} (holds : Uniform short time) : stamp time ≠ [] :=
    List.ne_nil_of_length_pos (stamp_length holds.1).1
  have ordered {x y : SYSTEMTIME} (s t : List Char) (holds : Uniform short x)
      (holds' : Uniform short y) : stamp x ++ s < stamp y ++ t ↔ x < y ∨ x = y ∧ s < t :=
    stamp_lt_iff s t holds.1 holds'.1 (holds.alike holds')
  obtain ⟨admissible, admissible'⟩ := List.forall_mem_append.mp admissible
  rw [formatAll_eq admissible, Option.some.injEq] at leaves
  rw [formatAll_eq admissible', Option.some.injEq] at leaves'
  have irrefl : ¬ formattedDebugging < formattedDebugging := List.lt_irrefl formattedDebugging
  rw [← leaves, ← leaves', append_lt_append_iff _ _ rfl, flatMap_lt_iff nonempty ordered uniform.1 uniform.2]
  simp only [irrefl, true_and, false_or]

theorem longer_text_later : ∃ left right, formatAll [] [⟨newYear, 25⟩] = some left ∧
    formatAll [] [⟨newYear, 25⟩, ⟨newYear, 30⟩] = some right ∧ left < right := by
  have valid : newYear.Valid :=
    ⟨by decide, by decide, by decide, by decide, by decide, by decide, by decide⟩
  have calls {call : Call} (listed : call ∈ [(⟨newYear, 25⟩ : Call)] ++ [⟨newYear, 25⟩, ⟨newYear, 30⟩]) :
      call.time = newYear ∧ 25 ≤ call.bufferSize := by
    simp only [List.cons_append, List.nil_append, List.mem_cons, List.not_mem_nil, or_false] at listed
    rcases listed with rfl | rfl | rfl <;> exact ⟨rfl, by decide⟩
  have leaves : formatAll [] [⟨newYear, 25⟩] = some _ := rfl
  have leaves' : formatAll [] [⟨newYear, 25⟩, ⟨newYear, 30⟩] = some _ := rfl
  refine ⟨_, _, leaves, leaves', (texts_ordered ?_ ?_ leaves leaves').mpr ?_⟩
  · intro call listed
    obtain ⟨same, room⟩ := calls listed
    exact ⟨same ▸ valid, room⟩
  · intro call listed other listed'
    rw [SameDigits, (calls listed).1, (calls listed').1]
  · exact List.cons_lt_cons_iff.mpr (.inr ⟨rfl, List.nil_lt_cons _ _⟩)

end Gymansie.DebugText
