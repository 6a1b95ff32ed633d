import Gymansie.Printing
import Mathlib.Data.Nat.Init
import Mathlib.Tactic.Tauto

/-! The order of printed texts, character by character. Numbers that fit their
padding are ordered as the texts are, and so are records of them and sequences of
records. A number with one digit more is compared by its leading digits. -/
namespace Gymansie.Printing
universe u v
variable {α : Type u} {β : Type v}

theorem append_lt_append_iff [LT β] {xs ys : List β} (s t : List β) (alike : xs.length = ys.length) :
    xs ++ s < ys ++ t ↔ xs < ys ∨ xs = ys ∧ s < t := by
  induction xs generalizing ys with
  | nil =>
    obtain rfl := List.length_eq_zero_iff.mp alike.symm
    simp
  | cons x xs ih =>
    cases ys with
    | nil => simp at alike
    | cons y ys =>
      have shorter : xs.length = ys.length := by simpa using alike
      rw [List.cons_append, List.cons_append, List.cons_lt_cons_iff, List.cons_lt_cons_iff, ih shorter,
        List.cons.injEq]
      tauto

/-! ### Padded decimals -/

theorem digitChar_lt_iff {m n : Nat} (small : m < 10) (small' : n < 10) :
    m.digitChar < n.digitChar ↔ m < n := by
  rw [Char.lt_def, UInt32.lt_iff_toNat_lt]
  change m.digitChar.toNat < n.digitChar.toNat ↔ m < n
  rw [Nat.toNat_digitChar_of_lt_ten small, Nat.toNat_digitChar_of_lt_ten small']
  omega

theorem pad_of_lt {n : Nat} (small : n < 10) : pad 1 n = [n.digitChar] := by
  simp [pad, Nat.toDigits_of_lt_base small, List.leftpad]

/-- The last digit on its own. -/
theorem pad_succ {width : Nat} (positive : 0 < width) (n : Nat) :
    pad (width + 1) n = pad width (n / 10) ++ [(n % 10).digitChar] := by
  by_cases small : n < 10
  · have zeros : List.replicate width '0' = List.replicate (width - 1) '0' ++ ['0'] := by
      rw [← List.replicate_succ', Nat.sub_add_cancel positive]
    rw [Nat.div_eq_of_lt small, Nat.mod_eq_of_lt small]
    simp [pad, Nat.toDigits_of_lt_base small, List.leftpad, zeros]
  · rw [pad, pad, Nat.toDigits_of_base_le (by decide) (by omega)]
    simp [List.leftpad]

theorem pad_lt_iff {width m n : Nat} (positive : 0 < width) (fits : m < 10 ^ width)
    (fits' : n < 10 ^ width) : pad width m < pad width n ↔ m < n := by
  induction width, positive using Nat.le_induction generalizing m n with
  | base =>
    rw [pad_of_lt fits, pad_of_lt fits', List.cons_lt_cons_iff, digitChar_lt_iff fits fits']
    simp
  | succ width positive ih =>
    have shorter {n : Nat} (fits : n < 10 ^ (width + 1)) : n / 10 < 10 ^ width := by
      rw [Nat.pow_succ] at fits
      omega
    have alike : (pad width (m / 10)).length = (pad width (n / 10)).length := by
      rw [pad_length positive (shorter fits), pad_length positive (shorter fits')]
    rw [pad_succ positive, pad_succ positive, append_lt_append_iff _ _ alike,
      ih (shorter fits) (shorter fits'), (pad_injective width).eq_iff, List.cons_lt_cons_iff,
      digitChar_lt_iff (Nat.mod_lt _ (by decide)) (Nat.mod_lt _ (by decide))]
    simp only [List.not_lt_nil, and_false, or_false]
    omega

/-- A number with more digits than the padding gives is not padded. -/
theorem pad_succ_of_le {width n : Nat} (positive : 0 < width) (large : 10 ^ width ≤ n) :
    pad (width + 1) n = pad width n := by
  have long : width < (Nat.toDigits 10 n).length := by
    by_contra short
    have fits := (Nat.length_toDigits_le_iff (by decide) positive).mp (Nat.le_of_not_lt short)
    omega
  have none : width - (Nat.toDigits 10 n).length = 0 := by omega
  have none' : width + 1 - (Nat.toDigits 10 n).length = 0 := by omega
  rw [pad, pad, List.leftpad, List.leftpad, none, none']

section Wider
variable {width m n : Nat} {stop : Char} {s t : List Char}

/-- A number with one digit more, split before its last digit. -/
theorem pad_wider (positive : 0 < width) (large : 10 ^ width ≤ n) :
    pad width n = pad width (n / 10) ++ [(n % 10).digitChar] := by
  rw [← pad_succ_of_le positive large, pad_succ positive]

theorem stop_lt_digitChar (n : Nat) (low : stop < '0') : stop < (n % 10).digitChar := by
  rw [Char.lt_def, UInt32.lt_iff_toNat_lt] at low ⊢
  change stop.toNat < (n % 10).digitChar.toNat
  rw [Nat.toNat_digitChar_of_lt_ten (Nat.mod_lt n (by decide))]
  change stop.toNat < 48 at low
  omega

theorem pad_lt_wider_iff (positive : 0 < width) (fits : m < 10 ^ width) (large : 10 ^ width ≤ n)
    (wider : n < 10 ^ (width + 1)) (low : stop < '0') :
    pad width m ++ stop :: s < pad width n ++ t ↔ m ≤ n / 10 := by
  have leading : n / 10 < 10 ^ width := by
    rw [Nat.pow_succ] at wider
    omega
  have alike : (pad width m).length = (pad width (n / 10)).length := by
    rw [pad_length positive fits, pad_length positive leading]
  rw [pad_wider positive large, List.append_assoc, List.singleton_append, append_lt_append_iff _ _ alike,
    pad_lt_iff positive fits leading, (pad_injective width).eq_iff, List.cons_lt_cons_iff]
  simp only [stop_lt_digitChar n low, true_or, and_true]
  omega

end Wider

/-! ### Records and sequences -/

/-- There is an argument for each conversion, and each fits its padding. -/
def Fits : List Piece → List Nat → Prop
  | [], args => args = []
  | .char _ :: pieces, args => Fits pieces args
  | .padded width :: pieces, n :: args => 0 < width ∧ n < 10 ^ width ∧ Fits pieces args
  | .padded _ :: _, [] => False

/-- Records of numbers that fit are ordered as the lists of the numbers. -/
theorem print_lt_iff {pieces : List Piece} {xs ys : List Nat} (s t : List Char)
    (first : Fits pieces xs) (second : Fits pieces ys) :
    print pieces xs ++ s < print pieces ys ++ t ↔ xs < ys ∨ xs = ys ∧ s < t := by
  induction pieces generalizing xs ys with
  | nil =>
    obtain rfl : xs = [] := first
    obtain rfl : ys = [] := second
    simp [print]
  | cons piece pieces ih =>
    cases piece with
    | char c =>
      rw [print, print, List.cons_append, List.cons_append, List.cons_lt_cons_self]
      exact ih first second
    | padded width =>
      cases xs with
      | nil => exact first.elim
      | cons m xs =>
        cases ys with
        | nil => exact second.elim
        | cons n ys =>
          obtain ⟨positive, fits, first⟩ := first
          obtain ⟨-, fits', second⟩ := second
          have alike : (pad width m).length = (pad width n).length := by
            rw [pad_length positive fits, pad_length positive fits']
          rw [print, print, List.append_assoc, List.append_assoc, append_lt_append_iff _ _ alike,
            pad_lt_iff positive fits fits', (pad_injective width).eq_iff, ih first second,
            List.cons_lt_cons_iff, List.cons.injEq]
          tauto

/-- Values whose texts are ordered as they are, before any rest, make sequences
whose texts are ordered as the sequences. -/
theorem flatMap_lt_iff [LT α] [LT β] {encode : α → List β} {P : α → Prop} {xs ys : List α}
    (nonempty : ∀ {x}, P x → encode x ≠ [])
    (ordered : ∀ {x y} s t, P x → P y → (encode x ++ s < encode y ++ t ↔ x < y ∨ x = y ∧ s < t))
    (first : ∀ x ∈ xs, P x) (second : ∀ y ∈ ys, P y) :
    xs.flatMap encode < ys.flatMap encode ↔ xs < ys := by
  induction xs generalizing ys with
  | nil =>
    cases ys with
    | nil => simp
    | cons y ys =>
      obtain ⟨c, rest, text⟩ := List.exists_cons_of_ne_nil (nonempty (second y List.mem_cons_self))
      simp [text]
  | cons x xs ih =>
    cases ys with
    | nil => simp
    | cons y ys =>
      obtain ⟨head, rest⟩ := List.forall_mem_cons.mp first
      obtain ⟨head', rest'⟩ := List.forall_mem_cons.mp second
      rw [List.flatMap_cons, List.flatMap_cons, ordered _ _ head head', ih rest rest',
        List.cons_lt_cons_iff]

end Gymansie.Printing
