import Mathlib.Algebra.Group.Nat.Defs
import Mathlib.Data.List.Basic

/-! Texts printed from a format, and records that can be told apart in a
concatenation. A format consists of characters and of conversions to padded
decimals. A conversion can be read back if a character that is no digit follows,
or if the number needs no more digits than the padding gives it. -/
namespace Gymansie.Printing
universe u v
variable {α : Type u} {β : Type v}

/-! ### Padded decimals -/

/-- `n` in decimal, with zeros in front up to `width` digits. -/
def pad (width n : Nat) : List Char := (Nat.toDigits 10 n).leftpad width '0'

theorem ofDigitChars_pad (width n : Nat) : Nat.ofDigitChars 10 (pad width n) 0 = n := by
  simp [pad, List.leftpad, Nat.ofDigitChars_append]

theorem pad_injective (width : Nat) : Function.Injective (pad width) := by
  intro m n same
  calc
    m = Nat.ofDigitChars 10 (pad width m) 0 := (ofDigitChars_pad width m).symm
    _ = Nat.ofDigitChars 10 (pad width n) 0 := by rw [same]
    _ = n := ofDigitChars_pad width n

theorem isDigit_of_mem_pad {width n : Nat} (member : c ∈ pad width n) : c.isDigit = true := by
  rcases List.mem_append.mp member with zero | digit
  · rw [List.eq_of_mem_replicate zero]
    decide
  · exact Nat.isDigit_of_mem_toDigits (by decide) (by decide) digit

theorem pad_length_le {width n digits : Nat} (positive : 0 < digits) (fits : n < 10 ^ digits) :
    (pad width n).length ≤ max width digits := by
  have short := (Nat.length_toDigits_le_iff (by decide) positive).mpr fits
  rw [pad, List.length_leftpad]
  omega

theorem pad_length {width n : Nat} (positive : 0 < width) (fits : n < 10 ^ width) :
    (pad width n).length = width := by
  have upper : (pad width n).length ≤ max width width := pad_length_le positive fits
  have lower : width ≤ (pad width n).length := by
    rw [pad, List.length_leftpad]
    exact Nat.le_max_left _ _
  omega

/-! ### Formats -/

inductive Piece where
  | char (c : Char)
  /-- A decimal of an unsigned number. -/
  | padded (width : Nat)
  deriving DecidableEq

/-- The pieces of a format string whose conversions are all of the form `%0Nu`,
with one digit for the width. -/
def parse : List Char → List Piece
  | '%' :: '0' :: width :: 'u' :: rest => .padded (width.toNat - '0'.toNat) :: parse rest
  | c :: rest => .char c :: parse rest
  | [] => []

def print : List Piece → List Nat → List Char
  | [], _ => []
  | .char c :: pieces, args => c :: print pieces args
  | .padded width :: pieces, n :: args => pad width n ++ print pieces args
  | .padded _ :: _, [] => []

/-- A character that is no digit comes first. -/
def Terminated : List Piece → Prop
  | .char c :: _ => c.isDigit = false
  | _ => False

/-- There is an argument for each conversion, and each can be read back. -/
def Legible : List Piece → List Nat → Prop
  | [], args => args = []
  | .char _ :: pieces, args => Legible pieces args
  | .padded width :: pieces, n :: args =>
    (Terminated pieces ∨ 0 < width ∧ n < 10 ^ width) ∧ Legible pieces args
  | .padded _ :: _, [] => False

/-- What stands before the first element outside a class. -/
theorem terminated_unique {p : β → Bool} {xs ys s t : List β} (inside : ∀ x ∈ xs, p x = true)
    (inside' : ∀ y ∈ ys, p y = true) (stop : p c = false) (same : xs ++ c :: s = ys ++ c :: t) :
    xs = ys := by
  have taken := congrArg (List.takeWhile p) same
  rw [List.takeWhile_append_of_pos inside, List.takeWhile_append_of_pos inside'] at taken
  simpa only [List.takeWhile_cons, stop, Bool.false_eq_true, if_false, List.append_nil] using taken

theorem print_terminated {pieces : List Piece} (ends : Terminated pieces) :
    ∃ c, c.isDigit = false ∧ ∀ args, ∃ rest, print pieces args = c :: rest := by
  cases pieces with
  | nil => exact ends.elim
  | cons piece pieces =>
    cases piece with
    | char c => exact ⟨c, ends, fun args => ⟨print pieces args, rfl⟩⟩
    | padded width => exact ends.elim

theorem pad_unique {pieces : List Piece} {width m n : Nat} {xs ys : List Nat} {s t : List Char}
    (first : Terminated pieces ∨ 0 < width ∧ m < 10 ^ width)
    (second : Terminated pieces ∨ 0 < width ∧ n < 10 ^ width)
    (same : pad width m ++ (print pieces xs ++ s) = pad width n ++ (print pieces ys ++ t)) :
    m = n := by
  apply pad_injective width
  by_cases ends : Terminated pieces
  · obtain ⟨c, stop, printed⟩ := print_terminated ends
    obtain ⟨rest, behind⟩ := printed xs
    obtain ⟨rest', behind'⟩ := printed ys
    rw [behind, behind'] at same
    exact terminated_unique (fun _ => isDigit_of_mem_pad) (fun _ => isDigit_of_mem_pad) stop same
  · obtain ⟨positive, fits⟩ := first.resolve_left ends
    obtain ⟨-, fits'⟩ := second.resolve_left ends
    exact List.append_inj_left same ((pad_length positive fits).trans (pad_length positive fits').symm)

/-- Behind legible arguments any rest can be told apart from them. -/
theorem legible_unique {pieces : List Piece} {xs ys : List Nat} {s t : List Char}
    (first : Legible pieces xs) (second : Legible pieces ys)
    (same : print pieces xs ++ s = print pieces ys ++ t) : xs = ys ∧ s = t := by
  induction pieces generalizing xs ys with
  | nil =>
    obtain rfl : xs = [] := first
    obtain rfl : ys = [] := second
    exact ⟨rfl, same⟩
  | cons piece pieces ih =>
    cases piece with
    | char c => exact ih first second (List.cons.inj same).2
    | padded width =>
      cases xs with
      | nil => exact first.elim
      | cons m xs =>
        cases ys with
        | nil => exact second.elim
        | cons n ys =>
          obtain ⟨ends, first⟩ := first
          obtain ⟨ends', second⟩ := second
          rw [print, print, List.append_assoc, List.append_assoc] at same
          obtain rfl := pad_unique ends ends' same
          obtain ⟨rfl, rest⟩ := ih first second (List.append_cancel_left same)
          exact ⟨rfl, rest⟩

/-! ### Concatenations -/

/-- Values whose texts are not empty and can be told apart from any rest behind
them are told apart in sequences too. -/
theorem flatMap_unique {encode : α → List β} {P : α → Prop} {xs ys : List α}
    (nonempty : ∀ {x}, P x → encode x ≠ [])
    (unique : ∀ {x y s t}, P x → P y → encode x ++ s = encode y ++ t → x = y)
    (first : ∀ x ∈ xs, P x) (second : ∀ y ∈ ys, P y)
    (same : xs.flatMap encode = ys.flatMap encode) : xs = ys := by
  induction xs generalizing ys with
  | nil =>
    cases ys with
    | nil => rfl
    | cons y ys =>
      obtain ⟨empty, -⟩ := List.append_eq_nil_iff.mp same.symm
      exact absurd empty (nonempty (second y List.mem_cons_self))
  | cons x xs ih =>
    cases ys with
    | nil =>
      obtain ⟨empty, -⟩ := List.append_eq_nil_iff.mp same
      exact absurd empty (nonempty (first x List.mem_cons_self))
    | cons y ys =>
      obtain ⟨head, rest⟩ := List.forall_mem_cons.mp first
      obtain ⟨head', rest'⟩ := List.forall_mem_cons.mp second
      rw [List.flatMap_cons, List.flatMap_cons] at same
      obtain rfl := unique head head' same
      rw [ih rest rest' (List.append_cancel_left same)]

end Gymansie.Printing
