import Gymansie.Printing

/-! The text that `formatDebuggingContext` accumulates: one time stamp for each
call, with nothing between them. The year ends at a hyphen and the milliseconds
always have three digits, so the stamps can be told apart again. -/
namespace Gymansie.DebugText
open Printing

/-- The members that are printed. -/
structure SYSTEMTIME where
  wYear : UInt16
  wMonth : UInt16
  wDay : UInt16
  wHour : UInt16
  wMinute : UInt16
  wSecond : UInt16
  wMilliseconds : UInt16
  deriving DecidableEq

namespace SYSTEMTIME

structure Valid (time : SYSTEMTIME) : Prop where
  year : 1601 ≤ time.wYear.toNat ∧ time.wYear.toNat ≤ 30827
  month : 1 ≤ time.wMonth.toNat ∧ time.wMonth.toNat ≤ 12
  day : 1 ≤ time.wDay.toNat ∧ time.wDay.toNat ≤ 31
  hour : time.wHour.toNat ≤ 23
  minute : time.wMinute.toNat ≤ 59
  second : time.wSecond.toNat ≤ 59
  milliseconds : time.wMilliseconds.toNat ≤ 999

def args (time : SYSTEMTIME) : List Nat :=
  [time.wYear.toNat, time.wMonth.toNat, time.wDay.toNat, time.wHour.toNat, time.wMinute.toNat,
    time.wSecond.toNat, time.wMilliseconds.toNat]

end SYSTEMTIME

/-- The text left in a buffer of `bufferSize` characters; none if it does not
fit with its terminator, where the content is not specified. -/
def swprintf (bufferSize : Nat) (format : String) (args : List Nat) : Option (List Char) :=
  let text := print (parse format.toList) args
  if text.length < bufferSize then some text else none

/-- `wcscat`, with room behind the text. -/
def dumpWString (wString wideChar : List Char) : List Char := wString ++ wideChar

def timeFormat : String := "%04u-%02u-%02u %02u:%02u:%02u.%03u"

def formatDebuggingContext (formattedDebugging : List Char) (time : SYSTEMTIME) (bufferSize : Nat) :
    Option (List Char) :=
  (swprintf bufferSize timeFormat time.args).map fun formatBuffer =>
    dumpWString formattedDebugging formatBuffer

/-- The arguments of a call that it reads. -/
structure Call where
  time : SYSTEMTIME
  bufferSize : Nat
  deriving DecidableEq

structure Call.Admissible (call : Call) : Prop where
  valid : call.time.Valid
  room : 25 ≤ call.bufferSize

/-- The accumulated text after calls in order. -/
def formatAll (formattedDebugging : List Char) : List Call → Option (List Char)
  | [] => some formattedDebugging
  | call :: calls =>
    (formatDebuggingContext formattedDebugging call.time call.bufferSize).bind (formatAll · calls)

/-! ### One stamp -/

def stamp (time : SYSTEMTIME) : List Char := print (parse timeFormat.toList) time.args

theorem parse_timeFormat : parse timeFormat.toList =
    [.padded 4, .char '-', .padded 2, .char '-', .padded 2, .char ' ', .padded 2, .char ':',
      .padded 2, .char ':', .padded 2, .char '.', .padded 3] := by
  decide

theorem args_injective : Function.Injective SYSTEMTIME.args := by
  intro first second same
  cases first
  cases second
  simpa only [SYSTEMTIME.args, List.cons.injEq, UInt16.toNat_inj, and_true, SYSTEMTIME.mk.injEq] using same

theorem legible_args {time : SYSTEMTIME} (valid : time.Valid) :
    Legible (parse timeFormat.toList) time.args := by
  have bounded := valid.milliseconds
  have fits : time.wMilliseconds.toNat < 10 ^ 3 := by omega
  rw [parse_timeFormat]
  -- all conversions but the last are followed by a separator
  exact ⟨.inl rfl, .inl rfl, .inl rfl, .inl rfl, .inl rfl, .inl rfl, .inr ⟨by decide, fits⟩, rfl⟩

theorem stamp_length {time : SYSTEMTIME} (valid : time.Valid) :
    0 < (stamp time).length ∧ (stamp time).length ≤ 24 := by
  obtain ⟨year, month, day, hour, minute, second, milliseconds⟩ := valid
  have years : (pad 4 time.wYear.toNat).length ≤ max 4 5 := pad_length_le (by decide) (by omega)
  have two {n : Nat} (small : n ≤ 59) : (pad 2 n).length = 2 := pad_length (by decide) (by omega)
  have three : (pad 3 time.wMilliseconds.toNat).length = 3 := pad_length (by decide) (by omega)
  simp only [stamp, parse_timeFormat, SYSTEMTIME.args, print, List.length_append, List.length_cons,
    List.length_nil]
  have months := two (show time.wMonth.toNat ≤ 59 by omega)
  have days := two (show time.wDay.toNat ≤ 59 by omega)
  have hours := two (show time.wHour.toNat ≤ 59 by omega)
  have minutes := two minute
  have seconds := two second
  omega

theorem stamp_unique {first second : SYSTEMTIME} {s t : List Char} (valid : first.Valid)
    (valid' : second.Valid) (same : stamp first ++ s = stamp second ++ t) : first = second := by
  obtain ⟨args, -⟩ := legible_unique (legible_args valid) (legible_args valid') same
  exact args_injective args

/-! ### The accumulated text -/

theorem formatDebuggingContext_eq {call : Call} (admissible : call.Admissible) (text : List Char) :
    formatDebuggingContext text call.time call.bufferSize = some (text ++ stamp call.time) := by
  have length := (stamp_length admissible.valid).2
  have room := admissible.room
  have fits : (stamp call.time).length < call.bufferSize := by omega
  unfold stamp at fits
  simp only [formatDebuggingContext, swprintf, fits, if_true, Option.map_some, dumpWString, stamp]

theorem formatAll_eq {calls : List Call} (admissible : ∀ call ∈ calls, call.Admissible)
    (text : List Char) :
    formatAll text calls = some (text ++ (calls.map Call.time).flatMap stamp) := by
  induction calls generalizing text with
  | nil => simp [formatAll]
  | cons call calls ih =>
    obtain ⟨head, rest⟩ := List.forall_mem_cons.mp admissible
    rw [formatAll, formatDebuggingContext_eq head, Option.bind_some, ih rest, List.map_cons,
      List.flatMap_cons, List.append_assoc]

/-- For every two sequences of calls with valid times and buffers that hold a
stamp, over the same first text: they leave the same text only if their times
are the same, one by one. -/
theorem text_determines_times (formattedDebugging : List Char) {first second : List Call}
    (admissible : ∀ call ∈ first, call.Admissible) (admissible' : ∀ call ∈ second, call.Admissible)
    (same : formatAll formattedDebugging first = formatAll formattedDebugging second) :
    first.map Call.time = second.map Call.time := by
  rw [formatAll_eq admissible, formatAll_eq admissible', Option.some.injEq] at same
  have nonempty {time : SYSTEMTIME} (valid : time.Valid) : stamp time ≠ [] :=
    List.ne_nil_of_length_pos (stamp_length valid).1
  have valid {calls : List Call} (admissible : ∀ call ∈ calls, call.Admissible) :
      ∀ time ∈ calls.map Call.time, time.Valid := by
    intro time member
    obtain ⟨call, listed, rfl⟩ := List.mem_map.mp member
    exact (admissible call listed).valid
  exact flatMap_unique nonempty stamp_unique (valid admissible) (valid admissible')
    (List.append_cancel_left same)

def newYear : SYSTEMTIME := ⟨2024, 1, 1, 0, 0, 0, 7⟩

example : stamp newYear = "2024-01-01 00:00:00.007".toList := by decide

/-- The size of a buffer that holds the stamp does not matter. -/
theorem text_determines_times_rooms :
    [(⟨newYear, 25⟩ : Call), ⟨newYear, 25⟩].map Call.time =
      [(⟨newYear, 30⟩ : Call), ⟨newYear, 25⟩].map Call.time := by
  have valid : newYear.Valid :=
    ⟨by decide, by decide, by decide, by decide, by decide, by decide, by decide⟩
  have admissible {bufferSize : Nat} (room : 25 ≤ bufferSize) :
      ∀ call ∈ [(⟨newYear, bufferSize⟩ : Call), ⟨newYear, 25⟩], call.Admissible := by
    intro call member
    rcases List.mem_pair.mp member with rfl | rfl
    · exact ⟨valid, room⟩
    · exact ⟨valid, Nat.le_refl 25⟩
  exact text_determines_times [] (admissible (Nat.le_refl 25)) (admissible (by decide)) (by decide)

end Gymansie.DebugText
