import Gymansie.SenderPops

/-! `checkSlotAvaliability` on the sender lists, over calls that may end by an
exception. A thread's list is empty again only when every call that recorded it
has returned normally: one call that ends by an exception leaves an entry for
good, because each later call pops what it has pushed. -/
namespace Gymansie.Senders
open CallStacks
variable {Thread Signal : Type}

/-- The loop over all `[thread, providers]`. -/
def checkSlotAvaliability (slots_ : UnorderedMap (Ptr Thread) (List (Ptr Signal))) : Bool :=
  Finmap.any (fun thread providers => thread.isSome && providers.isEmpty) slots_

variable [DecidableEq Thread]

theorem checkSlotAvaliability_eq (slots_ : UnorderedMap (Ptr Thread) (List (Ptr Signal))) :
    checkSlotAvaliability slots_ = true ↔ ∃ key, key ≠ none ∧ slots_.find? key = some [] := by
  rw [checkSlotAvaliability, UnorderedMap.any_iff]
  constructor
  · rintro ⟨key, providers, found, matched⟩
    obtain ⟨thread, empty⟩ := Bool.and_eq_true_iff.mp matched
    obtain rfl := List.isEmpty_iff.mp empty
    exact ⟨key, Option.isSome_iff_ne_none.mp thread, found⟩
  · rintro ⟨key, thread, found⟩
    exact ⟨key, [], found, by simpa using Option.isSome_iff_ne_none.mpr thread⟩

theorem find?_pushSender (provider : SlotProvider Thread Signal) (executingThread key : Thread)
    (signal : Ptr Signal) :
    ((pushSender provider executingThread signal).signalSenders.find? key).isSome =
      (decide (key = executingThread) || (provider.signalSenders.find? key).isSome) := by
  cases found : provider.signalSenders.find? executingThread <;>
    by_cases same : key = executingThread <;>
    simp [pushSender, UnorderedMap.find?_set, found, same]

theorem find?_popSender (provider : SlotProvider Thread Signal) (executingThread key : Thread) :
    ((popSender provider executingThread).signalSenders.find? key).isSome =
      (decide (key = executingThread) || (provider.signalSenders.find? key).isSome) := by
  by_cases same : key = executingThread <;> simp [popSender, UnorderedMap.find?_set, same]

theorem find?_eq_nil {provider : SlotProvider Thread Signal} {key : Thread} :
    provider.signalSenders.find? key = some [] ↔
      (provider.signalSenders.find? key).isSome ∧ (senders provider key).length = 0 := by
  cases found : provider.signalSenders.find? key <;> simp [senders, UnorderedMap.index, found]

/-- The step files a call under the key. -/
def UnwindingEvent.Enters (key : Thread) (world : World Thread Signal) :
    UnwindingEvent Thread Signal → Prop
  | .plain (.push thread) => ∃ signal, world.entering thread = some (key, signal)
  | _ => False

/-- The step ends a call filed under the key by an exception. -/
def UnwindingEvent.Unwinds (key : Thread) (world : World Thread Signal) :
    UnwindingEvent Thread Signal → Prop
  | .unwind thread => ∃ call, innermost world.calls thread = some call ∧ call.key = key
  | _ => False

theorem step_unique {world after after' : World Thread Signal}
    {event : UnwindingEvent Thread Signal} (first : UnwindingStep world event after)
    (second : UnwindingStep world event after') : after = after' := by
  cases first with
  | unwind => cases second with | unwind => rfl
  | plain step =>
    cases second with
    | plain step' =>
      cases step with
      | enter | query | moveToThread => cases step'; rfl
      | push entered =>
        cases step' with
        | push entered' =>
          obtain ⟨rfl, rfl⟩ := Prod.mk.inj (Option.some.inj (entered.symm.trans entered'))
          rfl
      | pop _ running =>
        cases step' with
        | pop _ running' =>
          obtain rfl := Option.some.inj (running.symm.trans running')
          rfl

/-- What the list of a key tells about the steps so far. -/
structure Kept (key : Thread) (entered unwound : Prop) (world : World Thread Signal) : Prop where
  present : (world.provider.signalSenders.find? key).isSome ↔ entered
  pending_le : pending world.calls key ≤ (senders world.provider key).length
  pending_lt : pending world.calls key < (senders world.provider key).length ↔ unwound

theorem Kept.present_of_pending {key : Thread} {world : World Thread Signal}
    (kept : Kept key entered unwound world) (filed : 0 < pending world.calls key) : entered := by
  apply kept.present.mp
  have entries := Nat.lt_of_lt_of_le filed kept.pending_le
  cases found : world.provider.signalSenders.find? key with
  | none => simp [senders, UnorderedMap.index, found] at entries
  | some _ => rfl

theorem kept_unwind {key thread : Thread} {world : World Thread Signal}
    (kept : Kept key entered unwound world) (running : innermost world.calls thread = some call) :
    Kept key entered (unwound ∨ call.key = key)
      ⟨world.provider, world.entering, leave world.calls thread⟩ := by
  have counted := pending_leave running key
  have entries := kept.pending_le
  refine ⟨kept.present, ?_, ?_⟩
  · change pending (leave world.calls thread) key ≤ (senders world.provider key).length
    omega
  · change pending (leave world.calls thread) key < (senders world.provider key).length ↔ _
    rw [← kept.pending_lt]
    by_cases same : key = call.key
    · rw [if_pos same] at counted
      exact iff_of_true (by omega) (.inr same.symm)
    · rw [if_neg same] at counted
      have other : call.key ≠ key := Ne.symm same
      simp only [other, or_false, counted, Nat.add_zero]

theorem kept_push {key thread : Thread} {world : World Thread Signal}
    (kept : Kept key entered unwound world) (executingThread : Thread) (signal : Ptr Signal)
    (entering : Thread → Option (Thread × Ptr Signal)) :
    Kept key (entered ∨ executingThread = key) unwound
      ⟨pushSender world.provider executingThread signal, entering,
        ⟨thread, executingThread, signal⟩ :: world.calls⟩ := by
  have entries := kept.pending_le
  refine ⟨?_, ?_, ?_⟩
  · rw [find?_pushSender, ← kept.present, Bool.or_eq_true, decide_eq_true_eq, or_comm]
    exact or_congr_right eq_comm
  · rw [senders_push, pending_cons]
    by_cases same : key = executingThread
    · rw [if_pos same, if_pos same, List.length_append, List.length_singleton]
      omega
    · rwa [if_neg same, if_neg same]
  · rw [senders_push, pending_cons, ← kept.pending_lt]
    by_cases same : key = executingThread
    · rw [if_pos same, if_pos same, List.length_append, List.length_singleton]
      exact Nat.add_lt_add_iff_right
    · rw [if_neg same, if_neg same, Nat.add_zero]

theorem kept_pop {key thread : Thread} {world : World Thread Signal}
    (kept : Kept key entered unwound world) (running : innermost world.calls thread = some call) :
    Kept key entered unwound
      ⟨popSender world.provider call.key, world.entering, leave world.calls thread⟩ := by
  have counted := pending_leave running key
  have entries := kept.pending_le
  refine ⟨?_, ?_, ?_⟩
  · rw [find?_popSender, ← kept.present, Bool.or_eq_true, decide_eq_true_eq]
    refine or_iff_right_of_imp fun same => kept.present.mpr (kept.present_of_pending ?_)
    rw [if_pos same] at counted
    omega
  · change pending (leave world.calls thread) key ≤ _
    rw [senders_pop]
    by_cases same : key = call.key
    · rw [if_pos same] at counted ⊢
      rw [List.length_dropLast]
      omega
    · rw [if_neg same] at counted ⊢
      omega
  · change pending (leave world.calls thread) key < _ ↔ _
    rw [senders_pop, ← kept.pending_lt]
    by_cases same : key = call.key
    · rw [if_pos same] at counted ⊢
      rw [List.length_dropLast]
      omega
    · rw [if_neg same] at counted ⊢
      rw [counted, Nat.add_zero]

theorem kept_step {key : Thread} {world after : World Thread Signal}
    {event : UnwindingEvent Thread Signal} (kept : Kept key entered unwound world)
    (step : UnwindingStep world event after) :
    Kept key (entered ∨ event.Enters key world) (unwound ∨ event.Unwinds key world) after := by
  cases step with
  | @unwind thread call ready running =>
    have ends : UnwindingEvent.Unwinds key world (.unwind thread) ↔ call.key = key := by
      simp [UnwindingEvent.Unwinds, running]
    simp only [ends, UnwindingEvent.Enters, or_false]
    exact kept_unwind kept running
  | plain step =>
    cases step with
    | enter | query | moveToThread =>
      simp only [UnwindingEvent.Enters, UnwindingEvent.Unwinds, or_false]
      exact ⟨kept.present, kept.pending_le, kept.pending_lt⟩
    | @push thread executingThread signal entering =>
      have files : UnwindingEvent.Enters key world (.plain (.push thread)) ↔ executingThread = key := by
        simp [UnwindingEvent.Enters, entering]
      simp only [files, UnwindingEvent.Unwinds, or_false]
      exact kept_push kept executingThread signal _
    | pop ready running =>
      simp only [UnwindingEvent.Enters, UnwindingEvent.Unwinds, or_false]
      exact kept_pop kept running

/-- Some call has been filed under the key. -/
def Entered (key thread : Thread) (events : List (UnwindingEvent Thread Signal)) : Prop :=
  Runs.Sometime UnwindingStep (fun world event => event.Enters key world) (start thread) events

/-- Some call filed under the key has ended by an exception. -/
def Unwound (key thread : Thread) (events : List (UnwindingEvent Thread Signal)) : Prop :=
  Runs.Sometime UnwindingStep (fun world event => event.Unwinds key world) (start thread) events

theorem kept_of_run (key : Thread) {thread : Thread} {world : World Thread Signal}
    {events : List (UnwindingEvent Thread Signal)}
    (run : Runs.Run UnwindingStep (start thread) events world) :
    Kept key (Entered key thread events) (Unwound key thread events) world := by
  induction run using Runs.Run.snoc_induction with
  | initial =>
    refine ⟨?_, Nat.zero_le _, ?_⟩
    · simp [start, Entered, Runs.not_sometime_nil]
    · simp [start, pending, senders, UnorderedMap.index, Unwound, Runs.not_sometime_nil]
  | @snoc events world event after run step kept =>
    rw [Entered, Unwound, Runs.sometime_snoc run step step_unique,
      Runs.sometime_snoc run step step_unique]
    exact kept_step kept step

/-- For every schedule: any threads, nesting, interleaving and moves, each call
ending either way. A slot is available exactly if a call has been filed under some
thread, not null, none filed there is left, and none of them has ever ended by an
exception. -/
theorem available_iff {thread : Ptr Thread} {world : World (Ptr Thread) Signal}
    {events : List (UnwindingEvent (Ptr Thread) Signal)}
    (run : Runs.Run UnwindingStep (start thread) events world) :
    checkSlotAvaliability world.provider.signalSenders = true ↔
      ∃ key, key ≠ none ∧ Entered key thread events ∧ pending world.calls key = 0 ∧
        ¬ Unwound key thread events := by
  rw [checkSlotAvaliability_eq]
  refine exists_congr fun key => and_congr_right fun _ => ?_
  obtain ⟨present, pending_le, pending_lt⟩ := kept_of_run key run
  rw [find?_eq_nil, present, ← pending_lt]
  refine and_congr_right fun _ => ?_
  omega

/-- A call in thread 1 returns, and one in thread 2, where the provider has moved,
is thrown out of. -/
def oneThrown : List (UnwindingEvent (Ptr Nat) Nat) :=
  [.plain (.enter (some 3) (some 5)), .plain (.push (some 3)), .plain (.pop (some 3)),
    .plain (.moveToThread (some 2)), .plain (.enter (some 3) (some 6)), .plain (.push (some 3)),
    .unwind (some 3)]

theorem available_one_thrown : ∃ world,
    Runs.Run UnwindingStep (start (some 1)) oneThrown world ∧
      ∃ key, key ≠ none ∧ Entered key (some 1) oneThrown ∧ pending world.calls key = 0 ∧
        ¬ Unwound key (some 1) oneThrown := by
  have run : Runs.Run UnwindingStep (start (some 1)) oneThrown _ :=
    .next (.plain (.enter rfl)) (.next (.plain (.push rfl)) (.next (.plain (.pop rfl rfl))
      (.next (.plain .moveToThread) (.next (.plain (.enter rfl)) (.next (.plain (.push rfl))
      (.next (.unwind rfl rfl) (.done _)))))))
  exact ⟨_, run, (available_iff run).mp (by decide)⟩

/-! ### How long the lists are -/

/-- Against the calls in progress, only a call that ends by an exception makes
the list of its key longer. -/
theorem entries_step {key : Thread} {world after : World Thread Signal}
    {event : UnwindingEvent Thread Signal} (backed : Backed world)
    (step : UnwindingStep world event after) :
    (event.Unwinds key world → (senders after.provider key).length + pending world.calls key =
        (senders world.provider key).length + pending after.calls key + 1) ∧
      (¬ event.Unwinds key world → (senders after.provider key).length + pending world.calls key =
        (senders world.provider key).length + pending after.calls key) := by
  have entries := backed key
  cases step with
  | @unwind thread call ready running =>
    have counted := pending_leave running key
    have ends : UnwindingEvent.Unwinds key world (.unwind thread) ↔ key = call.key := by
      simp [UnwindingEvent.Unwinds, running, eq_comm]
    rw [ends]
    constructor
    · intro same
      rw [if_pos same] at counted
      simp only [counted]
      omega
    · intro other
      rw [if_neg other] at counted
      simp only [counted, Nat.add_zero]
  | plain step =>
    refine ⟨fun absent => absent.elim, fun _ => ?_⟩
    cases step with
    | enter | query | moveToThread => rfl
    | @push thread executingThread signal entering =>
      rw [senders_push, pending_cons]
      split
      · rw [List.length_append, List.length_singleton]
        omega
      · omega
    | @pop thread call ready running =>
      have counted := pending_leave running key
      rw [senders_pop]
      simp only [counted]
      split
      · rename_i same
        rw [if_pos same] at counted
        rw [List.length_dropLast]
        omega
      · omega

/-- Of every key, the entries are the calls in progress and those that have ended
by an exception. -/
theorem entries_counted {key : Thread} {world after : World Thread Signal}
    {events : List (UnwindingEvent Thread Signal)} (backed : Backed world)
    (tally : Runs.Tally UnwindingStep (fun world event => event.Unwinds key world) world events n after) :
    (senders after.provider key).length + pending world.calls key =
      (senders world.provider key).length + pending after.calls key + n := by
  induction tally with
  | done => rfl
  | counted head meets _ ih =>
    have step := (entries_step backed head).1 meets
    have rest := ih (backed_unwinding backed head)
    omega
  | passed head fails _ ih =>
    have step := (entries_step backed head).2 fails
    have rest := ih (backed_unwinding backed head)
    omega

end Gymansie.Senders
