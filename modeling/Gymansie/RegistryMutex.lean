import Gymansie.Registry
import Gymansie.Mutex

/-! The registry operations with their locking. Every operation constructs a
`QMutexLocker` on the one `registry_mutex` after its null test, and its
destructor runs on each way out. `registerSlotProvider` calls
`generateSlotProviderId` from inside its own guarded block, and that call locks
again: this is the only point where a thread can block itself. -/
namespace Gymansie.Registry
open Mutex
variable {Id Provider Thread : Type}

inductive Operation (Id Provider : Type) where
  | registerSlotProvider (provider : Ptr Provider)
  | unregisterSlotProvider (provider_id : Ptr Id)
  | generateSlotProviderId (provider : Ptr Provider)
  | getSlotProviderById (provider_id : Ptr Id)
  | getSlotProviderMap

inductive Result (Id Provider : Type) where
  | flag (value : Bool)
  | handedOver (id : Id)
  | provider (value : Ptr Provider)
  | map (value : UnorderedMap Provider Provider)

/-- A block that runs under a `QMutexLocker`. The generator's block remembers
the registration it was called from, if any. -/
inductive Guarded (Id Provider : Type) where
  | register (provider : Provider)
  | unregister (provider_id : Id)
  | generate (caller : Option Provider)
  | getById (provider_id : Id)
  | getMap

inductive Control (Id Provider : Type) where
  -- no call in progress; the result of the last one, if there was one
  | returned (result : Option (Result Id Provider))
  | lock (block : Guarded Id Provider)
  | inside (block : Guarded Id Provider)
  -- back in `registerSlotProvider` with the generated id
  | store (provider : Provider) (id : Id)
  | unlock (next : Control Id Provider)

/-- The null test of each operation; the locker comes after it. -/
def enter : Operation Id Provider → Control Id Provider
  | .registerSlotProvider none => .returned (some (.flag false))
  | .registerSlotProvider (some provider) => .lock (.register provider)
  | .unregisterSlotProvider none => .returned (some (.flag false))
  | .unregisterSlotProvider (some provider_id) => .lock (.unregister provider_id)
  | .generateSlotProviderId _ => .lock (.generate none)
  | .getSlotProviderById none => .returned (some (.provider none))
  | .getSlotProviderById (some provider_id) => .lock (.getById provider_id)
  | .getSlotProviderMap => .lock .getMap

def handOver (id : Id) : Option Provider → Control Id Provider
  | none => .returned (some (.handedOver id))
  | some provider => .store provider id

variable [DecidableEq Id] [DecidableEq Provider]

def code (firstByte : Id → UInt8) :
    Control Id Provider → Action (SlotProviderRegistry Id Provider) (Control Id Provider)
  | .returned _ => .idle
  | .lock block => .request (.inside block)
  | .unlock next => .release next
  | .inside (.register provider) => .work fun reg after next =>
      after = reg ∧ next = .lock (.generate (some provider))
  -- one turn of the loop for any value drawn; the id handed over is left open
  | .inside (.generate caller) => .work fun reg after next =>
      after = reg ∧ ∃ drawn, if isUnique firstByte reg (UInt8.ofFin drawn)
        then ∃ id, next = .unlock (handOver id caller) else next = .inside (.generate caller)
  | .store provider id => .work fun reg after next =>
      after = (registerSlotProvider reg id (some provider)).2 ∧
        next = .unlock (.returned (some (.flag (registerSlotProvider reg id (some provider)).1)))
  | .inside (.unregister provider_id) => .work fun reg after next =>
      after = (unregisterSlotProvider reg (some provider_id)).2 ∧
        next = .unlock (.returned (some (.flag (unregisterSlotProvider reg (some provider_id)).1)))
  | .inside (.getById provider_id) => .work fun reg after next =>
      after = reg ∧
        next = .unlock (.returned (some (.provider (getSlotProviderById reg (some provider_id)))))
  | .inside .getMap => .work fun reg after next =>
      after = reg ∧ next = .unlock (.returned (some (.map (getSlotProviderMap reg))))

def program (firstByte : Id → UInt8) :
    Program (SlotProviderRegistry Id Provider) (Control Id Provider) (Operation Id Provider) :=
  ⟨code firstByte, enter⟩

def start (reg : SlotProviderRegistry Id Provider) :
    Config (SlotProviderRegistry Id Provider) (Control Id Provider) Thread :=
  ⟨none, reg, fun _ => .returned none⟩

def Covered : Control Id Provider → Prop
  | .returned _ | .unlock (.returned _) => True
  | .lock (.generate (some _)) | .inside (.generate (some _)) => False
  | .lock _ | .inside _ => True
  | .store _ _ | .unlock _ => False

def Held : Control Id Provider → Prop
  | .inside _ | .store _ _ | .unlock _ => True
  | .returned _ | .lock _ => False

/-- The thread does not go on from the guarded block of `registerSlotProvider`
to its call of `generateSlotProviderId`. -/
def StaysOut (c : Config (SlotProviderRegistry Id Provider) (Control Id Provider) Thread) :
    Label Thread (Operation Id Provider) → Prop
  | .call _ _ => True
  | .run t => ∀ provider, c.control t ≠ .inside (.register provider)

omit [DecidableEq Id] [DecidableEq Provider] in
theorem covered_inside (block : Guarded Id Provider) :
    Covered (.inside block) ↔ Covered (.lock block) := by
  cases block with
  | generate caller => cases caller <;> rfl
  | _ => rfl

omit [DecidableEq Id] [DecidableEq Provider] in
theorem covered_unlock {next : Control Id Provider} (covered : Covered (.unlock next)) :
    ∃ result, next = .returned result := by
  cases next with
  | returned result => exact ⟨result, rfl⟩
  | _ => exact covered.elim

theorem code_request {firstByte : Id → UInt8} {c next : Control Id Provider}
    (asks : code firstByte c = .request next) : ∃ block, c = .lock block ∧ next = .inside block := by
  cases c with
  | lock block => exact ⟨block, rfl, (Action.request.inj asks).symm⟩
  | inside block => cases block <;> contradiction
  | _ => contradiction

theorem code_release {firstByte : Id → UInt8} {c next : Control Id Provider}
    (leaves : code firstByte c = .release next) : c = .unlock next := by
  cases c with
  | unlock rest => rw [Action.release.inj leaves]
  | inside block => cases block <;> contradiction
  | _ => contradiction

/-- Apart from the nested call, the work of a covered point stays under the
lock, and ends at the locker's destructor or in the generator's loop. -/
theorem code_work {firstByte : Id → UInt8} {c next : Control Id Provider}
    {reg after : SlotProviderRegistry Id Provider} (covered : Covered c)
    (outside : ∀ provider, c ≠ .inside (.register provider))
    (works : code firstByte c = .work effect) (done : effect reg after next) :
    Held c ∧ Covered next ∧ Held next ∧ ∀ provider, next ≠ .inside (.register provider) := by
  cases c with
  | returned | lock | unlock => contradiction
  | store => exact covered.elim
  | inside block =>
    cases block with
    | register provider => exact absurd rfl (outside provider)
    | unregister | getById | getMap =>
      obtain rfl := Action.work.inj works
      obtain ⟨-, rfl⟩ := done
      exact ⟨trivial, trivial, trivial, nofun⟩
    | generate caller =>
      obtain rfl := Action.work.inj works
      obtain ⟨-, drawn, turned⟩ := done
      cases caller with
      | some provider => exact covered.elim
      | none =>
        split at turned
        · obtain ⟨id, rfl⟩ := turned
          exact ⟨trivial, trivial, trivial, nofun⟩
        · obtain rfl := turned
          exact ⟨trivial, trivial, trivial, nofun⟩

/-- Every operation may be called, as long as the nested call is not made. -/
def discipline (firstByte : Id → UInt8) :
    Discipline (program firstByte : Program (SlotProviderRegistry Id Provider) _ _) where
  covers := Covered
  holds := Held
  permitted _ := True
  allowed c := ∀ provider, c ≠ .inside (.register provider)
  enter := by
    intro op _
    rcases op with (_ | _) | (_ | _) | _ | (_ | _) | _ <;> exact ⟨trivial, fun held => held⟩
  request := by
    intro c next covered asks
    obtain ⟨block, rfl, rfl⟩ := code_request asks
    exact ⟨(covered_inside block).mpr covered, fun held => held, trivial⟩
  release := by
    intro c next covered leaves
    obtain rfl := code_release leaves
    obtain ⟨result, rfl⟩ := covered_unlock covered
    exact ⟨trivial, trivial, fun held => held⟩
  work := by
    intro c effect reg after next covered outside works done
    obtain ⟨held, coveredNext, heldNext, -⟩ := code_work covered outside works done
    exact ⟨coveredNext, iff_of_true heldNext held⟩
  idle := by
    intro c covered ready held
    cases c with
    | returned | lock => exact held
    | inside block => cases block <;> contradiction
    | _ => contradiction

/-- Every step may be taken, as long as no provider is registered. -/
def unregisteringDiscipline (firstByte : Id → UInt8) :
    Discipline (program firstByte : Program (SlotProviderRegistry Id Provider) _ _) where
  covers c := Covered c ∧ ∀ provider, c ≠ .lock (.register provider) ∧ c ≠ .inside (.register provider)
  holds := Held
  permitted op := ∀ provider, op ≠ .registerSlotProvider (some provider)
  allowed _ := True
  enter := by
    intro op permitted
    refine ⟨⟨((discipline firstByte).enter op trivial).1, ?_⟩, ((discipline firstByte).enter op trivial).2⟩
    rcases op with (_ | provider) | (_ | _) | _ | (_ | _) | _
    case registerSlotProvider.some => exact absurd rfl (permitted provider)
    all_goals exact fun _ => ⟨nofun, nofun⟩
  request := by
    intro c next covered asks
    obtain ⟨block, rfl, rfl⟩ := code_request asks
    refine ⟨⟨(covered_inside block).mpr covered.1, fun provider => ⟨nofun, ?_⟩⟩, fun held => held, trivial⟩
    intro registering
    exact (covered.2 provider).1 (congrArg Control.lock (Control.inside.inj registering))
  release := by
    intro c next covered leaves
    obtain rfl := code_release leaves
    obtain ⟨result, rfl⟩ := covered_unlock covered.1
    exact ⟨⟨trivial, fun _ => ⟨nofun, nofun⟩⟩, trivial, fun held => held⟩
  work := by
    intro c effect reg after next covered _ works done
    obtain ⟨held, coveredNext, heldNext, outside⟩ :=
      code_work covered.1 (fun provider => (covered.2 provider).2) works done
    refine ⟨⟨coveredNext, fun provider => ⟨?_, outside provider⟩⟩, iff_of_true heldNext held⟩
    rintro rfl
    exact heldNext
  idle covered ready := (discipline firstByte).idle covered.1 ready

theorem start_inv (firstByte : Id → UInt8) (reg : SlotProviderRegistry Id Provider) :
    (discipline firstByte).Inv (start reg : Config _ _ Thread) :=
  fun _ => ⟨trivial, iff_of_false (fun held => held) (by simp [start])⟩

theorem allows_iff (firstByte : Id → UInt8)
    (c : Config (SlotProviderRegistry Id Provider) (Control Id Provider) Thread)
    (label : Label Thread (Operation Id Provider)) :
    (discipline firstByte).Allows c label ↔ StaysOut c label := by
  cases label with
  | call t op => exact Iff.rfl
  | run t =>
    refine ⟨fun allows provider inside => ?_, fun outside _ => outside⟩
    exact allows ⟨_, by rw [inside]; rfl⟩ provider inside

variable [DecidableEq Thread]

/-- The nested call asks for the lock its own thread owns. -/
theorem safe_staysOut {firstByte : Id → UInt8}
    {c after : Config (SlotProviderRegistry Id Provider) (Control Id Provider) Thread}
    {label : Label Thread (Operation Id Provider)} (inv : (discipline firstByte).Inv c)
    (step : Mutex.Step (program firstByte) c label after) (safe : Safe (program firstByte) after) :
    StaysOut c label := by
  cases step with
  | call ready => trivial
  | @acquire t next asks free =>
    intro provider inside
    obtain ⟨block, locked, -⟩ := code_request asks
    rw [inside] at locked
    contradiction
  | @release t next leaves owned =>
    intro provider inside
    have leaving := code_release leaves
    rw [inside] at leaving
    contradiction
  | @work t effect reg next works done =>
    intro provider inside
    have owned : c.owner = some t := (inv t).2.mp (by rw [inside]; trivial)
    simp only [program, inside, code, Action.work.injEq] at works
    subst works
    obtain ⟨rfl, rfl⟩ := done
    exact safe.request t (.inside (.generate (some provider))) (by simp [program, code]) owned

/-- Any number of threads, any interleaving and arguments, over any registry. -/
theorem registry_safe_iff (firstByte : Id → UInt8) (reg : SlotProviderRegistry Id Provider)
    (labels : List (Label Thread (Operation Id Provider))) :
    Runs.Always (Mutex.Step (program firstByte)) (Safe (program firstByte)) (start reg) labels ↔
      Runs.Each (Mutex.Step (program firstByte)) StaysOut (start reg) labels := by
  rw [← Runs.each_congr (allows_iff firstByte)]
  apply (discipline firstByte).always_safe_iff (start_inv firstByte reg)
  intro c after label inv step safe
  exact (allows_iff firstByte c label).mpr (safe_staysOut inv step safe)

theorem null_registrations_safe (firstByte : Id → UInt8) (reg : SlotProviderRegistry Id Provider)
    {labels : List (Label Thread (Operation Id Provider))}
    (null : ∀ t provider, .call t (.registerSlotProvider (some provider)) ∉ labels) :
    Runs.Always (Mutex.Step (program firstByte)) (Safe (program firstByte)) (start reg) labels := by
  apply (unregisteringDiscipline firstByte).always_safe
  · exact fun _ => ⟨⟨trivial, fun _ => ⟨nofun, nofun⟩⟩, iff_of_false (fun held => held) (by simp [start])⟩
  · rintro before label after c d rfl - -
    cases label with
    | call t op =>
      rintro provider rfl
      exact null t provider (by simp)
    | run t => exact fun _ => trivial

theorem registration_requests_again {firstByte : Id → UInt8}
    {c : Config (SlotProviderRegistry Id Provider) (Control Id Provider) Thread} {t : Thread}
    (ready : c.control t = .returned result) (free : c.owner = none) (provider : Provider) :
    ∃ after, Runs.Run (Mutex.Step (program firstByte)) c
      [.call t (.registerSlotProvider (some provider)), .run t, .run t] after ∧
      ¬ Safe (program firstByte) after := by
  have called : Mutex.Step (program firstByte) c (.call t (.registerSlotProvider (some provider))) _ :=
    .call (by rw [ready]; rfl)
  have locked : Mutex.Step (program firstByte)
      { c with control := Function.update c.control t (.lock (.register provider)) } (.run t) _ :=
    .acquire (by simp only [Function.update_self]; rfl) free
  have nested : Mutex.Step (program firstByte)
      ⟨some t, c.shared, Function.update (Function.update c.control t (.lock (.register provider))) t
        (.inside (.register provider))⟩ (.run t)
      ⟨some t, c.shared, Function.update (Function.update (Function.update c.control t
        (.lock (.register provider))) t (.inside (.register provider))) t
        (.lock (.generate (some provider)))⟩ := by
    apply Mutex.Step.work
    · simp only [Function.update_self]
      rfl
    · exact ⟨rfl, rfl⟩
  refine ⟨_, .next called (.next locked (.next nested (.done _))), ?_⟩
  intro safe
  exact safe.request t _ (by simp only [Function.update_self]; rfl) rfl

theorem registration_blocks_itself :
    ¬ Runs.Always (Mutex.Step (program fun id_str : UInt8 => id_str))
      (Safe (program fun id_str : UInt8 => id_str))
      (start ∅ : Config (SlotProviderRegistry UInt8 Nat) (Control UInt8 Nat) Nat)
      [.call 0 (.registerSlotProvider (some 7)), .run 0, .run 0] := by
  intro always
  have ready : (start ∅ : Config (SlotProviderRegistry UInt8 Nat) (Control UInt8 Nat) Nat).control 0 =
      .returned none := rfl
  obtain ⟨after, run, blocked⟩ := registration_requests_again ready rfl 7
  exact blocked (always _ [] after (List.append_nil _).symm run)

end Gymansie.Registry
