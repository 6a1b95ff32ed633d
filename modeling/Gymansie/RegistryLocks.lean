import Gymansie.LockedCalls

/-! The two accounts of the registry's locking agree: whatever values the
operations compute, each of them requests and releases `registry_mutex` as its
lock code says, and nothing else is requested or released. -/
namespace Gymansie.LockedCalls
open LockOrder
variable {Id Provider Promise Thread : Type}

/-- The requests and releases ahead of a point of the registry's operations. -/
def registryAhead : Registry.Control Id Provider → List (Op (Lock Provider Promise))
  | .returned _ => []
  | .lock (.register _) =>
    [.request .registryMutex, .request .registryMutex, .release .registryMutex, .release .registryMutex]
  | .inside (.register _) | .lock (.generate (some _)) =>
    [.request .registryMutex, .release .registryMutex, .release .registryMutex]
  | .inside (.generate (some _)) => [.release .registryMutex, .release .registryMutex]
  | .lock _ => [.request .registryMutex, .release .registryMutex]
  | .inside _ | .store _ _ => [.release .registryMutex]
  | .unlock next => .release .registryMutex :: registryAhead next

theorem registryAhead_enter (operation : Registry.Operation Id Provider) :
    (registryAhead (Registry.enter operation) : List (Op (Lock Provider Promise))) =
      (registryCode operation).ops := by
  rcases operation with (_ | _) | (_ | _) | _ | (_ | _) | _ <;> rfl

/-- The mutexes as the registry's threads see them. -/
def registryConfig (c : Mutex.Config (Registry.SlotProviderRegistry Id Provider)
    (Registry.Control Id Provider) Thread) : Config (Lock Provider Promise) Thread where
  owner
    | .registryMutex => c.owner
    | _ => none
  ahead t := registryAhead (c.control t)

theorem registryConfig_update [DecidableEq Thread] (owner : Option Thread)
    (reg : Registry.SlotProviderRegistry Id Provider) (control : Thread → Registry.Control Id Provider)
    (t : Thread) (next : Registry.Control Id Provider) :
    (registryConfig ⟨owner, reg, Function.update control t next⟩ :
        Config (Lock Provider Promise) Thread) =
      ⟨(registryConfig ⟨owner, reg, control⟩ : Config (Lock Provider Promise) Thread).owner,
        Function.update (fun t => registryAhead (control t)) t (registryAhead next)⟩ := by
  refine congrArg (Config.mk _) ?_
  funext u
  by_cases same : u = t
  · subst u
    simp
  · simp [same]

theorem registryOwner_update [DecidableEq Provider] [DecidableEq Promise]
    (before owner : Option Thread) (reg : Registry.SlotProviderRegistry Id Provider)
    (control : Thread → Registry.Control Id Provider) :
    (registryConfig ⟨owner, reg, control⟩ : Config (Lock Provider Promise) Thread).owner =
      Function.update (registryConfig ⟨before, reg, control⟩).owner .registryMutex owner := by
  funext lock
  cases lock <;> simp [registryConfig]

section Code
variable [DecidableEq Id] [DecidableEq Provider] {firstByte : Id → UInt8}
  {point next : Registry.Control Id Provider}

theorem registryAhead_request (asks : Registry.code firstByte point = .request next) :
    (registryAhead point : List (Op (Lock Provider Promise))) =
      .request .registryMutex :: registryAhead next := by
  obtain ⟨block, rfl, rfl⟩ := Registry.code_request asks
  cases block with
  | generate caller => cases caller <;> rfl
  | _ => rfl

theorem registryAhead_release (leaves : Registry.code firstByte point = .release next) :
    (registryAhead point : List (Op (Lock Provider Promise))) =
      .release .registryMutex :: registryAhead next := by
  rw [Registry.code_release leaves, registryAhead]

theorem registryAhead_work {reg after : Registry.SlotProviderRegistry Id Provider}
    (works : Registry.code firstByte point = .work effect) (done : effect reg after next) :
    (registryAhead next : List (Op (Lock Provider Promise))) = registryAhead point := by
  cases point with
  | returned | lock | unlock => contradiction
  | store provider id =>
    obtain rfl := Mutex.Action.work.inj works
    obtain ⟨-, rfl⟩ := done
    rfl
  | inside block =>
    cases block with
    | generate caller =>
      obtain rfl := Mutex.Action.work.inj works
      obtain ⟨-, drawn, turned⟩ := done
      split at turned
      · obtain ⟨id, rfl⟩ := turned
        cases caller <;> rfl
      · rw [turned]
    | _ =>
      obtain rfl := Mutex.Action.work.inj works
      obtain ⟨-, rfl⟩ := done
      rfl

variable [DecidableEq Thread] [DecidableEq Promise]
  {c d : Mutex.Config (Registry.SlotProviderRegistry Id Provider) (Registry.Control Id Provider) Thread}

omit [DecidableEq Promise] in
/-- A call puts the lock code of its operation ahead of the thread. -/
theorem registry_call (step : Mutex.Step (Registry.program firstByte) c (.call t operation) d) :
    (registryConfig d : Config (Lock Provider Promise) Thread) =
      ⟨(registryConfig c).owner,
        Function.update (registryConfig c).ahead t (registryCode operation).ops⟩ := by
  cases step with
  | call ready =>
    rw [registryConfig_update, Registry.program, registryAhead_enter]
    rfl

/-- A step inside a call is one of its lock code, or touches no lock. -/
theorem registry_step (step : Mutex.Step (Registry.program firstByte) c (.run t) d) :
    Step (registryConfig c : Config (Lock Provider Promise) Thread) t (registryConfig d) ∨
      (registryConfig d : Config (Lock Provider Promise) Thread) = registryConfig c := by
  cases step with
  | acquire asks free =>
    rw [registryConfig_update, registryOwner_update c.owner]
    exact .inl (.request (registryAhead_request asks) free)
  | release leaves owned =>
    rw [registryConfig_update, registryOwner_update c.owner]
    exact .inl (.release (registryAhead_release leaves) owned)
  | work works done =>
    right
    rw [registryConfig_update, registryAhead_work works done]
    exact congrArg (Config.mk _) (Function.update_eq_self ..)

/-- However long the calls in progress go on, they lock as their lock code does. -/
theorem registry_run {threads : List Thread}
    (run : Runs.Run (Mutex.Step (Registry.program firstByte)) c (threads.map .run) d) :
    ∃ schedule, Runs.Run Step (registryConfig c : Config (Lock Provider Promise) Thread) schedule
      (registryConfig d) := by
  induction threads generalizing c with
  | nil =>
    cases run
    exact ⟨[], .done _⟩
  | cons t threads ih =>
    obtain _ | ⟨head, tail⟩ := run
    obtain ⟨schedule, rest⟩ := ih tail
    rcases (registry_step head : Step (registryConfig c : Config (Lock Provider Promise) Thread) t _ ∨ _)
      with locks | same
    · exact ⟨t :: schedule, .next locks rest⟩
    · rw [← same]
      exact ⟨schedule, rest⟩

end Code
end Gymansie.LockedCalls
