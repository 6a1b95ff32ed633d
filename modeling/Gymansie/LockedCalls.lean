import Gymansie.RegistryMutex
import Gymansie.LockOrder

/-! The mutexes of all components together. `callSlot` runs its callable between
two guarded blocks and under neither, `addTask` runs task and receiver inside
its own, and the other operations have at most one block, except that a
registration locks the registry twice. So whatever threads do in callables,
they can only be blocked by tasks and receivers that use promises, or by a
registration. -/
namespace Gymansie.LockedCalls
open LockOrder
variable {Id Provider Promise Thread : Type}

inductive Lock (Provider Promise : Type) where
  | registryMutex
  | mutex (provider : Provider)
  | signalSendersMutex (provider : Provider)
  | promiseMutex (promise : Promise)
  deriving DecidableEq

inductive Operation (Id Provider Promise : Type) where
  | registry (operation : Registry.Operation Id Provider)
  | signalSender (provider : Provider)
  | checkSlotAvaliability (provider : Provider)
  | registerConnection (provider : Provider)
  | disconnectCommunication
  | setPromiseValue (promise : Promise)
  | getFuture (promise : Promise)
  | resetPromise (promise : Promise)

inductive Calls (Id Provider Promise : Type) where
  | done
  | call (operation : Operation Id Provider Promise) (rest : Calls Id Provider Promise)
  -- if the callable throws, `rest` is what the handler of the caller does
  | callSlot (provider : Provider) (callable : Calls Id Provider Promise) (throws : Bool)
      (rest : Calls Id Provider Promise)
  -- nothing of `reciever` is left if the task throws, and nothing of either if
  -- `promise_object` has given its future out
  | addTask (promise : Promise) (task reciever : Calls Id Provider Promise)
      (rest : Calls Id Provider Promise)

def guarded (lock : Lock Provider Promise) : Code (Lock Provider Promise) := .block lock .done .done

def registryCode : Registry.Operation Id Provider → Code (Lock Provider Promise)
  | .registerSlotProvider none | .unregisterSlotProvider none | .getSlotProviderById none => .done
  -- `generateSlotProviderId` is called under the locker
  | .registerSlotProvider (some _) => .block .registryMutex (guarded .registryMutex) .done
  | .unregisterSlotProvider (some _) | .getSlotProviderById (some _) | .generateSlotProviderId _
  | .getSlotProviderMap => guarded .registryMutex

def Operation.code : Operation Id Provider Promise → Code (Lock Provider Promise)
  | .registry operation => registryCode operation
  | .signalSender provider | .checkSlotAvaliability provider | .registerConnection provider =>
    guarded (.mutex provider)
  | .setPromiseValue promise | .getFuture promise => guarded (.promiseMutex promise)
  | .disconnectCommunication | .resetPromise _ => .done

def Calls.code : Calls Id Provider Promise → Code (Lock Provider Promise)
  | .done => .done
  | .call operation rest => operation.code.seq rest.code
  | .callSlot provider callable throws rest =>
    .block (.signalSendersMutex provider) .done
      (callable.code.seq (if throws then rest.code else .block (.mutex provider) .done rest.code))
  | .addTask promise task reciever rest =>
    .block (.promiseMutex promise) (task.code.seq reciever.code) rest.code

/-! ### What is nested -/

def Operation.promises : Operation Id Provider Promise → List Promise
  | .setPromiseValue promise | .getFuture promise => [promise]
  | _ => []

def Calls.promises : Calls Id Provider Promise → List Promise
  | .done => []
  | .call operation rest => operation.promises ++ rest.promises
  | .callSlot _ callable _ rest => callable.promises ++ rest.promises
  | .addTask promise task reciever rest =>
    promise :: (task.promises ++ reciever.promises ++ rest.promises)

/-- No provider is registered, and inside an `addTask` only such promises are
locked as `R` allows over its own. -/
def Calls.Ordered (R : Promise → Promise → Prop) : Calls Id Provider Promise → Prop
  | .done => True
  | .call operation rest =>
    (∀ provider, operation ≠ .registry (.registerSlotProvider (some provider))) ∧ rest.Ordered R
  | .callSlot _ callable _ rest => callable.Ordered R ∧ rest.Ordered R
  | .addTask promise task reciever rest =>
    (∀ inner ∈ task.promises ++ reciever.promises, R promise inner) ∧
      task.Ordered R ∧ reciever.Ordered R ∧ rest.Ordered R

theorem mem_operation_locks (operation : Operation Id Provider Promise) (promise : Promise) :
    .promiseMutex promise ∈ operation.code.locks ↔ promise ∈ operation.promises := by
  cases operation with
  | registry operation =>
    rcases operation with (_ | _) | (_ | _) | _ | (_ | _) | _ <;>
      simp [Operation.code, registryCode, guarded, Code.locks, Operation.promises]
  | _ => simp [Operation.code, guarded, Code.locks, Operation.promises]

theorem mem_code_locks (calls : Calls Id Provider Promise) (promise : Promise) :
    .promiseMutex promise ∈ calls.code.locks ↔ promise ∈ calls.promises := by
  induction calls with
  | done => simp [Calls.code, Code.locks, Calls.promises]
  | call operation rest ih => simp [Calls.code, Calls.promises, mem_operation_locks, ih]
  | callSlot provider callable throws rest inside behind =>
    cases throws <;> simp [Calls.code, Code.locks, Calls.promises, inside, behind]
  | addTask promise' task reciever rest first second behind =>
    simp [Calls.code, Code.locks, Calls.promises, first, second, behind]

section Nesting
variable {R : Promise → Promise → Prop} {S : Lock Provider Promise → Lock Provider Promise → Prop}

theorem nested_operation_iff (once : ¬ S .registryMutex .registryMutex)
    (operation : Operation Id Provider Promise) :
    operation.code.Nested S ↔ ∀ provider, operation ≠ .registry (.registerSlotProvider (some provider)) := by
  cases operation with
  | registry operation =>
    rcases operation with (_ | provider) | (_ | _) | _ | (_ | _) | _
    case registerSlotProvider.some =>
      refine iff_of_false ?_ fun other => other provider rfl
      rintro ⟨within, -⟩
      exact once (within .registryMutex (by simp [guarded, Code.locks]))
    all_goals simp [Operation.code, registryCode, guarded, Code.Nested, Code.locks]
  | _ => simp [Operation.code, guarded, Code.Nested, Code.locks]

/-- Only blocks of promises have anything inside, a registration apart. -/
theorem nested_code_iff (promises : ∀ p q, S (.promiseMutex p) (.promiseMutex q) ↔ R p q)
    (others : ∀ p lock, (∀ q, lock ≠ .promiseMutex q) → S (.promiseMutex p) lock)
    (once : ¬ S .registryMutex .registryMutex) (calls : Calls Id Provider Promise) :
    calls.code.Nested S ↔ calls.Ordered R := by
  induction calls with
  | done => exact Iff.rfl
  | call operation rest ih =>
    rw [Calls.code, Code.nested_seq, nested_operation_iff once, ih, Calls.Ordered]
  | callSlot provider callable throws rest inside behind =>
    have unnested (code : Code (Lock Provider Promise)) (lock : Lock Provider Promise) :
        (Code.block lock .done code).Nested S ↔ code.Nested S := by
      simp [Code.Nested, Code.locks]
    rw [Calls.code, unnested, Code.nested_seq, inside, Calls.Ordered]
    cases throws with
    | true => rw [if_pos rfl, behind]
    | false => rw [if_neg Bool.false_ne_true, unnested, behind]
  | addTask promise task reciever rest first second behind =>
    have within : (∀ lock ∈ (task.code.seq reciever.code).locks, S (.promiseMutex promise) lock) ↔
        ∀ inner ∈ task.promises ++ reciever.promises, R promise inner := by
      rw [Code.locks_seq]
      constructor
      · intro allowed inner member
        refine (promises promise inner).mp (allowed _ ?_)
        simpa only [List.mem_append, mem_code_locks] using member
      · intro allowed lock member
        by_cases other : ∀ q, lock ≠ .promiseMutex q
        · exact others promise lock other
        · obtain ⟨inner, same⟩ := not_forall.mp other
          obtain rfl := not_not.mp same
          refine (promises promise inner).mpr (allowed inner ?_)
          simpa only [List.mem_append, mem_code_locks] using member
    rw [Calls.code, Code.Nested, within, Code.nested_seq, first, second, behind, Calls.Ordered, and_assoc]

end Nesting

theorem nested_ne_iff (calls : Calls Id Provider Promise) :
    calls.code.Nested (· ≠ ·) ↔ calls.Ordered (· ≠ ·) := by
  refine nested_code_iff (fun p q => ?_) (fun p lock other => (other p).symm) (fun other => other rfl) calls
  exact not_congr ⟨Lock.promiseMutex.inj, congrArg _⟩

/-- Promises in their order, and all other mutexes behind them. -/
def lockBefore (before : Promise → Promise → Prop) :
    Lock Provider Promise → Lock Provider Promise → Prop
  | .promiseMutex p, .promiseMutex q => before p q
  | .promiseMutex _, _ => True
  | _, _ => False

instance lockBefore_strict (before : Promise → Promise → Prop) [IsStrictOrder Promise before] :
    IsStrictOrder (Lock Provider Promise) (lockBefore before) where
  irrefl lock same := by
    cases lock with
    | promiseMutex p => exact irrefl_of before p same
    | _ => exact same
  trans a b c first second := by
    cases a with
    | promiseMutex p =>
      cases b with
      | promiseMutex q =>
        cases c with
        | promiseMutex r => exact trans_of before first second
        | _ => trivial
      | _ => exact second.elim
    | _ => exact first.elim

variable [DecidableEq Provider] [DecidableEq Promise] [DecidableEq Thread]

/-- For every number of threads, any trees of calls, any nesting of callables and
any interleaving: if tasks and receivers lock promises along a strict order and
nothing is registered, every thread can come to its end from wherever they have
got to, and at their ends no mutex is owned. -/
theorem threads_finish [Finite Thread] (before : Promise → Promise → Prop)
    [IsStrictOrder Promise before] {calls : Thread → Calls Id Provider Promise}
    (ordered : ∀ t, (calls t).Ordered before)
    (run : Runs.Run Step (start fun t => (calls t).code) schedule c) :
    Finishes c ∧ ((∀ t, c.ahead t = []) → ∀ lock, c.owner lock = none) := by
  have nested : ∀ t, (calls t).code.Nested (lockBefore before) := by
    intro t
    refine (nested_code_iff (fun p q => Iff.rfl) ?_ (fun same => same) (calls t)).mpr (ordered t)
    intro p lock other
    cases lock with
    | promiseMutex q => exact absurd rfl (other q)
    | _ => trivial
  obtain ⟨held, holds⟩ := holds_run (holds_start nested) run
  exact ⟨finishes_of_ordered nested run, holds.free⟩

/-- A task that sets a later promise and calls a slot, beside a callable that
starts a task. -/
def twoThreads : Bool → Calls Nat Nat Nat
  | true => .addTask 1 (.call (.setPromiseValue 2)
      (.callSlot 7 (.call (.signalSender 7) .done) false .done)) .done .done
  | false => .callSlot 7 (.addTask 1 .done (.call (.getFuture 2) .done) .done) true .done

theorem two_threads_finish : ∃ c,
    Runs.Run Step (start fun t => (twoThreads t).code) [true, false] c ∧
      Finishes c ∧ ((∀ t, c.ahead t = []) → ∀ lock, c.owner lock = none) := by
  have ordered : ∀ t, (twoThreads t).Ordered (· < ·) := by
    intro t
    cases t <;> simp [twoThreads, Calls.Ordered, Calls.promises, Operation.promises]
  have run : Runs.Run Step (start fun t => (twoThreads t).code) [true, false] _ :=
    .next (.request rfl rfl) (.next (.request rfl rfl) (.done _))
  exact ⟨_, run, threads_finish (· < ·) ordered run⟩

omit [DecidableEq Thread] in
/-- For every tree of calls on one thread, over all components: it can come to its
end from every state that it reaches exactly if nothing is registered and no task
or receiver locks, at any depth, the promise that it was given for. -/
theorem thread_finishes_iff (calls : Calls Id Provider Promise) :
    (∀ schedule c, Runs.Run Step (start fun _ : Unit => calls.code) schedule c → Finishes c) ↔
      calls.Ordered (· ≠ ·) := by
  rw [← nested_ne_iff]
  constructor
  · intro finishes
    exact (alone_finishes_iff calls.code).mp (finishes [] _ (.done _))
  · intro nested schedule c run
    exact finishes_of_unnested nested run

/-- `p` is locked by a task that some chain of tasks leads to from `q`. -/
def Awaits (outer inner : Thread → Promise) : Promise → Promise → Prop :=
  Relation.TransGen fun a b => ∃ t, outer t = a ∧ inner t = b

omit [DecidableEq Provider] [DecidableEq Promise] [DecidableEq Thread] in
theorem awaits_of_locks {outer inner : Thread → Promise} {p : Promise} {lock : Lock Provider Promise}
    (way : Relation.TransGen (fun a b : Lock Provider Promise =>
      ∃ t, .promiseMutex (outer t) = a ∧ .promiseMutex (inner t) = b) lock (.promiseMutex p)) :
    ∃ q, lock = .promiseMutex q ∧ Awaits outer inner q p := by
  induction way using Relation.TransGen.head_induction_on with
  | single last =>
    obtain ⟨t, rfl, same⟩ := last
    exact ⟨outer t, rfl, .single ⟨t, rfl, Lock.promiseMutex.inj same⟩⟩
  | head first _ ih =>
    obtain ⟨t, rfl, rfl⟩ := first
    obtain ⟨q, same, rest⟩ := ih
    exact ⟨outer t, rfl, .head ⟨t, rfl, Lock.promiseMutex.inj same⟩ rest⟩

omit [DecidableEq Provider] [DecidableEq Promise] [DecidableEq Thread] in
theorem awaits_iff (outer inner : Thread → Promise) :
    (∀ lock : Lock Provider Promise, ¬ Relation.TransGen (fun a b =>
        ∃ t, .promiseMutex (outer t) = a ∧ .promiseMutex (inner t) = b) lock lock) ↔
      ∀ p, ¬ Awaits outer inner p p := by
  constructor
  · intro acyclic p cycle
    refine acyclic (.promiseMutex p) (cycle.lift Lock.promiseMutex ?_)
    rintro a b ⟨t, rfl, rfl⟩
    exact ⟨t, rfl, rfl⟩
  · intro acyclic lock cycle
    obtain ⟨b, ⟨t, rfl, -⟩, -⟩ := Relation.TransGen.head'_iff.mp cycle
    obtain ⟨q, same, round⟩ := awaits_of_locks cycle
    exact acyclic q (Lock.promiseMutex.inj same ▸ round)

/-- For any number of threads, thread `t` running a task for `outer t` that sets
`inner t`: every run can go on to its end exactly if no promise awaits itself. -/
theorem tasks_finish_iff [Finite Thread] (outer inner : Thread → Promise) :
    (∀ schedule c, Runs.Run Step (start fun t => (Calls.addTask (outer t)
        (.call (.setPromiseValue (inner t)) .done) .done .done : Calls Id Provider Promise).code)
        schedule c → Finishes c) ↔
      ∀ p, ¬ Awaits outer inner p p := by
  let first (t : Thread) : Lock Provider Promise := .promiseMutex (outer t)
  let second (t : Thread) : Lock Provider Promise := .promiseMutex (inner t)
  exact (pairs_finish_iff first second).trans (awaits_iff outer inner)

theorem opposite_tasks_block : ¬ ∀ schedule c, Runs.Run Step (start fun t : Bool =>
    (Calls.addTask (if t then 1 else 2) (.call (.setPromiseValue (if t then 2 else 1)) .done) .done
      .done : Calls Nat Nat Nat).code) schedule c → Finishes c := by
  rw [tasks_finish_iff]
  intro acyclic
  exact acyclic 1 (.head ⟨true, rfl, rfl⟩ (.single ⟨false, rfl, rfl⟩))

end Gymansie.LockedCalls
