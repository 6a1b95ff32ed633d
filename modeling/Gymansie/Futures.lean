import Mathlib.Data.List.Basic

/-! One-shot promises and their futures. A promise and the future taken from it
refer to one shared state; a future that has been moved from refers to none.
Shared states are numbered in the order they are made and never made again, so
what happens above some older states does not depend on how many there are. -/
namespace Gymansie.Futures
universe u
variable {V : Type u}

inductive SharedState (V : Type u) where
  | pending
  | ready (value : V)
  /-- The promise went away before it was satisfied. -/
  | broken
  deriving DecidableEq

/-- All shared states made so far. -/
abbrev Heap (V : Type u) := List (SharedState V)

theorem state_above (older heap : Heap V) (state : Nat) :
    (older ++ heap)[older.length + state]? = heap[state]? := by
  rw [List.getElem?_append_right (Nat.le_add_right _ _), Nat.add_sub_cancel_left]

inductive FutureError where
  | futureAlreadyRetrieved
  | promiseAlreadySatisfied
  deriving DecidableEq

structure Future where
  state : Option Nat
  deriving DecidableEq

structure Promise where
  state : Nat
  retrieved : Bool
  deriving DecidableEq

namespace Future

/-- What is left behind when a future is moved. -/
def movedFrom : Future := ⟨none⟩

def valid (future : Future) : Bool := future.state.isSome

/-- The value that waiting for the future gives, if it ever gives one. -/
def delivers (heap : Heap V) (future : Future) : Option V :=
  match future.state.bind (heap[·]?) with
  | some (.ready value) => some value
  | _ => none

/-- The same future above `older` further states. -/
def shift (older : Nat) (future : Future) : Future := ⟨future.state.map (older + ·)⟩

@[simp]
theorem valid_shift (older : Nat) (future : Future) : (future.shift older).valid = future.valid := by
  simp [valid, shift]

@[simp]
theorem delivers_shift (older heap : Heap V) (future : Future) :
    (future.shift older.length).delivers (older ++ heap) = future.delivers heap := by
  obtain ⟨_ | state⟩ := future
  · rfl
  · simp only [delivers, shift, Option.map_some, Option.bind_some, state_above]

end Future

namespace Promise

/-- A new promise, with a shared state of its own. -/
def make (heap : Heap V) : Promise × Heap V := (⟨heap.length, false⟩, heap ++ [.pending])

def getFuture (promise : Promise) : Except FutureError (Future × Promise) :=
  if promise.retrieved then .error .futureAlreadyRetrieved
  else .ok (⟨some promise.state⟩, ⟨promise.state, true⟩)

def setValue (heap : Heap V) (promise : Promise) (value : V) : Except FutureError (Heap V) :=
  match heap[promise.state]? with
  | some .pending => .ok (heap.set promise.state (.ready value))
  | _ => .error .promiseAlreadySatisfied

/-- The promise gives its shared state up, as another one is assigned to it or it
is destroyed. -/
def abandon (heap : Heap V) (promise : Promise) : Heap V :=
  match heap[promise.state]? with
  | some .pending => heap.set promise.state .broken
  | _ => heap

theorem abandon_settled (heap : Heap V) (promise : Promise) :
    (promise.abandon heap)[promise.state]? ≠ some .pending := by
  unfold abandon
  split
  · rename_i pending
    obtain ⟨inside, -⟩ := List.getElem?_eq_some_iff.mp pending
    rw [List.getElem?_set_self inside]
    simp
  · assumption

def shift (older : Nat) (promise : Promise) : Promise := ⟨older + promise.state, promise.retrieved⟩

theorem make_shift (older heap : Heap V) :
    make (older ++ heap) = ((make heap).1.shift older.length, older ++ (make heap).2) := by
  simp [make, shift]

theorem setValue_shift (older heap : Heap V) (promise : Promise) (value : V) :
    (promise.shift older.length).setValue (older ++ heap) value =
      (promise.setValue heap value).map (older ++ ·) := by
  simp only [setValue, shift, state_above]
  split
  · simp [Except.map]
  · rfl

theorem abandon_shift (older heap : Heap V) (promise : Promise) :
    (promise.shift older.length).abandon (older ++ heap) = older ++ promise.abandon heap := by
  simp only [abandon, shift, state_above]
  split
  · simp
  · rfl

theorem getFuture_shift (older : Nat) (promise : Promise) :
    (promise.shift older).getFuture =
      promise.getFuture.map fun taken => (taken.1.shift older, taken.2.shift older) := by
  by_cases retrieved : promise.retrieved <;> simp [getFuture, shift, retrieved, Except.map, Future.shift]

end Promise
end Gymansie.Futures
