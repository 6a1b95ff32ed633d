import Gymansie.Connections

/-! The sender lists of a slot provider and the two guarded blocks of
`callSlot` that push and pop them. The key is `this->thread()`, read by
`callSlot` once at its start and by `signalSender` at each query. A guarded block
is one step; anything may happen between two blocks. -/
namespace Gymansie.Senders
variable {Thread Signal : Type}

structure SlotProvider (Thread Signal : Type) where
  /-- The thread the object lives in, `QObject::thread()`. -/
  thread : Thread
  signalSenders : UnorderedMap Thread (List (Ptr Signal))

variable [DecidableEq Thread]

def signalSender (provider : SlotProvider Thread Signal) : Ptr Signal :=
  let executingThread := provider.thread
  if provider.signalSenders.count executingThread then
    let queue := provider.signalSenders.index executingThread []
    if nonempty : queue ≠ [] then queue.getLast nonempty else none
  else none

/-- The first guarded block of `callSlot`. -/
def pushSender (provider : SlotProvider Thread Signal) (executingThread : Thread)
    (signal : Ptr Signal) : SlotProvider Thread Signal :=
  if provider.signalSenders.count executingThread then
    ⟨provider.thread, provider.signalSenders.set executingThread
      (provider.signalSenders.index executingThread [] ++ [signal])⟩
  else
    ⟨provider.thread, provider.signalSenders.set executingThread [signal]⟩

/-- The second guarded block of `callSlot`; `pop_back` of an empty list, which
C++ leaves undefined, keeps it empty here. -/
def popSender (provider : SlotProvider Thread Signal) (executingThread : Thread) :
    SlotProvider Thread Signal :=
  ⟨provider.thread, provider.signalSenders.set executingThread
    (provider.signalSenders.index executingThread []).dropLast⟩

def moveToThread (provider : SlotProvider Thread Signal) (target : Thread) :
    SlotProvider Thread Signal :=
  { provider with thread := target }

/-- The sender list of a thread; a missing key stands for an empty list. -/
def senders (provider : SlotProvider Thread Signal) (thread : Thread) : List (Ptr Signal) :=
  provider.signalSenders.index thread []

theorem signalSender_eq (provider : SlotProvider Thread Signal) :
    signalSender provider = (senders provider provider.thread).getLast?.join := by
  cases found : provider.signalSenders.find? provider.thread with
  | none => simp [signalSender, senders, UnorderedMap.index, found]
  | some queue =>
    by_cases empty : queue = []
    · simp [signalSender, senders, UnorderedMap.index, found, empty]
    · simp [signalSender, senders, UnorderedMap.index, found, empty, List.getLast?_eq_getLast_of_ne_nil]

@[simp]
theorem pushSender_thread (provider : SlotProvider Thread Signal) (executingThread : Thread)
    (signal : Ptr Signal) : (pushSender provider executingThread signal).thread = provider.thread := by
  unfold pushSender
  split <;> rfl

@[simp]
theorem senders_push (provider : SlotProvider Thread Signal) (executingThread thread : Thread)
    (signal : Ptr Signal) :
    senders (pushSender provider executingThread signal) thread =
      if thread = executingThread then senders provider thread ++ [signal]
      else senders provider thread := by
  cases found : provider.signalSenders.find? executingThread <;>
    by_cases same : thread = executingThread <;>
    simp [pushSender, senders, UnorderedMap.index, UnorderedMap.find?_set, found, same]

@[simp]
theorem senders_pop (provider : SlotProvider Thread Signal) (executingThread thread : Thread) :
    senders (popSender provider executingThread) thread =
      if thread = executingThread then (senders provider thread).dropLast
      else senders provider thread := by
  by_cases same : thread = executingThread <;>
    simp [popSender, senders, UnorderedMap.index, UnorderedMap.find?_set, same]

end Gymansie.Senders
