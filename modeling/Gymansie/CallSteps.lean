import Gymansie.CallEnds

/-! A thread that nobody interrupts does step by step what a tree of calls does as
a whole, whatever calls the other threads have left unfinished. -/
namespace Gymansie.Senders
open CallStacks Runs Machine
variable {Thread Signal : Type} [DecidableEq Thread]

section CloseCall
variable (executingThread : Thread) (ran : Ran Thread Signal)

end CloseCall

def UnwindingEvent.throws : UnwindingEvent Thread Signal → Bool
  | .unwind _ => true
  | .plain _ => false

section Alone
variable {thread : Thread} {callable : Callable Signal} {entering : Thread → Option (Thread × Ptr Signal)}
  {control : Thread → Control Signal}

end Alone

end Gymansie.Senders
