import Gymansie.Runs
import Gymansie.UnorderedMap
import Gymansie.Edits
import Gymansie.Connections
import Gymansie.Disconnect
import Gymansie.ConnectionRuns
import Gymansie.Registry
import Gymansie.RegistryRuns
import Gymansie.RegistryIds
import Gymansie.ProviderLifetimes
import Gymansie.Mutex
import Gymansie.RegistryMutex
import Gymansie.CallStacks
import Gymansie.Senders
import Gymansie.SenderRuns
import Gymansie.Futures
import Gymansie.SignalPromise
import Gymansie.PromiseReset
import Gymansie.DisconnectOrder
import Gymansie.CallTrees
import Gymansie.SenderPops
import Gymansie.PromiseRuns
import Gymansie.AddTask
import Gymansie.TaskTrees
import Gymansie.InvokeInContext
import Gymansie.WindowScaling
import Gymansie.Printing
import Gymansie.DebugText
import Gymansie.LockOrder
import Gymansie.LockedCalls
import Gymansie.RegistryLocks
import Gymansie.PromiseThreads
import Gymansie.RegistryThreads
import Gymansie.SlotAvailability
import Gymansie.ScreenHandles
import Gymansie.DebugOrder
import Gymansie.ConnectionCounts
import Gymansie.RegistryHistory
import Gymansie.LifetimeHistory
import Gymansie.InvokeOutcomes
import Gymansie.InvokeStacks
import Gymansie.InvokeProgress
import Gymansie.CallMachine
import Gymansie.CallEnds
import Gymansie.CallSteps
import Gymansie.TaskLocks
