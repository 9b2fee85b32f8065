import OpenCoroutine.Transition
import OpenCoroutine.Constants
import OpenCoroutine.Coroutine
import OpenCoroutine.Resume
import OpenCoroutine.Deadline
import OpenCoroutine.OrderedMap
import OpenCoroutine.Timer
import OpenCoroutine.Family
import OpenCoroutine.Rand
import OpenCoroutine.WorkSteal
import OpenCoroutine.Conservation
import OpenCoroutine.GlobalLen
import OpenCoroutine.WaitResult
import OpenCoroutine.WakeUp
import OpenCoroutine.NonBlocking
import OpenCoroutine.Selector
import OpenCoroutine.Tokens
import OpenCoroutine.Scheduler
import OpenCoroutine.World
import OpenCoroutine.EarlyTimeout
import OpenCoroutine.Places
import OpenCoroutine.NoneLost
import OpenCoroutine.EventLoops
import OpenCoroutine.Readiness
import OpenCoroutine.Endings
import OpenCoroutine.Pools
import OpenCoroutine.Accounting
import OpenCoroutine.Forgetting
import OpenCoroutine.Interests
import OpenCoroutine.Tasks
import OpenCoroutine.Delivery
import OpenCoroutine.Answers
import OpenCoroutine.Lifecycle
import OpenCoroutine.Stops
import OpenCoroutine.Drained
import OpenCoroutine.HookStates
import OpenCoroutine.Monitor
import OpenCoroutine.Slices
import OpenCoroutine.Armed
import OpenCoroutine.Preemption
import OpenCoroutine.Completion
import OpenCoroutine.Conformance
import OpenCoroutine.Connect
import OpenCoroutine.Modes
import OpenCoroutine.Owners
import OpenCoroutine.Reuse
import OpenCoroutine.Recycling
import OpenCoroutine.Waiters
import OpenCoroutine.Finding
import OpenCoroutine.Fairness
import OpenCoroutine.Containers
import OpenCoroutine.Size
import OpenCoroutine.Releases
import OpenCoroutine.ReleaseOrder
import OpenCoroutine.BackOff
import OpenCoroutine.Poll
import OpenCoroutine.Select
import OpenCoroutine.ConnectTurns
import OpenCoroutine.Headers
import OpenCoroutine.Nesting
import OpenCoroutine.Balance
import OpenCoroutine.PoolCalls
import OpenCoroutine.WaitJust
import OpenCoroutine.Retrieval
import OpenCoroutine.Join
import OpenCoroutine.Idle
import OpenCoroutine.Shutdown
import OpenCoroutine.Removal
import OpenCoroutine.StableSort
import OpenCoroutine.StableQueue
import OpenCoroutine.Rejected
import OpenCoroutine.Consumption
import OpenCoroutine.Raw
import OpenCoroutine.CString
import OpenCoroutine.TaskNames
import OpenCoroutine.XorLinear
import OpenCoroutine.Degeneration
import OpenCoroutine.CurrentCall
import OpenCoroutine.Sleep
import OpenCoroutine.LazyInit
import OpenCoroutine.Instances
import OpenCoroutine.Idling
import OpenCoroutine.Replay
import OpenCoroutine.Lives
import OpenCoroutine.BoxHeap
import OpenCoroutine.CoroutineLocal
import OpenCoroutine.Records
import OpenCoroutine.Handles
import OpenCoroutine.Descent
import OpenCoroutine.Starvation
import OpenCoroutine.Latch
import OpenCoroutine.Exit
import OpenCoroutine.Retry
import OpenCoroutine.AtomicCalls
import OpenCoroutine.Stream
import OpenCoroutine.Fcntl
import OpenCoroutine.Waiting
import OpenCoroutine.Rounds
import OpenCoroutine.Driver
import OpenCoroutine.Resumption
import OpenCoroutine.PoolMoves
import OpenCoroutine.Upkeep
import OpenCoroutine.Duties
import OpenCoroutine.PoolDriver
import OpenCoroutine.Serving
