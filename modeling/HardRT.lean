import HardRT.Core.Clock
import HardRT.Core.Decision
import HardRT.Core.ReadyOrder
import HardRT.Core.ReadyQueue
import HardRT.Core.Sleep
import HardRT.Core.Task
import HardRT.Core.Tick
import HardRT.Core.Types
import HardRT.CortexM.Blocking
import HardRT.CortexM.ConcurrentCreate
import HardRT.CortexM.Contexts
import HardRT.CortexM.Cooperative
import HardRT.CortexM.CriticalSections
import HardRT.CortexM.InitialFrame
import HardRT.CortexM.PendSV
import HardRT.CortexM.Pieces
import HardRT.CortexM.Preemption
import HardRT.CortexM.Quantum
import HardRT.CortexM.ReadySet
import HardRT.CortexM.System
import HardRT.CortexM.ThreadFrames
import HardRT.CortexM.Threads
import HardRT.Lib.BoundedFifo
import HardRT.Lib.Channel
import HardRT.Lib.DataRefinement
import HardRT.Lib.HandoffLock
import HardRT.Lib.LevelQueue
import HardRT.Lib.Lockstep
import HardRT.Lib.Machine
import HardRT.Lib.Partition
import HardRT.Lib.RingBuffer
import HardRT.Lib.Sections
import HardRT.Lib.SerialLog
import HardRT.Lib.TokenHolders
import HardRT.Lib.TokenPool
import HardRT.Lib.WaitGraph
import HardRT.Lib.WordMemory
import HardRT.Lib.WrappedCounter
import HardRT.Ports.Agreement
import HardRT.Ports.Confinement
import HardRT.Ports.Creation
import HardRT.Ports.ErrorLatch
import HardRT.Ports.IdleSlot
import HardRT.Ports.ReadyMoves
import HardRT.Ports.RoundRobin
import HardRT.Ports.ServiceOrder
import HardRT.Ports.SleepTime
import HardRT.Ports.TaskPrograms
import HardRT.Ports.TickTimer
import HardRT.Ports.WorkConservation
import HardRT.Posix.Charging
import HardRT.Posix.Pieces
import HardRT.Posix.ReadySet
import HardRT.Posix.SignalMask
import HardRT.Posix.SignalRefinement
import HardRT.Posix.Signals
import HardRT.Posix.System
import HardRT.Protocol.BlockedTasks
import HardRT.Protocol.LockOrder
import HardRT.Protocol.MutexCalls
import HardRT.Protocol.MutexLock
import HardRT.Protocol.MutexOwners
import HardRT.Protocol.QueueCalls
import HardRT.Protocol.QueueChannel
import HardRT.Protocol.QueuePaths
import HardRT.Protocol.SemaphoreCalls
import HardRT.Protocol.SemaphoreGuard
import HardRT.Protocol.SemaphorePool
import HardRT.Spec.Kernel
import HardRT.Spec.Machine
import HardRT.Spec.Refinement
import HardRT.Spec.Runs
import HardRT.Sync.Fifos
import HardRT.Sync.Mutex
import HardRT.Sync.Queue
import HardRT.Sync.Semaphore
import HardRT.Sync.Sizings
import HardRT.System.Effect
import HardRT.System.ErrorLatch
import HardRT.System.Ids
import HardRT.System.Interleave
import HardRT.System.InterruptedPush
import HardRT.System.Partition
import HardRT.System.Pieces
import HardRT.System.PortSteps
import HardRT.System.ReadyBooks
import HardRT.System.ReadyOrder
import HardRT.System.Thread
import HardRT.System.Time
import HardRT.System.Twin
import HardRT.System.Waiting
