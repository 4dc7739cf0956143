import CoNet.Lib.Transition
import CoNet.Lib.Steps
import CoNet.Lib.Calls
import CoNet.Lib.Ledger
import CoNet.Lib.Pool
import CoNet.Lib.Slices
import CoNet.Lib.IpText
import CoNet.Config
import CoNet.Io.Request
import CoNet.Io.Token
import CoNet.Io.Sqe
import CoNet.Net.Connection
import CoNet.Io.Uring
import CoNet.Io.Buffer
import CoNet.Laws.Io.Buffer
import CoNet.Laws.Io.Extension
import CoNet.Context.Send
import CoNet.Context.Startup
import CoNet.Laws.Context.Startup
import CoNet.Laws.Context.Send
import CoNet.Context.Arrival
import CoNet.Laws.Context.Arrival
import CoNet.Net.IpAddr
import CoNet.Laws.Net.IpAddr
import CoNet.Net.Listener
import CoNet.Net.SocketObjects
import CoNet.Laws.Net.Listener
import CoNet.Laws.Net.SocketObjects
import CoNet.Net.Write
import CoNet.Laws.Net.Write
import CoNet.Context.Terminate
import CoNet.Laws.Context.Terminate
import CoNet.Net.MainThread
import CoNet.Laws.Net.MainThread
import CoNet.Context.ParallelSpawn
import CoNet.Laws.Io.Uring
import CoNet.Laws.Context.Stage
import CoNet.Laws.Context.Kernel
import CoNet.Laws.Context.Loop
import CoNet.Laws.Context.ParallelSpawn
import CoNet.Net.MultishotWorker
import CoNet.Laws.Net.MultishotWorker
import CoNet.Net.Routing
import CoNet.Laws.Net.Routing
import CoNet.Context.Shutdown
import CoNet.Context.Tokens
import CoNet.Laws.Context.Tokens
import CoNet.Laws.Context.Shutdown
import CoNet.Async.Task
import CoNet.Async.TaskLoop
import CoNet.Async.Driver
import CoNet.Laws.Async.Chain
import CoNet.Laws.Async.Linked
import CoNet.Laws.Async.Invariant
import CoNet.Laws.Async.Results
import CoNet.Laws.Async.Direct
import CoNet.Laws.Async.History
import CoNet.Laws.Async.Wakeups
import CoNet.Laws.Async.Rethrow
import CoNet.Laws.Async.Reclaim
import CoNet.Async.Pass
import CoNet.Laws.Async.Pass
import CoNet.Laws.Async.PassOfFrames
import CoNet.Lib.Successors
import CoNet.Async.TaskObjects
import CoNet.Laws.Async.Ownership
import CoNet.Laws.Async.TaskHeap
import CoNet.Laws.Async.Resumptions
import CoNet.Laws.Async.TaskOperations
import CoNet.Laws.Async.TaskObjects
import CoNet.Net.Receive
import CoNet.Laws.Net.Receive
import CoNet.Laws.Net.PoolExtension
import CoNet.Net.ReceiveStream
import CoNet.Laws.Net.ReceiveStream
import CoNet.Net.MultishotListeners
import CoNet.Net.MultishotLoop
import CoNet.Laws.Net.MultishotListeners
import CoNet.Laws.Net.MultishotLoop
import CoNet.Io.SubmissionQueue
import CoNet.Context.LoopPass
import CoNet.Laws.Context.LoopPass
import CoNet.Context.Deliveries
import CoNet.Laws.Context.Dispatches
import CoNet.Laws.Context.Deliveries
import CoNet.Lib.IpPrint
import CoNet.Net.AddrText
import CoNet.Laws.Net.AddrText
import CoNet.Lib.RoundRobin
import CoNet.Laws.Context.Balance
import CoNet.Lib.Circular
import CoNet.Io.BufRing
import CoNet.Laws.Io.BufRing
import CoNet.Net.SharedReceive
import CoNet.Laws.Net.SharedReceive
import CoNet.Net.Echo
import CoNet.Laws.Net.Echo
import CoNet.Laws.Async.LoopObjects
import CoNet.Context.Stop
import CoNet.Laws.Context.Stop
import CoNet.Context.Batches
import CoNet.Laws.Context.Batches
import CoNet.Laws.Context.HandoverSteps
import CoNet.Laws.Context.StartupEnds
