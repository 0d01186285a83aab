import Nanorun.Lib.Transition
import Nanorun.Lib.Bits
import Nanorun.Lib.Pool
import Nanorun.Executor.Model
import Nanorun.Executor.Steps
import Nanorun.Executor.DriverToken
import Nanorun.Executor.Wakeup
import Nanorun.Executor.Shutdown
import Nanorun.Task.Model
import Nanorun.Task.Steps
import Nanorun.Task.RunToken
import Nanorun.Task.References
import Nanorun.Task.Access
import Nanorun.Task.Cell
import Nanorun.Task.Output
import Nanorun.Task.Join
import Nanorun.Lib.Buckets
import Nanorun.Time.Wheel
import Nanorun.Time.Placement
import Nanorun.Time.Advance
import Nanorun.Lib.Calls
import Nanorun.Time.Flat
import Nanorun.Time.Driver
import Nanorun.Time.Fire
import Nanorun.Time.Runtimes
import Nanorun.Time.NextTick
import Nanorun.Time.Oversleep
import Nanorun.Executor.Dead
import Nanorun.Reactor.Linux
import Nanorun.Reactor.Stale
import Nanorun.Net.Tcp
import Nanorun.Net.Waiters
import Nanorun.Net.Connect
import Nanorun.Reactor.Windows
import Nanorun.Reactor.Afd
import Nanorun.Reactor.Buffers
import Nanorun.Reactor.Cancelled
import Nanorun.Reactor.Backend
import Nanorun.Reactor.Tokens
import Nanorun.Executor.Teardown
import Nanorun.Executor.Ownership
import Nanorun.Executor.JoinCycles
import Nanorun.Reactor.Reissue
import Nanorun.Reactor.SlabMap
import Nanorun.Executor.Fifo
import Nanorun.Task.Release
import Nanorun.Executor.Handover
import Nanorun.Executor.Idle
import Nanorun.Time.Poller
import Nanorun.Time.Timeout
import Nanorun.Executor.Destructors
import Nanorun.Time.Turning
import Nanorun.Time.Summaries
import Nanorun.Time.Descent
import Nanorun.Executor.Steal
import Nanorun.Reactor.Poll
import Nanorun.Lib.Bytes
import Nanorun.Sys.Sockaddr
import Nanorun.Sys.RoundTrip
import Nanorun.Runtime.Model
import Nanorun.Runtime.Queue
import Nanorun.Lib.Simulation
import Nanorun.Reactor.SelfWake
import Nanorun.Reactor.Armed
import Nanorun.Lib.Accounts
import Nanorun.Time.Amortized
import Nanorun.Lib.Ledger
import Nanorun.Net.Sockets
import Nanorun.Net.Streams
import Nanorun.Net.Ready
import Nanorun.Runtime.BlockOn
import Nanorun.Executor.Termination
import Nanorun.Runtime.Context
import Nanorun.Runtime.Guards
import Nanorun.Runtime.Arcs
