import MyNginx.Foundation.Transition
import MyNginx.Foundation.Heap
import MyNginx.Foundation.Expiry
import MyNginx.Foundation.Framing
import MyNginx.Foundation.BigEndian
import MyNginx.Foundation.Lock
import MyNginx.Foundation.ObjectPool
import MyNginx.Foundation.Ownership
import MyNginx.Foundation.Widening
import MyNginx.Foundation.Threads
import MyNginx.Foundation.ShiftRegister
import MyNginx.Foundation.Lines
import MyNginx.Foundation.Strings
import MyNginx.Foundation.Numerals
import MyNginx.Foundation.Settling
import MyNginx.Foundation.Signals
import MyNginx.Foundation.Simulation
import MyNginx.Foundation.Descriptors
import MyNginx.Comm
import MyNginx.State
import MyNginx.Net.Conn
import MyNginx.Net.Request
import MyNginx.Net.Time
import MyNginx.Net.Accept
import MyNginx.Net.Send
import MyNginx.Misc.Crc32
import MyNginx.Logic
import MyNginx.EventLoop
import MyNginx.Server.System
import MyNginx.Server.Invariant
import MyNginx.Server.Quiet
import MyNginx.Server.Steady
import MyNginx.Server.Close
import MyNginx.Server.Admit
import MyNginx.Server.Sends
import MyNginx.Server.Moves
import MyNginx.Server.Boot
import MyNginx.Server.Partition
import MyNginx.Server.Descriptors
import MyNginx.Server.Origin
import MyNginx.Server.Keeps
import MyNginx.Server.Growth
import MyNginx.Server.Lasting
import MyNginx.Server.Tally
import MyNginx.Server.TimerPass
import MyNginx.Server.TimerKept
import MyNginx.Server.TimerValue
import MyNginx.Server.Heartbeat
import MyNginx.Server.Frames
import MyNginx.Server.Coverage
import MyNginx.Server.Wraparound
import MyNginx.Server.Headers
import MyNginx.Server.Registration
import MyNginx.Server.EventMask
import MyNginx.Server.Bodies
import MyNginx.Server.Regions
import MyNginx.Server.Reception
import MyNginx.Server.Unfinished
import MyNginx.Server.Accounting
import MyNginx.Server.Handover
import MyNginx.Server.Delays
import MyNginx.Server.Verdicts
import MyNginx.Server.Receivers
import MyNginx.Server.Twins
import MyNginx.Server.WouldBlock
import MyNginx.Server.Streams
import MyNginx.Receive.Progress
import MyNginx.Receive.Framing
import MyNginx.Receive.Shutdown
import MyNginx.Receive.Headers
import MyNginx.Receive.Bodies
import MyNginx.Receive.Regions
import MyNginx.Receive.Twins
import MyNginx.Requests.Validation
import MyNginx.Checksum.Bitwise
import MyNginx.Checksum.Bursts
import MyNginx.Sending.System
import MyNginx.Sending.Invariant
import MyNginx.Sending.Mutex
import MyNginx.Sending.Backlog
import MyNginx.Sending.Length
import MyNginx.Sending.Arming
import MyNginx.Sending.Stream
import MyNginx.Sending.Order
import MyNginx.Sending.Requests
import MyNginx.Sending.Answers
import MyNginx.ThreadPool.System
import MyNginx.ThreadPool.Delivery
import MyNginx.ThreadPool.Wakeup
import MyNginx.ThreadPool.Settling
import MyNginx.ThreadPool.Joining
import MyNginx.ThreadPool.Stopping
import MyNginx.ThreadPool.Refinement
import MyNginx.Handlers.System
import MyNginx.Handlers.Validity
import MyNginx.Waking.System
import MyNginx.Waking.Wakeup
import MyNginx.Locking.System
import MyNginx.Locking.Order
import MyNginx.Locking.Alone
import MyNginx.Shutdown.System
import MyNginx.Shutdown.Joins
import MyNginx.App.FuncString
import MyNginx.App.Conf
import MyNginx.Config.Loading
import MyNginx.Config.PhysicalLines
import MyNginx.Config.RoundTrip
import MyNginx.App.Format
import MyNginx.App.Log
import MyNginx.App.LogFile
import MyNginx.Formatting.Pieces
import MyNginx.Formatting.Window
import MyNginx.Formatting.Truncation
import MyNginx.Formatting.Record
import MyNginx.Formatting.Numbers
import MyNginx.Formatting.Exact
import MyNginx.Formatting.Fraction
import MyNginx.Formatting.Cursor
import MyNginx.Formatting.Arguments
import MyNginx.Formatting.ProcessId
import MyNginx.App.ProcTitle
import MyNginx.ProcTitle.Relocation
import MyNginx.ProcTitle.Fits
import MyNginx.Signal.Signal
import MyNginx.Signal.Records
import MyNginx.Proc.ProcCycle
import MyNginx.Proc.Handling
import MyNginx.Proc.Nesting
import MyNginx.Proc.Reaping
import MyNginx.Startup.System
import MyNginx.Startup.Descriptors
import MyNginx.Startup.Outcomes
import MyNginx.Startup.Workers
import MyNginx.Startup.Settings
