import ReactorServer.Http.Segmentation
import ReactorServer.Http.Framing
import ReactorServer.Http.Acceptance
import ReactorServer.Http.Isolation
import ReactorServer.Http.Root
import ReactorServer.Net.Loop
import ReactorServer.Net.Lifecycle
import ReactorServer.Net.Output
import ReactorServer.Net.Registry
import ReactorServer.Net.Listener
import ReactorServer.Net.Reclaim
import ReactorServer.Net.LoopThread
import ReactorServer.Net.Transfer
import ReactorServer.Timers.Delay
import ReactorServer.Timers.Cancelling
import ReactorServer.Pool.ThreadPool
import ReactorServer.Pool.Reactor
import ReactorServer.Config.ReadBack
import ReactorServer.Net.Assertions
import ReactorServer.Timers.Once
import ReactorServer.Http.Headers
import ReactorServer.Net.Interest
import ReactorServer.Net.Polling
import ReactorServer.Conn.Sending
import ReactorServer.Conn.Waiting
import ReactorServer.Conn.Bodies
import ReactorServer.Conn.Lengths
import ReactorServer.Timers.Sifting
import ReactorServer.Http.Status
import ReactorServer.Pool.Adding
import ReactorServer.Log.Slog
import ReactorServer.Lib.Monitors
import ReactorServer.Sync.Mutex
import ReactorServer.Net.Startup
import ReactorServer.Conn.Resuming
import ReactorServer.Http.Bounds
import ReactorServer.Conn.Serving
import ReactorServer.Config.GetConfig
import ReactorServer.Timers.Growth
import ReactorServer.Conn.Appending
import ReactorServer.Pool.Draining
import ReactorServer.Pool.EventLoop
import ReactorServer.Http.Clients
import ReactorServer.Sync.Latch
import ReactorServer.Net.Rounds
import ReactorServer.Net.Balance
import ReactorServer.Conn.Session
import ReactorServer.Net.LoopPool
