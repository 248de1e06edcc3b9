import TriadRuntime.Systems.Runs
import TriadRuntime.Runner
import TriadRuntime.Frame
import TriadRuntime.RequestGate
import TriadRuntime.AsyncListener
import TriadRuntime.AsyncShell
import TriadRuntime.Systems.FileSystem
import TriadRuntime.SocketFile
import TriadRuntime.UnixBind
import TriadRuntime.Trace
import TriadRuntime.Workers
import TriadRuntime.Lifecycle
import TriadRuntime.SyncServe
import TriadRuntime.SyncShell
import TriadRuntime.AsyncRun
import TriadRuntime.Cleanup
import TriadRuntime.Routing
import TriadRuntime.StaleSocket
import TriadRuntime.SocketMode
import TriadRuntime.Isolation
import TriadRuntime.Systems.Walks
import TriadRuntime.Preparation
import TriadRuntime.TraceFile
import TriadRuntime.TraceCollect
import TriadRuntime.TraceStall
import TriadRuntime.PathSelection
import TriadRuntime.Argument
import TriadRuntime.Systems.Progress
import TriadRuntime.AsyncProgress
import TriadRuntime.Reaction
import TriadRuntime.FrameFaults
import TriadRuntime.ServeNext
import TriadRuntime.Systems.Mutex
import TriadRuntime.TraceLog
import TriadRuntime.TraceClient
import TriadRuntime.Restart
import TriadRuntime.SyncProgress
import TriadRuntime.SyncCalls
import TriadRuntime.SyncPolling
import TriadRuntime.AsyncShutdown
