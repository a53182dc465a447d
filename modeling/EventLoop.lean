import EventLoop.Lib.Runs
import EventLoop.Lib.Framing
import EventLoop.Lib.SavedCell
import EventLoop.Timer.NsTimer
import EventLoop.Timer.Watchdog
import EventLoop.WebSocket.Stream
import EventLoop.Dns.ServerTable
import EventLoop.Loop.Readiness
import EventLoop.Task.Ownership
import EventLoop.Task.Completion
import EventLoop.Lib.Bisect
import EventLoop.Lib.Records
import EventLoop.LogFile.Format
import EventLoop.LogFile.Search
import EventLoop.LogFile.RangeQuery
import EventLoop.Lib.Delimited
import EventLoop.Uart.SerialLine
import EventLoop.LogServer.Reassembly
import EventLoop.Loop.MaxSock
import EventLoop.Loop.Signals
import EventLoop.LogFile.LowerBound
import EventLoop.LogFile.Output
import EventLoop.LogFile.LineSize
import EventLoop.Dns.TransactionId
import EventLoop.Callback.Registration
import EventLoop.Task.Initialisation
import EventLoop.Callback.TaskObject
import EventLoop.LogFile.PastEnd
import EventLoop.Dns.Attempts
import EventLoop.Dns.Coverage
import EventLoop.Dns.Name
import EventLoop.Dns.Reply
import EventLoop.Dns.Datagram
import EventLoop.LogFile.Termination
import EventLoop.Loop.Alarm
import EventLoop.Task.Sleep
import EventLoop.LogFile.Buffers
import EventLoop.Dns.Configuration
import EventLoop.Dns.Expansion
import EventLoop.Dns.Encoding
import EventLoop.Dns.Records
import EventLoop.Dns.Asking
import EventLoop.Dns.HostAddresses
import EventLoop.Dns.AddressList
import EventLoop.Dns.SearchDomain
import EventLoop.Dns.HostEntry
import EventLoop.Dns.EntryCopy
import EventLoop.WebSocket.ReturnCode
import EventLoop.WebSocket.Buffers
import EventLoop.Dns.Skipping
import EventLoop.Task.Stack
import EventLoop.Timer.PollTimeout
import EventLoop.Timer.TimeLeft
import EventLoop.Json.Envelope
import EventLoop.Lib.Occupancy
import EventLoop.Malloc.Pool
import EventLoop.Malloc.Realloc
import EventLoop.Loop.ExceptStates
import EventLoop.Lib.Exceptions
import EventLoop.Lib.Machine
import EventLoop.Lib.Coroutines
import EventLoop.Loop.TryCatch
import EventLoop.Loop.HandlerCalls
import EventLoop.Loop.TimerService
import EventLoop.Task.Asm
import EventLoop.Task.ContextSwitch
import EventLoop.Task.MakeContext
import EventLoop.Common.Getopt
import EventLoop.LogFile.ReadIn
import EventLoop.LogFile.Tail
import EventLoop.Process.SubProcess
import EventLoop.Lib.LinkedList
import EventLoop.Timer.Links
import EventLoop.WebSocket.Pipeline
import EventLoop.Common.OsInternal
import EventLoop.Common.Conversions
import EventLoop.Dns.Exchange
