import WebServer.Library.Separator
import WebServer.Library.Framing
import WebServer.Library.Table
import WebServer.Library.EventLoop
import WebServer.Library.Sessions
import WebServer.Library.Service
import WebServer.Library.Sweep
import WebServer.Library.LinkedList
import WebServer.Library.Guarded
import WebServer.Library.Monitor
import WebServer.Library.Rounds
import WebServer.Library.Runs
import WebServer.Library.Ownership
import WebServer.Library.Allocation
import WebServer.Runtime.Bytes
import WebServer.Runtime.Fault
import WebServer.Http.Types
import WebServer.Http.Message
import WebServer.Http.Parser
import WebServer.Http.ParserSpec
import WebServer.Http.ParserHistory
import WebServer.Http.HeaderLines
import WebServer.Http.RoundTrip
import WebServer.Http.Rendering
import WebServer.Http.Encoding
import WebServer.Http.ResponseReader
import WebServer.Http.Router
import WebServer.Http.RouterRuns
import WebServer.Http.RouterLookups
import WebServer.Abstractions.MemoryPool
import WebServer.Abstractions.MemoryPoolRuns
import WebServer.Abstractions.MemoryPoolLife
import WebServer.Abstractions.ConcurrentHashMap
import WebServer.Abstractions.HashNodes
import WebServer.Abstractions.LinkedHashMap
import WebServer.Abstractions.BucketSections
import WebServer.Abstractions.ClearSweep
import WebServer.Abstractions.ThreadPool
import WebServer.Abstractions.DynamicLibrary
import WebServer.Socket.Types
import WebServer.Server.Basic
import WebServer.Server.Dispatch
import WebServer.Server.LifeCycle
import WebServer.Server.Resilience
import WebServer.Server.Terminate
import WebServer.Server.Tables
import WebServer.Server.Transcript
import WebServer.Server.ResponseStream
import WebServer.Server.Capacity
import WebServer.Server.TlsCustody
import WebServer.Server.Recognition
import WebServer.Server.ChannelWrite
import WebServer.Server.ChannelRead
import WebServer.Server.ReadPool
import WebServer.Server.ChannelAgreement
import WebServer.Server.SocketOptions
import WebServer.Server.BootSequence
import WebServer.Client.TlsDecorator
import WebServer.Client.Callbacks
import WebServer.Samples.Main
