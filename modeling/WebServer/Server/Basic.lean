import WebServer.Library.EventLoop
import WebServer.Abstractions.ConcurrentHashMap
import WebServer.Http.Parser
import WebServer.Http.Router
import WebServer.Socket.Types

/-!
# The server

`Server`, `HttpServer` and the two channels as one state machine.  The state holds
what the objects hold and what the kernel keeps for them: the open client sockets
and the read registrations of the event manager (the server socket's own
registration, made once in `Boot`, is left out).

Everything the outside world decides while an event is handled comes with the event:
the results of `accept`, `getsockname` and `tls_accept_socket`, the address that
`new` returns, how `Read` ended, the behaviour of the handlers, and how `send`, `tls_close`
and the `kevent` of a disposal end.  Memory is taken to be there: here `new` does not throw.

The event manager is the one for Linux.  Its `RegisterEvent` for a socket asks `kevent` for one
event, with no list and no timeout; the one for macOS asks for none, so that the call returns.

The log is a ghost: it records in order what a client or an operator can see.
-/

namespace WebServer

/-- The channel of a server: `NormalChannel` or `SecureChannel`. -/
inductive Channel
  | normal | secure
  deriving DecidableEq, Repr

/-- What an accept meets outside. -/
structure AcceptAnswer where
  /-- The block that `new` returns if the pool of contexts has to grow. -/
  block : Addr
  /-- The result of `accept`, -1 for a failure. -/
  descriptor : SocketHandle
  /-- The address that `getsockname` finds. -/
  address : SocketAddress
  /-- The result of `tls_accept_socket`. -/
  tlsResult : ℤ
  /-- The context that `tls_accept_socket` stores. -/
  tls : Option Addr

/-- How a handler, called on a request and the response so far, ends: with the
response as it has left it, and with the exception it has thrown, if any. -/
abbrev Behaviour (H : Type) :=
  H → HttpRequest → HttpResponse → HttpResponse × Except CppException Unit

/-- What the disposal of a connection meets outside. -/
structure DisposalAnswer where
  /-- How the `kevent` of `RegisterEvent` ends. -/
  waited : Waited
  /-- How `tls_close` ends, on a secure channel. -/
  tlsClosed : Written

/-- What an event of a client meets outside. -/
structure MessageAnswer (H : Type) where
  /-- How `Read` ended: with a message, or without returning. -/
  read : Except Fault ByteString
  behave : Behaviour H
  /-- How `send` or `tls_write` ends. -/
  sent : Written
  /-- What the disposal of the connection meets, if it comes to one. -/
  disposal : DisposalAnswer

/-- A notification, and what handling it meets outside. -/
structure FiredEvent (H : Type) where
  event : Event
  accept : AcceptAnswer
  message : MessageAnswer H

/-- What a message meets when all calls return. -/
def smoothly {H : Type} (message : ByteString) (behave : Behaviour H) : MessageAnswer H :=
  ⟨.ok message, behave, .returned message.length, ⟨.returned, .returned 0⟩⟩

/-- A notification of the server socket. -/
def acceptEvent {H : Type} (serverSocket : SocketHandle) (a : AcceptAnswer) : FiredEvent H :=
  ⟨⟨serverSocket, evfiltRead, 0, none⟩, a, smoothly [] fun _ _ response => (response, .ok ())⟩

/-- A notification of a client whose `Read` returns a message. -/
def messageEvent {H : Type} (handle : SocketHandle) (ctx : Addr) (message : ByteString)
    (behave : Behaviour H) : FiredEvent H :=
  ⟨⟨handle, evfiltRead, 0, some ctx⟩, ⟨0, -1, ⟨.other, 0⟩, 0, none⟩, smoothly message behave⟩

/-- What can be seen of the server. -/
inductive Action (H : Type)
  /-- `OnClientMessage` got a request from the parser. -/
  | parsed (ctx : Addr) (request : HttpRequest)
  /-- It called a handler. -/
  | handled (handler : H) (request : HttpRequest)
  /-- A response was handed to the channel. -/
  | wrote (ctx : Addr) (response : HttpResponse) (buffer : Buffer)
  /-- The channel was told to dispose of a connection. -/
  | disposed (ctx : Addr)
  deriving DecidableEq

/-- `HttpServer`, its `Server` and what the kernel keeps for them. -/
structure ServerState (H : Type) where
  serverSocket : SocketHandle
  channel : Channel
  /-- `connectionsMemPool`. -/
  connectionsMemPool : MemoryPool
  router : HttpRouter H
  parser : HttpParser
  connections : ConcurrentHashMap UInt32 Addr
  /-- `_lastConnection`, unset until the first client. -/
  lastConnection : Option Addr
  /-- The memory of the context blocks. -/
  contexts : Addr → SocketContext
  /-- The read registrations: handle to `udata`. -/
  registrations : Finmap (fun _ : SocketHandle => Option Addr)
  /-- The open client sockets. -/
  openSockets : Finset SocketHandle
  log : List (Action H)

namespace ServerState

variable {H : Type}

/-! ## The event manager -/

/-- What the change list of a `kevent` does, with one change of a read registration. -/
def applyChange (s : ServerState H) (ident : SocketHandle) (action : EventAction)
    (udata : Option Addr) : ServerState H :=
  match action with
  | .add =>
    -- a descriptor that is not open is refused with `EBADF`
    if ident ∈ s.openSockets then { s with registrations := s.registrations.insert ident udata }
    else s
  | .delete => { s with registrations := s.registrations.erase ident }
  | .enable => s
  | .disable => s

/-- `kevent` with one change, which asks for `nevents` events, without a list for them and
without a timeout.  If it asks for none it returns at once. -/
def kevent (s : ServerState H) (ident : SocketHandle) (action : EventAction)
    (udata : Option Addr) (nevents : ℕ) (waited : Waited) : ServerState H × Except Fault Unit :=
  (s.applyChange ident action udata, if nevents = 0 then .ok () else waited.outcome)

/-- `EventManager::RegisterEvent(ctx, type, action, saveContext)`. -/
def registerContext (s : ServerState H) (ctx : Addr) (action : EventAction)
    (saveContext : Bool) : ServerState H × Except Fault Unit :=
  s.kevent (s.contexts ctx).socket.handle action (if saveContext then some ctx else none) 0
    .returned

/-- `EventManager::RegisterEvent(socket, type, action)`. -/
def registerSocket (s : ServerState H) (socket : SocketHandle) (action : EventAction)
    (waited : Waited) : ServerState H × Except Fault Unit :=
  s.kevent socket action none 1 waited

/-! ## The channels -/

/-- Fill in a context block. -/
def setContext (s : ServerState H) (ctx : Addr) (value : SocketContext) : ServerState H :=
  { s with contexts := Function.update s.contexts ctx value }

/-- `accept`, with the descriptor it returns. -/
def acceptSocket (s : ServerState H) (descriptor : SocketHandle) : ServerState H :=
  if descriptor = -1 then s else { s with openSockets := insert descriptor s.openSockets }

/-- `close`; the kernel drops the registration of a closed descriptor. -/
def closeSocket (s : ServerState H) (handle : SocketHandle) : ServerState H :=
  { s with
    openSockets := s.openSockets.erase handle
    registrations := s.registrations.erase handle }

/-- `AcceptConnection`.  A failed `accept` is reported by `perror` and nothing
else; a failed `tls_accept_socket` ends the process. -/
def acceptConnection (s : ServerState H) (ctx : Addr) (a : AcceptAnswer) :
    ServerState H × Except Fault Unit :=
  match s.channel with
  | .normal =>
    let s := s.acceptSocket a.descriptor
    let x := contextFromSocketHandle a.descriptor a.address
    (s.setContext ctx { s.contexts ctx with socket := x.socket, secure := false }, .ok ())
  | .secure =>
    let s := s.setContext ctx ⟨⟨0, 0, .unsupported, .unknown⟩, none, false⟩
    let s := s.acceptSocket a.descriptor
    let s := s.setContext ctx { s.contexts ctx with tls := a.tls }
    if a.tlsResult ≠ 0 then (s, .error (.exit 1))
    else
      let x := contextFromSocketHandle a.descriptor a.address
      (s.setContext ctx { s.contexts ctx with socket := x.socket, secure := true }, .ok ())

/-- `DisposeConnection`; the result of `tls_close` is only traced. -/
def disposeConnection (s : ServerState H) (ctx : Addr) (tlsClosed : Written) :
    ServerState H × Except Fault Unit :=
  let s := { s with log := s.log ++ [Action.disposed ctx] }
  match s.channel with
  | .normal => (s.closeSocket (s.contexts ctx).socket.handle, .ok ())
  | .secure =>
    match tlsClosed.outcome with
    | .error f => (s, .error f)
    | .ok _ =>
      let s := s.closeSocket (s.contexts ctx).socket.handle
      (s.setContext ctx { s.contexts ctx with tls := none }, .ok ())

/-! ## Connections -/

/-- `HttpServer::OnClientConnected`. -/
def onClientConnected (s : ServerState H) (ctx : Addr) : ServerState H :=
  { s with
    lastConnection := some ctx
    connections := s.connections.insert (s.contexts ctx).socket.handle.toUInt32 ctx }

/-- `HttpServer::OnClientDisconnected`. -/
def onClientDisconnected (s : ServerState H) (ctx : Addr) : ServerState H :=
  { s with connections := s.connections.erase (s.contexts ctx).socket.handle.toUInt32 }

/-- `Server::HandleDisconnectionEvent`. -/
def handleDisconnectionEvent (s : ServerState H) (ctx : Addr) (a : DisposalAnswer) :
    ServerState H × Except Fault Unit :=
  match s.registerSocket (s.contexts ctx).socket.handle .delete a.waited with
  | (s, .error f) => (s, .error f)
  | (s, .ok ()) =>
    match s.disposeConnection ctx a.tlsClosed with
    | (s, .error f) => (s, .error f)
    | (s, .ok ()) =>
      let s := s.onClientDisconnected ctx
      ({ s with connectionsMemPool := s.connectionsMemPool.release ctx true }, .ok ())

/-- `Server::HandleNewConnectionEvent`. -/
def handleNewConnectionEvent (s : ServerState H) (a : AcceptAnswer) :
    ServerState H × Except Fault Unit :=
  match s.connectionsMemPool.allocate sizeofSocketContext (some a.block) with
  | (pool, .error f) => ({ s with connectionsMemPool := pool }, .error f)
  | (pool, .ok none) => ({ s with connectionsMemPool := pool }, .error .nullPointer)
  | (pool, .ok (some ctx)) =>
    match acceptConnection { s with connectionsMemPool := pool } ctx a with
    | (s, .error f) => (s, .error f)
    | (s, .ok ()) =>
      let s := s.onClientConnected ctx
      s.registerContext ctx .add true

/-! ## Messages -/

/-- The response that `OnClientMessage` prepares for a request. -/
def freshResponse (request : HttpRequest) : HttpResponse :=
  (HttpResponse.new.setProtocol request.protocol).addHeader
    ⟨bytes "server", bytes "cpp-webserver-eventdriven-1.0"⟩

/-- The exception for a request without a handler. -/
def resourceNotFound (request : HttpRequest) : CppException :=
  .notFoundException (formatThis "Resource " request.path " not found")

/-- The `try` block of `OnClientMessage`. -/
def callHandler (behave : Behaviour H) (handler : HttpHandler H) (request : HttpRequest)
    (response : HttpResponse) : HttpResponse × Except CppException Unit :=
  match handler with
  | none => (response, .error (resourceNotFound request))
  | some h => behave h request response

/-- The `try` block with its two `catch` clauses: the response that is left, and the
exception that gets past them. -/
def serve (behave : Behaviour H) (handler : HttpHandler H) (request : HttpRequest)
    (response : HttpResponse) : HttpResponse × Except CppException Unit :=
  match callHandler behave handler request response with
  | (response, .ok ()) => (response, .ok ())
  | (response, .error ex) =>
    match ex.asHttpException with
    | some (status, what) =>
      let response := (response.setStatusCode status).setBody what
      let response := response.addHeader ⟨bytes "Connection", bytes "Close"⟩
      let response := response.addHeader ⟨bytes "Content-Type", bytes "text/html"⟩
      (response.addHeader ⟨bytes "Content-Length", bytes "0"⟩, .ok ())
    | none =>
      match ex.asRuntimeError with
      | some what => ((response.setStatusCode .internalServerError).setBody what, .ok ())
      | none => (response, .error ex)

/-- `HttpServer::WriteResponse`: the buffer goes to the channel, and the count that
comes back is cut to 16 bits. -/
def writeResponse (s : ServerState H) (ctx : Addr) (response : HttpResponse) (sent : Written) :
    ServerState H × Except Fault UInt16 :=
  ({ s with log := s.log ++ [Action.wrote ctx response (bufferFromResponse response)] },
    sent.outcome.map UInt16.ofInt)

/-- The handler call in the log. -/
def handlerCall (handler : HttpHandler H) (request : HttpRequest) : List (Action H) :=
  match handler with
  | none => []
  | some h => [.handled h request]

/-- `HttpServer::OnClientMessage` from the moment the request is parsed. -/
def respond (s : ServerState H) (ctx : Addr) (request : HttpRequest) (a : MessageAnswer H) :
    ServerState H × Except Fault Unit :=
  let response := freshResponse request
  let access := s.router.getHandler request.path request.method
  let handler := access.2
  let s := { s with
    router := access.1
    log := s.log ++ (Action.parsed ctx request :: handlerCall handler request) }
  match serve a.behave handler request response with
  | (_, .error ex) => (s, .error (.thrown ex))
  | (response, .ok ()) =>
    match s.writeResponse ctx response a.sent with
    | (s, .error f) => (s, .error f)
    | (s, .ok _) =>
      match request.getHeader (bytes "Connection") with
      | .error f => (s, .error f)
      | .ok value =>
        if value = bytes "close" then s.handleDisconnectionEvent ctx a.disposal else (s, .ok ())

/-- `HttpServer::OnClientMessage`. -/
def onClientMessage (s : ServerState H) (ctx : Addr) (messageBuffer : ByteString)
    (a : MessageAnswer H) : ServerState H × Except Fault Unit :=
  match s.parser.requestFromBuffer messageBuffer with
  | (parser, .error f) => ({ s with parser }, .error f)
  | (parser, .ok request) => respond { s with parser } ctx request a

/-- `Server::HandleMessageEvent`. -/
def handleMessageEvent (s : ServerState H) (ctx : Addr) (a : MessageAnswer H) :
    ServerState H × Except Fault Unit :=
  match a.read with
  | .error f => (s, .error f)
  | .ok buffer => if buffer = [] then (s, .ok ()) else s.onClientMessage ctx buffer a

/-! ## The event loop -/

/-- `catch (...)`: an exception ends here, anything worse does not. -/
def catchAll : ServerState H × Except Fault Unit → ServerState H × Except Fault Unit
  | (s, .error (.thrown _)) => (s, .ok ())
  | r => r

/-- The body of the loop of `HandleConnections`. -/
def handleEvent (s : ServerState H) (e : FiredEvent H) : ServerState H × Except Fault Unit :=
  let result := digestEvent s.serverSocket e.event
  match result.context with
  | none => s.handleNewConnectionEvent e.accept
  | some ctx =>
    match result.type with
    | .read => catchAll (s.handleMessageEvent ctx e.message)
    | .write => (s, .ok ())
    | .disconnect => s.handleDisconnectionEvent ctx e.message.disposal
    | .weird => (s, .ok ())

/-- The batches `GetFiredNotifications` may return: events of the server socket, and
at most one event for each registered client, with the `udata` it registered. -/
structure Deliverable (s : ServerState H) (batch : List (FiredEvent H)) : Prop where
  registered : ∀ e ∈ batch, e.event.ident = s.serverSocket ∨
    s.registrations.lookup e.event.ident = some e.event.udata
  distinct : batch.Pairwise fun e e' =>
    e.event.ident = s.serverSocket ∨ e.event.ident ≠ e'.event.ident

/-- What `new` and `accept` promise to an event of the server socket: a block that is
not in use, and -1 or a descriptor that is not open. -/
def Admissible (s : ServerState H) (e : FiredEvent H) : Prop :=
  e.event.ident = s.serverSocket →
    ¬ s.connectionsMemPool.Knows e.accept.block ∧
      (e.accept.descriptor = -1 ∨
        (e.accept.descriptor ∉ s.openSockets ∧ e.accept.descriptor ≠ s.serverSocket))

end ServerState

/-- `Server::HandleConnections`. -/
def handleConnections (H : Type) : EventLoop.System (ServerState H) (FiredEvent H) Fault where
  handle := ServerState.handleEvent
  deliverable := ServerState.Deliverable
  admissible := ServerState.Admissible

/-- A server that is about to enter its loop, without clients.  Its routes may be
any, and so may be the memory it finds. -/
structure Boot (H : Type) where
  serverSocket : SocketHandle
  channel : Channel
  router : HttpRouter H
  /-- The three blocks its pool of contexts starts with. -/
  blocks : List Addr
  /-- `std::hash<U32>`. -/
  hashFn : UInt32 → ℕ
  contexts : Addr → SocketContext
  blocks_length : blocks.length = 3
  blocks_nodup : blocks.Nodup

/-- The state of such a server. -/
def Boot.state {H : Type} (b : Boot H) : ServerState H where
  serverSocket := b.serverSocket
  channel := b.channel
  connectionsMemPool := MemoryPool.new sizeofSocketContext b.blocks 100
  router := b.router
  parser := HttpParser.new .v11
  connections := ConcurrentHashMap.new b.hashFn
  lastConnection := none
  contexts := b.contexts
  registrations := ∅
  openSockets := ∅
  log := []

/-- A server on descriptor 3 without routes. -/
def Boot.plain (channel : Channel) : Boot Unit where
  serverSocket := 3
  channel
  router := HttpRouter.new
  blocks := [1, 2, 3]
  hashFn := UInt32.toNat
  contexts := fun _ => ⟨⟨0, 0, .unsupported, .unknown⟩, none, false⟩
  blocks_length := rfl
  blocks_nodup := by decide

/-- A client that is accepted on the descriptor `4 + n`. -/
def client (n : ℕ) : FiredEvent Unit :=
  acceptEvent 3 ⟨10 + n, Int32.ofNat (4 + n), ⟨.inet, 80⟩, 0, none⟩

/-- A server with one client, on descriptor 4 and in the block 3. -/
def oneClient : ServerState Unit := ((Boot.plain .normal).state.handleEvent (client 0)).1

/-- Two clients, the second one on descriptor 5 and in the block 2. -/
def twoClients : ServerState Unit := (oneClient.handleEvent (client 1)).1

end WebServer
