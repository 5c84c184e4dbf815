import WebServer.Abstractions.MemoryPool

/-!
# Sockets and events

The records of `Types.hpp`, `Net::Utils::ContextFromSocketHandle` and
`EventHandler::DigestEvent`, and the ways in which the calls into the system end that need not
return.
-/

namespace WebServer

/-- `SocketHandle`, a file descriptor. -/
abbrev SocketHandle := Int32

/-- Handles that convert to the same unsigned number are equal. -/
theorem toUInt32_inj {h h' : SocketHandle} : h.toUInt32 = h'.toUInt32 ↔ h = h' := by
  constructor
  · intro heq
    cases h
    cases h'
    exact congrArg Int32.ofUInt32 heq
  · exact congrArg _

/-- `IPType`. -/
inductive IPType
  | unsupported | ipv4 | ipv6
  deriving DecidableEq, Repr

/-- `BlockingMode`. -/
inductive BlockingMode
  | unknown | blocking | nonBlocking
  deriving DecidableEq, Repr

/-- `Socket`. -/
structure Socket where
  handle : SocketHandle
  port : UInt16
  type : IPType
  mode : BlockingMode
  deriving DecidableEq, Repr

/-- `SocketContext`; `none` is the null pointer of `TLS`. -/
structure SocketContext where
  socket : Socket
  tls : Option Addr
  secure : Bool
  deriving DecidableEq, Repr

/-- The size of a `SocketContext`, which is also the block size of its pool. -/
def sizeofSocketContext : ℕ := 32

/-! ## Addresses -/

/-- `sa_family`. -/
inductive AddressFamily
  | inet | inet6 | other
  deriving DecidableEq, Repr

/-- What `getsockname` leaves in a `SocketAddress`. -/
structure SocketAddress where
  family : AddressFamily
  port : UInt16
  deriving DecidableEq, Repr

/-- `Net::Utils::GetPortFromAddress`, into a variable of 8 bits. -/
def getPortFromAddress (address : SocketAddress) : UInt8 :=
  match address.family with
  | .inet => address.port.toUInt8
  | .inet6 => address.port.toUInt8
  | .other => 0

/-- `Net::Utils::GetAddressFamily`. -/
def getAddressFamily (address : SocketAddress) : IPType :=
  match address.family with
  | .inet => .ipv4
  | .inet6 => .ipv6
  | .other => .unsupported

/-- `Net::Utils::ContextFromSocketHandle`. -/
def contextFromSocketHandle (handle : SocketHandle) (address : SocketAddress) : SocketContext :=
  ⟨⟨handle, (getPortFromAddress address).toUInt16, getAddressFamily address, .nonBlocking⟩,
    none, false⟩

/-! ## Events -/

/-- `EVFILT_READ`. -/
def evfiltRead : Int16 := -1

/-- `EVFILT_WRITE`. -/
def evfiltWrite : Int16 := -2

/-- `EV_EOF`. -/
def evEof : UInt16 := 0x8000

/-- `EV_ERROR`. -/
def evError : UInt16 := 0x4000

/-- `Event`, the `struct kevent` of a fired notification; `none` is a null `udata`. -/
structure Event where
  ident : SocketHandle
  filter : Int16
  flags : UInt16
  udata : Option Addr
  deriving DecidableEq, Repr

/-- `EventType`. -/
inductive EventType
  | read | write | disconnect | weird
  deriving DecidableEq, Repr

/-- `EventAction`. -/
inductive EventAction
  | add | delete | enable | disable
  deriving DecidableEq, Repr

/-- `HandledEvent`. -/
structure HandledEvent where
  context : Option Addr
  type : EventType
  deriving DecidableEq, Repr

/-- `EventHandler::DigestEvent`: three assignments to the type, the later ones over
the earlier ones. -/
def digestEvent (serverHandle : SocketHandle) (event : Event) : HandledEvent :=
  if event.ident = serverHandle then ⟨none, .weird⟩
  else
    let type := EventType.weird
    let type :=
      if event.flags &&& evEof ≠ 0 ∨ event.flags &&& evError ≠ 0 then .disconnect else type
    let type := if event.filter = evfiltRead then .read else type
    let type := if event.filter = evfiltWrite then .write else type
    ⟨event.udata, type⟩

/-- An event of the server socket has no context. -/
theorem digestEvent_server {serverHandle : SocketHandle} {event : Event}
    (h : event.ident = serverHandle) : digestEvent serverHandle event = ⟨none, .weird⟩ :=
  if_pos h

theorem digestEvent_context {serverHandle : SocketHandle} {event : Event}
    (h : event.ident ≠ serverHandle) : (digestEvent serverHandle event).context = event.udata := by
  rw [digestEvent, if_neg h]

/-- Whatever its flags say, an event of the read filter is read. -/
theorem digestEvent_read {serverHandle : SocketHandle} {event : Event}
    (h : event.ident ≠ serverHandle) (hf : event.filter = evfiltRead) :
    digestEvent serverHandle event = ⟨event.udata, .read⟩ := by
  have hw : ¬ event.filter = evfiltWrite := by
    rw [hf]
    decide
  rw [digestEvent, if_neg h]
  simp only [if_pos hf, if_neg hw]

/-! ## Calls that need not return -/

/-- How a `kevent` ends that asks for an event, without a list to store it in and without a
timeout. -/
inductive Waited
  /-- It returns -1 or a count; its callers only trace which. -/
  | returned
  /-- No event comes, and it goes on waiting. -/
  | forever
  /-- One comes, and is stored through the null pointer. -/
  | stored
  deriving DecidableEq, Repr

def Waited.outcome : Waited → Except Fault Unit
  | .returned => .ok ()
  | .forever => .error .diverges
  | .stored => .error .nullPointer

/-- How a call ends that writes to the socket of a client. -/
inductive Written
  | returned (result : ℤ)
  /-- The client has reset the connection, and `SIGPIPE`, which nothing handles, ends the
  process. -/
  | sigpipe
  deriving DecidableEq, Repr

def Written.outcome : Written → Except Fault ℤ
  | .returned result => .ok result
  | .sigpipe => .error (.signal 13)

theorem Written.exists_returned {w : Written} (h : w ≠ .sigpipe) : ∃ n, w = .returned n := by
  cases w with
  | returned n => exact ⟨n, rfl⟩
  | sigpipe => exact absurd rfl h

end WebServer
