import WebServer.Server.Basic
import WebServer.Server.SocketOptions

/-!
# Booting

From a configuration to the event loop: `SocketOptionBuilder`, `HttpServer::Boot`, and of
`Server` and `SecureChannel` what it calls.  A failure on the way is an exception, or the end
of the process.

* `HttpServer.boot` — the sequence, up to the `Boot` that the event loop starts with.
* `HttpServer.boots_iff` — when the loop is reached, and what a failure leaves of the socket.
-/

namespace WebServer

/-! ## Configurations -/

/-- `ServerConfiguration`. -/
structure ServerConfiguration where
  socketOptions : List Int32
  serverPort : UInt16
  maxQueuedConnections : UInt16
  sslEnabled : Bool
  sslCertificatePath : ByteString
  sslPrivateKeyPath : ByteString

/-- What the system calls the options. -/
structure OptionNumbers where
  keepAlive : Int32
  reuseAddress : Int32
  reusePort : Int32

/-- `SocketOptionBuilder`. -/
structure SocketOptionBuilder where
  options : List Int32
  sslEnabled : Bool
  maxQueuedConnections : UInt16
  serverPort : UInt16
  certificatePath : ByteString
  privateKeyPath : ByteString

namespace SocketOptionBuilder

/-- The default constructor. -/
def new : SocketOptionBuilder := ⟨[], false, 100, 80, [], []⟩

def withKeepAlive (b : SocketOptionBuilder) (numbers : OptionNumbers) : SocketOptionBuilder :=
  { b with options := b.options ++ [numbers.keepAlive] }

def withReuseAddress (b : SocketOptionBuilder) (numbers : OptionNumbers) : SocketOptionBuilder :=
  { b with options := b.options ++ [numbers.reuseAddress] }

def withReusePort (b : SocketOptionBuilder) (numbers : OptionNumbers) : SocketOptionBuilder :=
  { b with options := b.options ++ [numbers.reusePort] }

def withSocketOptions (b : SocketOptionBuilder) (option : UInt16) : SocketOptionBuilder :=
  { b with options := b.options ++ [Int32.ofNat option.toNat] }

def withServerPort (b : SocketOptionBuilder) (port : UInt16) : SocketOptionBuilder :=
  { b with serverPort := port }

def withSSL (b : SocketOptionBuilder) (enabled : Bool) : SocketOptionBuilder :=
  { b with sslEnabled := enabled }

def withMaxQueuedConnection (b : SocketOptionBuilder) (connections : UInt16) :
    SocketOptionBuilder :=
  { b with maxQueuedConnections := connections }

def withCertificate (b : SocketOptionBuilder) (path : ByteString) : SocketOptionBuilder :=
  { b with certificatePath := path }

def withPrivateKey (b : SocketOptionBuilder) (path : ByteString) : SocketOptionBuilder :=
  { b with privateKeyPath := path }

def build (b : SocketOptionBuilder) : ServerConfiguration :=
  ⟨b.options, b.serverPort, b.maxQueuedConnections, b.sslEnabled, b.certificatePath,
    b.privateKeyPath⟩

end SocketOptionBuilder

/-- The settings of `HttpServer::Boot` for a server without a configuration. -/
def defaultConfiguration (numbers : OptionNumbers) : ServerConfiguration :=
  let builder := SocketOptionBuilder.new
  let builder := builder.withReuseAddress numbers
  let builder := builder.withReusePort numbers
  let builder := builder.withKeepAlive numbers
  let builder := builder.withMaxQueuedConnection 100
  let builder := builder.withServerPort 443
  let builder := builder.withSSL true
  let builder := builder.withCertificate (bytes "cert.pem")
  let builder := builder.withPrivateKey (bytes "key.pem")
  builder.build

/-! ## What booting meets outside -/

/-- The answers of the system, of the TLS library and of the memory. -/
structure World where
  /-- What `socket` returns. -/
  socket : SocketHandle
  /-- What the `k`-th call of `setsockopt` returns on an open socket. -/
  setsockopt : ℕ → ℤ
  /-- The contents of the files that can be read. -/
  files : ByteString → Option ByteString
  currentWorkingDirectory : ByteString
  /-- Is the pointer that `tls_config_new` returns not null? -/
  tlsConfigNew : Bool
  /-- Is the pointer that `tls_server` returns not null? -/
  tlsServer : Bool
  tlsConfigParseProtocols : ℤ
  tlsConfigSetCiphers : ℤ
  tlsConfigSetKeyMem : ByteString → ℤ
  tlsConfigSetCertMem : ByteString → ℤ
  /-- What `tls_configure` returns with this key and this certificate. -/
  tlsConfigure : ByteString → ByteString → ℤ
  /-- What `bind` returns for an open socket and a port in network byte order. -/
  bind : UInt16 → ℤ
  /-- What `listen` returns for a socket that is bound and a length of its queue. -/
  listen : UInt16 → ℤ
  /-- How the `kevent` ends with which `RegisterEvent` has the socket watched. -/
  registered : Waited
  strerror : ByteString
  /-- The three blocks that the pool of contexts allocates. -/
  blocks : List Addr
  contexts : Addr → SocketContext
  hashFn : UInt32 → ℕ
  blocks_length : blocks.length = 3
  blocks_nodup : blocks.Nodup

namespace World

variable (w : World)

/-! ## Keys -/

/-- `File::Exists`. -/
def fileExists (filename : ByteString) : Bool := (w.files filename).isSome

/-- `File::ReadAllBytes`.  Without a file the size of the vector is that of the position -1,
and its constructor throws. -/
def readAllBytes (filename : ByteString) : Except Fault ByteString :=
  match w.files filename with
  | some content => .ok content
  | none => .error (.thrown .other)

/-- What `LoadPublicKey` and `LoadPrivateKey` throw. -/
def fileNotFound (what : String) (filename : ByteString) : CppException :=
  .runtimeError (bytes "Failed to find file(" ++ (filename ++
    (bytes (") with " ++ what ++ " in directory - ") ++ cString w.currentWorkingDirectory)))

/-- The common body of `LoadPublicKey` and `LoadPrivateKey`. -/
def loadKey (what : String) (path : ByteString) : Except Fault ByteString :=
  let filename := cString path
  if !w.fileExists filename then .error (.thrown (w.fileNotFound what filename))
  else w.readAllBytes filename

def loadPublicKey (path : ByteString) : Except Fault ByteString := w.loadKey "PublicKey" path

def loadPrivateKey (path : ByteString) : Except Fault ByteString := w.loadKey "PrivateKey" path

/-- `SecureChannel::prepare`. -/
def prepare (publicKey privateKey : ByteString) : Except Fault Unit :=
  if !w.tlsConfigNew then .error (.exit 1)
  else if !w.tlsServer then .error (.exit 1)
  else if w.tlsConfigParseProtocols < 0 then .error (.exit 1)
  else if w.tlsConfigSetCiphers < 0 then .error (.exit 1)
  else if w.tlsConfigSetKeyMem privateKey < 0 then .error (.exit 1)
  else if w.tlsConfigSetCertMem publicKey < 0 then .error (.exit 1)
  else if w.tlsConfigure privateKey publicKey < 0 then .error (.exit 1)
  else .ok ()

/-- The constructor of `SecureChannel`; it throws again what it catches. -/
def secureChannel (certificatePath privateKeyPath : ByteString) : Except Fault Channel :=
  match w.loadPublicKey certificatePath with
  | .error f => .error f
  | .ok publicKey =>
    match w.loadPrivateKey privateKeyPath with
    | .error f => .error f
    | .ok privateKey =>
      match w.prepare publicKey privateKey with
      | .error f => .error f
      | .ok () => .ok .secure

/-- The channel that `Server::Setup` makes. -/
def makeChannel (config : ServerConfiguration) : Except Fault Channel :=
  if config.sslEnabled then
    w.secureChannel config.sslCertificatePath config.sslPrivateKeyPath
  else .ok .normal

/-! ## The transport -/

/-- The options of a configuration, with their answers. -/
def optionCalls (config : ServerConfiguration) : List OptionCall :=
  config.socketOptions.zipIdx.map fun p => ⟨p.1, w.setsockopt p.2⟩

/-- The socket that `socket` opens, or none. -/
def openSocket : ServerSocket := { ServerSocket.new with isOpen := w.socket ≠ -1 }

/-- `Server::Setup`. -/
def setup (config : ServerConfiguration) : ServerSocket × Except Fault Channel :=
  (w.openSocket.setOptions (w.optionCalls config), w.makeChannel config)

/-- A call on the socket; on a descriptor that is closed it fails. -/
def onSocket (s : ServerSocket) (answer : ℤ) : ℤ := if s.isOpen then answer else -1

/-- `htons`, on a machine that puts the low byte first. -/
def htons (port : UInt16) : UInt16 := port <<< 8 ||| port >>> 8

/-- `Server::Boot`, up to the event loop. -/
def bootTransport (config : ServerConfiguration) (s : ServerSocket) :
    ServerSocket × Except Fault Unit :=
  if onSocket s (w.bind (htons config.serverPort)) < 0 then
    (s.close, .error (.thrown
      (.runtimeError (formatThis "Socket bind() failed. " w.strerror "."))))
  else if onSocket s (w.listen config.maxQueuedConnections) < 0 then
    (s.close, .error (.thrown
      (.runtimeError (formatThis "Socket listen() failed. " w.strerror "."))))
  else (s, w.registered.outcome)

end World

/-- `HttpServer`, before it is booted. -/
structure HttpServer (H : Type) where
  router : HttpRouter H
  configuration : Option ServerConfiguration

namespace HttpServer

variable {H : Type}

/-- The configuration that `Boot` goes by. -/
def settings (server : HttpServer H) (numbers : OptionNumbers) : ServerConfiguration :=
  server.configuration.getD (defaultConfiguration numbers)

/-- `HttpServer::Boot`: the server that enters the loop, or why none does. -/
def boot (server : HttpServer H) (numbers : OptionNumbers) (w : World) :
    ServerSocket × Except Fault (Boot H) :=
  match w.setup (server.settings numbers) with
  | (socket, .error f) => (socket, .error f)
  | (socket, .ok channel) =>
    match w.bootTransport (server.settings numbers) socket with
    | (socket, .error f) => (socket, .error f)
    | (socket, .ok ()) =>
      (socket, .ok
        { serverSocket := w.socket
          channel
          router := server.router
          blocks := w.blocks
          hashFn := w.hashFn
          contexts := w.contexts
          blocks_length := w.blocks_length
          blocks_nodup := w.blocks_nodup })

end HttpServer

/-! ## When the server boots -/

namespace World

variable {w : World} {config : ServerConfiguration}

/-- What TLS takes: both files, and that the library refuses nothing. -/
structure TlsReady (w : World) (config : ServerConfiguration)
    (publicKey privateKey : ByteString) : Prop where
  certificateFile : w.files (cString config.sslCertificatePath) = some publicKey
  keyFile : w.files (cString config.sslPrivateKeyPath) = some privateKey
  new : w.tlsConfigNew = true ∧ w.tlsServer = true
  protocols : 0 ≤ w.tlsConfigParseProtocols
  ciphers : 0 ≤ w.tlsConfigSetCiphers
  keys : 0 ≤ w.tlsConfigSetKeyMem privateKey ∧ 0 ≤ w.tlsConfigSetCertMem publicKey
  configure : 0 ≤ w.tlsConfigure privateKey publicKey

/-- TLS is ready, if it is wanted. -/
def ChannelReady (w : World) (config : ServerConfiguration) : Prop :=
  config.sslEnabled = true → ∃ publicKey privateKey, w.TlsReady config publicKey privateKey

theorem loadKey_eq_ok_iff {what : String} {path content : ByteString} :
    w.loadKey what path = .ok content ↔ w.files (cString path) = some content := by
  cases hfile : w.files (cString path) with
  | none => simp [loadKey, fileExists, hfile]
  | some c => simp [loadKey, fileExists, readAllBytes, hfile]

theorem prepare_eq_ok_iff {publicKey privateKey : ByteString} :
    w.prepare publicKey privateKey = .ok () ↔
      w.tlsConfigNew = true ∧ w.tlsServer = true ∧ 0 ≤ w.tlsConfigParseProtocols ∧
        0 ≤ w.tlsConfigSetCiphers ∧ 0 ≤ w.tlsConfigSetKeyMem privateKey ∧
        0 ≤ w.tlsConfigSetCertMem publicKey ∧ 0 ≤ w.tlsConfigure privateKey publicKey := by
  rw [prepare]
  split_ifs <;> simp_all

theorem secureChannel_eq_ok_iff {channel : Channel} :
    w.secureChannel config.sslCertificatePath config.sslPrivateKeyPath = .ok channel ↔
      channel = .secure ∧ ∃ publicKey privateKey, w.TlsReady config publicKey privateKey := by
  rw [secureChannel]
  constructor
  · intro h
    split at h
    · cases h
    · rename_i publicKey hpublic
      split at h
      · cases h
      · rename_i privateKey hprivate
        split at h
        · cases h
        · rename_i hprepare
          cases h
          obtain ⟨hconfig, hserver, hprotocols, hciphers, hkey, hcert, hconfigure⟩ :=
            prepare_eq_ok_iff.1 hprepare
          exact ⟨rfl, publicKey, privateKey, loadKey_eq_ok_iff.1 hpublic,
            loadKey_eq_ok_iff.1 hprivate, ⟨hconfig, hserver⟩, hprotocols, hciphers, ⟨hkey, hcert⟩,
            hconfigure⟩
  · rintro ⟨rfl, publicKey, privateKey, h⟩
    have hpublic : w.loadPublicKey config.sslCertificatePath = .ok publicKey :=
      loadKey_eq_ok_iff.2 h.certificateFile
    have hprivate : w.loadPrivateKey config.sslPrivateKeyPath = .ok privateKey :=
      loadKey_eq_ok_iff.2 h.keyFile
    have hprepare : w.prepare publicKey privateKey = .ok () :=
      prepare_eq_ok_iff.2 ⟨h.new.1, h.new.2, h.protocols, h.ciphers, h.keys.1, h.keys.2,
        h.configure⟩
    simp only [hpublic, hprivate, hprepare]

/-- The channel that is made, if one is. -/
def channelOf (config : ServerConfiguration) : Channel :=
  if config.sslEnabled then .secure else .normal

theorem makeChannel_eq_ok_iff {channel : Channel} :
    w.makeChannel config = .ok channel ↔ channel = channelOf config ∧ w.ChannelReady config := by
  rw [makeChannel, channelOf, ChannelReady]
  cases config.sslEnabled with
  | false =>
    simp only [Bool.false_eq_true, if_false, Except.ok.injEq, false_imp_iff, and_true]
    exact eq_comm
  | true =>
    simp only [if_true, forall_const]
    exact secureChannel_eq_ok_iff

/-- The socket is there, and no option is refused. -/
def SocketReady (w : World) (config : ServerConfiguration) : Prop :=
  w.socket ≠ -1 ∧ ∀ c ∈ w.optionCalls config, c.refused = false

/-- How often `SetSocketOption` closes the socket: for every option from the first that is
refused on, or for every option of a socket that is not there. -/
def closedByOptions (w : World) (config : ServerConfiguration) : ℕ :=
  if w.socket = -1 then config.socketOptions.length
  else ((w.optionCalls config).dropWhile fun c => !c.refused).length

/-- What `Setup` leaves of the socket. -/
theorem setup_socket (w : World) (config : ServerConfiguration) :
    ((w.setup config).1.isOpen = true ↔ w.SocketReady config) ∧
      (w.setup config).1.closes = w.closedByOptions config ∧
      (w.SocketReady config →
        (w.setup config).1 = { ServerSocket.new with applied := config.socketOptions }) := by
  have hlength : (w.optionCalls config).length = config.socketOptions.length := by
    rw [optionCalls, List.length_map, List.length_zipIdx]
  have hoptions : (w.optionCalls config).map OptionCall.option = config.socketOptions := by
    rw [optionCalls, List.map_map]
    exact List.zipIdx_map_fst 0 _
  rw [setup, closedByOptions, SocketReady]
  by_cases hsocket : w.socket = -1
  · have hclosed : w.openSocket.isOpen = false := by
      rw [openSocket, hsocket]
      rfl
    rw [ServerSocket.setOptions_of_closed hclosed, if_pos hsocket]
    refine ⟨iff_of_false Bool.false_ne_true fun h => h.1 hsocket, ?_, fun h => absurd hsocket h.1⟩
    show 0 + (w.optionCalls config).length = _
    rw [Nat.zero_add, hlength]
  · have hopen : w.openSocket = ServerSocket.new := by
      rw [openSocket, decide_eq_true hsocket]
      rfl
    rw [hopen, if_neg hsocket]
    refine ⟨?_, ?_, fun h => ?_⟩
    · rw [ServerSocket.setOptions_eq rfl]
      simp [hsocket]
    · rw [ServerSocket.setOptions_eq rfl]
      exact Nat.zero_add _
    · rw [ServerSocket.setOptions_of_kept rfl h.2, hoptions]
      rfl

/-- A good socket is bound and listens. -/
def Listens (w : World) (config : ServerConfiguration) : Prop :=
  w.SocketReady config ∧ 0 ≤ w.bind (htons config.serverPort) ∧
    0 ≤ w.listen config.maxQueuedConnections

/-- What `Boot` does with a socket: it closes it if it does not get to listen, and does not close
it if `kevent` does not return. -/
theorem bootTransport_cases {w : World} {config : ServerConfiguration} {s : ServerSocket}
    (hopen : s.isOpen = true ↔ w.SocketReady config) :
    (¬ w.Listens config ∧ ∃ reason, w.bootTransport config s =
        (s.close, .error (.thrown (.runtimeError reason)))) ∨
      (w.Listens config ∧ w.bootTransport config s = (s, w.registered.outcome)) := by
  rw [bootTransport, Listens, ← hopen]
  cases hs : s.isOpen with
  | false =>
    refine Or.inl ⟨fun h => Bool.false_ne_true h.1, _, if_pos ?_⟩
    simp [onSocket, hs]
  | true =>
    simp only [onSocket, hs, if_true, true_and]
    by_cases hbind : w.bind (htons config.serverPort) < 0
    · rw [if_pos hbind]
      exact Or.inl ⟨fun h => absurd h.1 (by omega), _, rfl⟩
    · rw [if_neg hbind]
      by_cases hlisten : w.listen config.maxQueuedConnections < 0
      · rw [if_pos hlisten]
        exact Or.inl ⟨fun h => absurd h.2 (by omega), _, rfl⟩
      · rw [if_neg hlisten]
        exact Or.inr ⟨⟨by omega, by omega⟩, rfl⟩

end World

namespace HttpServer

variable {H : Type}

/-- What it takes to boot. -/
def Boots (server : HttpServer H) (numbers : OptionNumbers) (w : World) : Prop :=
  w.SocketReady (server.settings numbers) ∧ w.ChannelReady (server.settings numbers) ∧
    0 ≤ w.bind (World.htons (server.settings numbers).serverPort) ∧
    0 ≤ w.listen (server.settings numbers).maxQueuedConnections ∧ w.registered = .returned

/-- The server that enters the loop. -/
def booted (server : HttpServer H) (numbers : OptionNumbers) (w : World) : Boot H where
  serverSocket := w.socket
  channel := World.channelOf (server.settings numbers)
  router := server.router
  blocks := w.blocks
  hashFn := w.hashFn
  contexts := w.contexts
  blocks_length := w.blocks_length
  blocks_nodup := w.blocks_nodup

/-- **What `Boot` does**, by what it fails at. -/
theorem boot_cases (server : HttpServer H) (numbers : OptionNumbers) (w : World) :
    (¬ w.ChannelReady (server.settings numbers) ∧ ∃ f,
        server.boot numbers w = ((w.setup (server.settings numbers)).1, .error f)) ∨
      (w.ChannelReady (server.settings numbers) ∧ ¬ w.Listens (server.settings numbers) ∧ ∃ f,
        server.boot numbers w = ((w.setup (server.settings numbers)).1.close, .error f)) ∨
      (w.ChannelReady (server.settings numbers) ∧ w.Listens (server.settings numbers) ∧
        w.registered ≠ .returned ∧ ∃ f,
        server.boot numbers w = ((w.setup (server.settings numbers)).1, .error f)) ∨
      (server.Boots numbers w ∧ server.boot numbers w =
        ((w.setup (server.settings numbers)).1, .ok (server.booted numbers w))) := by
  have hsocket := (w.setup_socket (server.settings numbers)).1
  cases hchannel : w.makeChannel (server.settings numbers) with
  | error f =>
    refine Or.inl ⟨fun hready => ?_, f, ?_⟩
    · cases (World.makeChannel_eq_ok_iff.2 ⟨rfl, hready⟩).symm.trans hchannel
    · rw [boot, World.setup, hchannel]
  | ok channel =>
    obtain ⟨rfl, hready⟩ := World.makeChannel_eq_ok_iff.1 hchannel
    have hboot : server.boot numbers w =
        match w.bootTransport (server.settings numbers) (w.setup (server.settings numbers)).1 with
        | (socket, .error f) => (socket, .error f)
        | (socket, .ok ()) => (socket, .ok (server.booted numbers w)) := by
      rw [boot, World.setup, hchannel]
      rfl
    right
    rcases World.bootTransport_cases hsocket with ⟨hfail, reason, hgo⟩ | ⟨hlistens, hgo⟩
    · rw [hgo] at hboot
      exact Or.inl ⟨hready, hfail, _, hboot⟩
    · rw [hgo] at hboot
      right
      cases hregistered : w.registered with
      | returned =>
        rw [hregistered] at hboot
        obtain ⟨hopen, hbind, hlisten⟩ := hlistens
        exact Or.inr ⟨⟨hopen, hready, hbind, hlisten, hregistered⟩, hboot⟩
      | forever =>
        rw [hregistered] at hboot
        exact Or.inl ⟨hready, hlistens, nofun, _, hboot⟩
      | stored =>
        rw [hregistered] at hboot
        exact Or.inl ⟨hready, hlistens, nofun, _, hboot⟩

theorem eq_booted {server : HttpServer H} {numbers : OptionNumbers} {w : World} {b : Boot H}
    (h : (server.boot numbers w).2 = .ok b) : b = server.booted numbers w := by
  obtain ⟨-, f, hboot⟩ | ⟨-, -, f, hboot⟩ | ⟨-, -, -, f, hboot⟩ | ⟨-, hboot⟩ :=
    server.boot_cases numbers w
  · rw [hboot] at h
    cases h
  · rw [hboot] at h
    cases h
  · rw [hboot] at h
    cases h
  · rw [hboot] at h
    exact (Except.ok.inj h).symm

/-- **When the server boots**: `socket` has to succeed, and no option may be refused, for that
closes the socket; a channel with TLS takes both files and seven calls of the library; `bind` and
`listen` have to succeed; and the registration of the socket has to return.  The server enters the
loop with the socket open, all options set, and with the routes that were registered.  If it
fails, the descriptor was closed once for each option from the first that was refused on (or for
each, without a socket), and once more if the channel was made and the socket did not get to
listen; and it is left open exactly if it is a good one, and the channel was not made or the
registration did not return. -/
theorem boots_iff (server : HttpServer H) (numbers : OptionNumbers) (w : World) :
    ((∃ b, (server.boot numbers w).2 = .ok b) ↔ server.Boots numbers w) ∧
      (∀ b, (server.boot numbers w).2 = .ok b →
        b.serverSocket = w.socket ∧ b.router = server.router ∧
          b.channel = World.channelOf (server.settings numbers) ∧
          (server.boot numbers w).1 =
            { ServerSocket.new with applied := (server.settings numbers).socketOptions }) ∧
      (∀ f, (server.boot numbers w).2 = .error f →
        ((server.boot numbers w).1.isOpen = true ↔
          w.SocketReady (server.settings numbers) ∧
            (¬ w.ChannelReady (server.settings numbers) ∨
              w.Listens (server.settings numbers) ∧ w.registered ≠ .returned)) ∧
        (w.ChannelReady (server.settings numbers) ∧ ¬ w.Listens (server.settings numbers) →
          (server.boot numbers w).1.closes =
            w.closedByOptions (server.settings numbers) + 1) ∧
        (¬ (w.ChannelReady (server.settings numbers) ∧ ¬ w.Listens (server.settings numbers)) →
          (server.boot numbers w).1.closes =
            w.closedByOptions (server.settings numbers))) := by
  obtain ⟨hopen, hcloses, hset⟩ := w.setup_socket (server.settings numbers)
  obtain ⟨hnot, f, hboot⟩ | ⟨hready, hfail, f, hboot⟩ | ⟨hready, hlistens, hwaits, f, hboot⟩ |
    ⟨hboots, hboot⟩ := server.boot_cases numbers w
  · rw [hboot]
    refine ⟨iff_of_false (fun ⟨b, hb⟩ => ?_) fun h => hnot h.2.1, fun b hb => ?_, fun f' _ => ?_⟩
    · cases hb
    · cases hb
    · exact ⟨hopen.trans (and_iff_left (Or.inl hnot)).symm, fun h => absurd h.1 hnot,
        fun _ => hcloses⟩
  · rw [hboot]
    refine ⟨iff_of_false (fun ⟨b, hb⟩ => ?_) fun h => hfail ⟨h.1, h.2.2.1, h.2.2.2.1⟩,
      fun b hb => ?_, fun f' _ => ?_⟩
    · cases hb
    · cases hb
    · refine ⟨iff_of_false Bool.false_ne_true ?_, fun _ => congrArg (· + 1) hcloses,
        fun h => absurd ⟨hready, hfail⟩ h⟩
      rintro ⟨-, hnot | ⟨hlistens, -⟩⟩
      · exact hnot hready
      · exact hfail hlistens
  · rw [hboot]
    refine ⟨iff_of_false (fun ⟨b, hb⟩ => ?_) fun h => hwaits h.2.2.2.2, fun b hb => ?_,
      fun f' _ => ?_⟩
    · cases hb
    · cases hb
    · exact ⟨hopen.trans (and_iff_left (Or.inr ⟨hlistens, hwaits⟩)).symm,
        fun h => absurd hlistens h.2, fun _ => hcloses⟩
  · rw [hboot]
    refine ⟨iff_of_true ⟨_, rfl⟩ hboots, fun b hb => ?_, fun f' hf => ?_⟩
    · cases hb
      exact ⟨rfl, rfl, rfl, hset hboots.1⟩
    · cases hf

end HttpServer

end WebServer
