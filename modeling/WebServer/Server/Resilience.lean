import WebServer.Server.LifeCycle

/-!
# What the loop survives

The behaviour of the loop when something goes wrong for one connection.

* `reclaimed_iff` — a client that is gone: its event is read like any other.
* `loop_survives` — the events the loop gets over, with the other connections as
  they were; `exists_exhausted` — a hundred clients and one more end it.
* `accept_failure_changes` — an accept that fails changes the state.
-/

namespace WebServer

open Sessions

namespace ServerState

variable {H : Type}

/-! ## Clients that are gone -/

/-- The event says that its client is gone: an error, or the end of its stream with
nothing left to read. -/
def TellsClosed (e : FiredEvent H) : Prop :=
  e.event.flags &&& evError ≠ 0 ∨ (e.event.flags &&& evEof ≠ 0 ∧ e.message.read = .ok [])

/-- Nothing of the connection is left. -/
structure Reclaimed (s : ServerState H) (h : SocketHandle) (ctx : Addr) : Prop where
  unconnected : s.connections.find h.toUInt32 = none
  unregistered : h ∉ s.registrations
  released : ctx ∈ s.connectionsMemPool.blocks

theorem Represents.ne_failed {s : ServerState H} {b : Book SocketHandle Addr}
    (hr : Represents s b) {h : SocketHandle} {ctx : Addr} (hlive : b.live h = some ctx) :
    h ≠ -1 := by
  rintro rfl
  rw [hr.notFailed] at hlive
  cases hlive

/-- `HandleDisconnectionEvent` leaves nothing of a connection, if its calls return. -/
theorem Represents.reclaimed {s : ServerState H} {b : Book SocketHandle Addr}
    (hr : Represents s b) (hv : b.Valid) {h : SocketHandle} {ctx : Addr}
    (hlive : b.live h = some ctx) : Reclaimed (s.disconnected ctx) h ctx where
  unconnected := by
    rw [(hr.retire hv hlive).connections h (hr.ne_failed hlive), Book.live_retire, if_pos rfl]
  unregistered := by
    rw [← Finmap.lookup_eq_none, (hr.retire hv hlive).registrations, Book.live_retire, if_pos rfl]
    rfl
  released := by
    rw [(disconnected_tables s ctx).2.2.2.2.2.1]
    exact List.mem_cons_self ..

/-- A connection is still there as long as the table of connections has not changed. -/
theorem Represents.not_reclaimed {s s' : ServerState H} {b : Book SocketHandle Addr}
    (hr : Represents s b) (hsame : s'.connections = s.connections) {h : SocketHandle} {ctx : Addr}
    (hlive : b.live h = some ctx) : ¬ Reclaimed s' h ctx := by
  intro hrec
  have hnone := hrec.unconnected
  rw [hsame, hr.connections h (hr.ne_failed hlive), hlive] at hnone
  cases hnone

/-! ## The loop goes on -/

/-- `Read` returns nothing, or throws, or returns a message that is parsed inside its deques;
and if the request of the message is served, the calls that follow on it return. -/
def MessageEnds (s : ServerState H) (a : MessageAnswer H) : Prop :=
  match a.read with
  | .ok message => message = [] ∨
      (WellSplit message ∧ ∀ request, HttpParser.parse message = .ok request →
        Caught a.behave (s.selected request) request → CallsReturn s.channel a request)
  | .error f => ∃ ex, f = .thrown ex

/-- The event is not one of those that end the loop: an accept while a hundred
contexts are out, a failed handshake, a `Read` or a parse outside its memory, a response to a
client that has reset its connection, and a disposal whose calls do not return. -/
structure Benign (s : ServerState H) (e : FiredEvent H) : Prop where
  accept : e.event.ident = s.serverSocket → s.connectionsMemPool.handedOut.length < 100 ∧
    (s.channel = .secure → e.accept.tlsResult = 0)
  message : e.event.ident ≠ s.serverSocket → (digestEvent s.serverSocket e.event).type = .read →
    MessageEnds s e.message
  disconnect : e.event.ident ≠ s.serverSocket →
    (digestEvent s.serverSocket e.event).type = .disconnect →
    Returns s.channel e.message.disposal

/-- The handle an event is about. -/
def subject (s : ServerState H) (e : FiredEvent H) : SocketHandle :=
  if e.event.ident = s.serverSocket then e.accept.descriptor else e.event.ident

/-- The loop goes on to the next event, with the entries of the other connections
unchanged. -/
structure Survives (s : ServerState H) (e : FiredEvent H) : Prop where
  ok : (s.handleEvent e).2 = .ok ()
  connections : ∀ h, h ≠ s.subject e →
    (s.handleEvent e).1.connections.find h.toUInt32 = s.connections.find h.toUInt32
  registrations : ∀ h, h ≠ s.subject e →
    (s.handleEvent e).1.registrations.lookup h = s.registrations.lookup h
  openSockets : ∀ h, h ≠ s.subject e →
    (h ∈ (s.handleEvent e).1.openSockets ↔ h ∈ s.openSockets)

/-- The loop gets over a message exactly if it gets over all that is done with it. -/
theorem catchAll_handleMessageEvent {s : ServerState H} (hp : s.parser.Reachable) (ctx : Addr)
    (a : MessageAnswer H) :
    (catchAll (s.handleMessageEvent ctx a)).2 = .ok () ↔ MessageEnds s a := by
  unfold MessageEnds
  cases hread : a.read with
  | error f =>
    rw [handleMessageEvent, hread, catchAll_snd_eq_ok]
    simp
  | ok message =>
    by_cases hne : message = []
    · rw [handleMessageEvent, hread]
      simp [hne, catchAll]
    · have hparse := hp.requestFromBuffer_snd message
      rw [handleMessageEvent_of_read hread hne]
      simp only [hne, false_or]
      rcases HttpParser.parse_cases message with
        ⟨hn, hr⟩ | ⟨hw, -, hr⟩ | ⟨hpm, m, path, lines, -, hr, -⟩
      · rw [onClientMessage_of_error (hparse.trans hr), catchAll_snd_eq_ok]
        simp [hn]
      · rw [onClientMessage_of_error (hparse.trans hr), catchAll_snd_eq_ok]
        simp [hw, hr]
      · rw [onClientMessage_of_ok (hparse.trans hr), catchAll_respond]
        simp only [wellSplit_of_parses hpm, hr, true_and, Except.ok.injEq, forall_eq']
        rfl

/-- The loop goes on after an event of a client exactly if its message or its disposal ends. -/
theorem handleEvent_client_ok {s : ServerState H} (hp : s.parser.Reachable) {e : FiredEvent H}
    {ctx : Addr} (hid : e.event.ident ≠ s.serverSocket) (hctx : e.event.udata = some ctx) :
    (s.handleEvent e).2 = .ok () ↔
      ((digestEvent s.serverSocket e.event).type = .read → MessageEnds s e.message) ∧
        ((digestEvent s.serverSocket e.event).type = .disconnect →
          Returns s.channel e.message.disposal) := by
  rw [handleEvent_client hid hctx]
  split_ifs with hread hdisconnect
  · rw [catchAll_handleMessageEvent hp, hread]
    simp
  · rw [handleDisconnectionEvent_snd, hdisconnect]
    simp only [reduceCtorEq, false_imp_iff, true_and, forall_const]
    rcases disposalOutcome_cases s.channel e.message.disposal with ⟨hret, hok⟩ | ⟨hret, f, -, hf⟩
    · exact iff_of_true hok hret
    · exact iff_of_false (fun hok => nomatch hf.symm.trans hok) hret
  · exact iff_of_true rfl ⟨fun h => absurd h hread, fun h => absurd h hdisconnect⟩

/-- The entries of the other connections, after an event of a client. -/
theorem survives_client {s : ServerState H} {b : Book SocketHandle Addr} (hr : Represents s b)
    {e : FiredEvent H} {ctx : Addr} (hid : e.event.ident ≠ s.serverSocket)
    (hctx : e.event.udata = some ctx) (hlive : b.live e.event.ident = some ctx)
    (hok : (s.handleEvent e).2 = .ok ()) : Survives s e := by
  have hsubject : s.subject e = e.event.ident := if_neg hid
  rcases handleEvent_client_tables hr.parser hid hctx with hs | ⟨s', hs', heq⟩ | hcut
  · exact ⟨hok, fun h _ => by rw [hs.connections], fun h _ => by rw [hs.registrations],
      fun h _ => by rw [hs.openSockets]⟩
  · obtain ⟨-, -, hopen, hreg, hconn, -⟩ := disconnected_tables s' ctx
    rw [hs'.contexts, hr.handle _ _ hlive] at hopen hreg hconn
    refine ⟨hok, ?_, ?_, ?_⟩
    · intro h hne
      rw [hsubject] at hne
      rw [heq, hconn, hs'.connections, ConcurrentHashMap.find_erase, if_neg]
      rwa [toUInt32_inj]
    · intro h hne
      rw [hsubject] at hne
      rw [heq, hreg, hs'.registrations, Finmap.lookup_erase_ne hne, Finmap.lookup_erase_ne hne]
    · intro h hne
      rw [hsubject] at hne
      rw [heq, hopen, hs'.openSockets, Finset.mem_erase]
      simp [hne]
  · exact absurd hcut ((proceeds_of_ok hok).2 ctx)

/-- An accept is survived exactly if there is a block and the handshake succeeds. -/
theorem survives_accept_iff {s : ServerState H} {b : Book SocketHandle Addr}
    (hr : Represents s b) {e : FiredEvent H} (hid : e.event.ident = s.serverSocket)
    (ha : Admissible s e) :
    Survives s e ↔ s.connectionsMemPool.handedOut.length < 100 ∧
      (s.channel = .secure → e.accept.tlsResult = 0) := by
  have hsubject : s.subject e = e.accept.descriptor := if_pos hid
  constructor
  · intro h
    have htls := handshakeSucceeds_of_ok h.ok hid
    refine ⟨?_, htls⟩
    rcases handleNewConnectionEvent_cases hr (ha hid).1 htls with ⟨-, heq⟩ | ⟨hlt, -⟩
    · have hok := h.ok
      rw [handleEvent_server hid, heq] at hok
      cases hok
    · exact hlt
  · rintro ⟨hlt, htls⟩
    rcases handleNewConnectionEvent_cases hr (ha hid).1 htls with
      ⟨hfull, -⟩ | ⟨-, pool, ctx, value, hvalue, -, -, -, -, -, -, heq⟩
    · omega
    · rw [← handleEvent_server hid] at heq
      refine ⟨by rw [heq], ?_, ?_, ?_⟩
      · intro h hne
        rw [hsubject, ← hvalue] at hne
        rw [heq, accepted, ConcurrentHashMap.find_insert, if_neg]
        rwa [toUInt32_inj]
      · intro h hne
        rw [hsubject, ← hvalue] at hne
        rw [heq, accepted]
        simp only
        split_ifs
        · rfl
        · exact Finmap.lookup_insert_of_ne _ hne
      · intro h hne
        rw [hsubject, ← hvalue] at hne
        rw [heq, accepted]
        simp only
        split_ifs
        · rfl
        · simp [hne]

/-- **Exactly which events the loop gets over.** -/
theorem survives_iff_benign {s : ServerState H} {b : Book SocketHandle Addr}
    (hr : Represents s b) {e : FiredEvent H} (hl : Live s e) (ha : Admissible s e) :
    Survives s e ↔ Benign s e := by
  by_cases hid : e.event.ident = s.serverSocket
  · rw [survives_accept_iff hr hid ha]
    constructor
    · intro h
      exact ⟨fun _ => h, fun hne => absurd hid hne, fun hne => absurd hid hne⟩
    · intro h
      exact h.accept hid
  · obtain ⟨ctx, hctx, hreg⟩ := hl.resolve_left hid
    have hlive := hr.live_of_lookup.1 hreg
    constructor
    · intro h
      obtain ⟨hmessage, hdisconnect⟩ := (handleEvent_client_ok hr.parser hid hctx).1 h.ok
      exact ⟨fun heq => absurd heq hid, fun _ => hmessage, fun _ => hdisconnect⟩
    · intro h
      exact survives_client hr hid hctx hlive
        ((handleEvent_client_ok hr.parser hid hctx).2 ⟨h.message hid, h.disconnect hid⟩)

/-! ## Accepts that fail -/

/-- The connections, the registrations, the last connection and the outstanding
contexts are those of before. -/
structure Unchanged (s s' : ServerState H) : Prop where
  connections : ∀ key, s'.connections.find key = s.connections.find key
  registrations : s'.registrations = s.registrations
  lastConnection : s'.lastConnection = s.lastConnection
  outstanding : ∀ ctx, ctx ∈ s'.connectionsMemPool.handedOut ↔
    ctx ∈ s.connectionsMemPool.handedOut

/-- A failed accept puts a block under the key of -1 and keeps it. -/
theorem handleEvent_accept_failure {s : ServerState H} {b : Book SocketHandle Addr}
    (hr : Represents s b) {e : FiredEvent H} (hid : e.event.ident = s.serverSocket)
    (ha : Admissible s e) (htls : s.channel = .secure → e.accept.tlsResult = 0)
    (hroom : s.connectionsMemPool.handedOut.length < 100) (hfail : e.accept.descriptor = -1) :
    (s.handleEvent e).2 = .ok () ∧ ∃ ctx, ctx ∉ s.connectionsMemPool.handedOut ∧
      (s.handleEvent e).1.connectionsMemPool.handedOut =
        ctx :: s.connectionsMemPool.handedOut ∧
      (s.handleEvent e).1.connections.find (-1 : SocketHandle).toUInt32 = some ctx ∧
      (s.handleEvent e).1.lastConnection = some ctx ∧
      (s.handleEvent e).1.registrations = s.registrations := by
  rcases handleNewConnectionEvent_cases hr (ha hid).1 htls with
    ⟨hfull, -⟩ | ⟨-, pool, ctx, value, hvalue, hctx, hout, -, -, -, -, heq⟩
  · omega
  · rw [← handleEvent_server hid] at heq
    rw [heq]
    refine ⟨rfl, ctx, ?_, hout, ?_, rfl, ?_⟩
    · rwa [hr.handedOut]
    · simp [accepted, hvalue, hfail]
    · exact if_pos (hvalue.trans hfail)

end ServerState

open ServerState

variable {H : Type}

/-! ## Runs -/

/-- What is known when the loop is about to handle an event. -/
theorem ready {boot : Boot H} {guard : ServerState H → FiredEvent H → Prop}
    {c : EventLoop.Config (ServerState H) (FiredEvent H) Fault}
    (h : EventLoop.Reachable (handleConnections H) guard boot.state c) (hgo : c.stopped = none)
    {e : FiredEvent H} {rest : List (FiredEvent H)} (hpending : c.pending = e :: rest) :
    ∃ b, Run b ∧ Represents c.state b ∧ Live c.state e := by
  obtain ⟨hrep, hlive⟩ := represents_of_reachable h
  obtain ⟨b, hrun, hr, -⟩ := hrep (Or.inl hgo)
  refine ⟨b, hrun, hr, hlive hgo e ?_⟩
  rw [hpending]
  exact List.mem_cons_self ..

/-! ## Servers with clients -/

theorem ofNat_ne {m n : ℕ} (hm : m < 2 ^ 31) (hn : n < 2 ^ 31) (hne : m ≠ n) :
    Int32.ofNat m ≠ Int32.ofNat n := by
  intro heq
  have hint := congrArg Int32.toInt heq
  rw [Int32.toInt_ofNat_of_lt hm, Int32.toInt_ofNat_of_lt hn] at hint
  omega

/-- A server with `n` clients, none of them on a later descriptor. -/
structure Serves (s : ServerState Unit) (n : ℕ) : Prop where
  serverSocket : s.serverSocket = 3
  channel : s.channel = .normal
  represents : ∃ b, Run b ∧ Represents s b ∧
    ∀ m, n ≤ m → m ≤ 100 → b.live (Int32.ofNat (4 + m)) = none
  outstanding : s.connectionsMemPool.handedOut.length = n
  fresh : ∀ m, n ≤ m → ¬ s.connectionsMemPool.Knows (10 + m)

theorem serves_plain : Serves (Boot.plain .normal).state 0 where
  serverSocket := rfl
  channel := rfl
  represents := ⟨Book.empty, Relation.ReflTransGen.refl, represents_boot _, fun _ _ _ => rfl⟩
  outstanding := rfl
  fresh := by
    rintro m _ (hm | hm)
    · have hmem : 10 + m ∈ [3, 2, 1] := hm
      simp only [List.mem_cons, List.not_mem_nil, or_false] at hmem
      omega
    · cases hm

theorem Serves.admissible {s : ServerState Unit} {n : ℕ} (h : Serves s n) (hn : n ≤ 100) :
    Admissible s (client n) := by
  intro _
  obtain ⟨b, -, hr, hfree⟩ := h.represents
  refine ⟨h.fresh n le_rfl, Or.inr ⟨?_, ?_⟩⟩
  · show Int32.ofNat (4 + n) ∉ s.openSockets
    rw [hr.openSockets, hfree n le_rfl hn]
    decide
  · rw [h.serverSocket]
    show Int32.ofNat (4 + n) ≠ Int32.ofNat 3
    exact ofNat_ne (by omega) (by omega) (by omega)

/-- One client more. -/
theorem Serves.next {s : ServerState Unit} {n : ℕ} (h : Serves s n) (hn : n < 100) :
    (s.handleEvent (client n)).2 = .ok () ∧ Serves (s.handleEvent (client n)).1 (n + 1) := by
  have hid : (client n).event.ident = s.serverSocket := h.serverSocket.symm
  obtain ⟨b, hrun, hr, hfree⟩ := h.represents
  have ha := h.admissible (by omega)
  have htls : s.channel = .secure → (client n).accept.tlsResult = 0 := fun _ => rfl
  rcases handleNewConnectionEvent_cases hr (ha hid).1 htls with
    ⟨hfull, -⟩ | ⟨-, pool, ctx, value, hvalue, hctx, hout, hacc, hbs, hmax, hknows, heq⟩
  · rw [h.outstanding] at hfull
    omega
  · rw [← handleEvent_server hid] at heq
    have hne1 : value.socket.handle ≠ -1 := by
      rw [hvalue]
      intro hm1
      have hint := congrArg Int32.toInt hm1
      have hof : (client n).accept.descriptor = Int32.ofNat (4 + n) := rfl
      rw [hof, Int32.toInt_ofNat_of_lt (by omega)] at hint
      have hneg : (-1 : Int32).toInt = -1 := by decide
      omega
    have hne3 : value.socket.handle ≠ s.serverSocket := by
      rw [hvalue, h.serverSocket]
      show Int32.ofNat (4 + n) ≠ Int32.ofNat 3
      exact ofNat_ne (by omega) (by omega) (by omega)
    have hnone : b.live value.socket.handle = none := by
      rw [hvalue]
      exact hfree n le_rfl (by omega)
    rw [heq]
    refine ⟨rfl, h.serverSocket, h.channel, ?_, ?_, ?_⟩
    · refine ⟨_, hrun.step (.enroll hnone hctx),
        hr.enroll hctx hout hacc hbs hmax hne1 hne3 hnone, ?_⟩
      intro m hm hle
      rw [Book.live_enroll, if_neg, hfree m (by omega) hle]
      rw [hvalue]
      exact ofNat_ne (by omega) (by omega) (by omega)
    · show pool.handedOut.length = n + 1
      rw [hout, List.length_cons, h.outstanding]
    · intro m hm hk
      rcases hknows _ hk with heq' | hk'
      · change 10 + m = 10 + n at heq'
        omega
      · exact h.fresh m (by omega) hk'

/-- Up to a hundred clients can be there at once. -/
theorem exists_serves {n : ℕ} (hn : n ≤ 100) :
    ∃ s, EventLoop.Trace (handleConnections Unit) (fun _ _ => True) (Boot.plain .normal).state
      ((List.range n).map client) ⟨s, [], none⟩ ∧ Serves s n := by
  induction n with
  | zero => exact ⟨_, .start, serves_plain⟩
  | succ n ih =>
    obtain ⟨s, htrace, hs⟩ := ih (by omega)
    obtain ⟨hok, hnext⟩ := hs.next (by omega)
    have hid : (client n).event.ident = s.serverSocket := hs.serverSocket.symm
    have hfetch := htrace.fetch (deliverable_singleton (Or.inl hid))
    refine ⟨_, ?_, hnext⟩
    rw [List.range_succ, List.map_append]
    exact hfetch.next (hs.admissible (by omega)) trivial hok

/-- The client on descriptor 4 is gone; what it has left unread is `message`. -/
def clientGone (flags : UInt16) (message : ByteString) : FiredEvent Unit :=
  { messageEvent 4 3 message fun _ _ response => (response, .ok ()) with
    event := ⟨4, evfiltRead, flags, some 3⟩ }

theorem reachable_clientGone (flags : UInt16) (message : ByteString) :
    EventLoop.Reachable (handleConnections Unit) (fun _ _ => True) (Boot.plain .normal).state
      ⟨oneClient, [clientGone flags message], none⟩ := by
  have hone : EventLoop.Trace (handleConnections Unit) (fun _ _ => True)
      (Boot.plain .normal).state [client 0] ⟨oneClient, [], none⟩ := trace_oneClient trivial
  refine (hone.fetch (deliverable_singleton (Or.inr ?_))).reachable
  show oneClient.registrations.lookup 4 = some (some 3)
  decide

/-! ## Results -/

/-- **Exactly when a client that is gone is reclaimed**: only if its event still brings
a request that parses, is served and asks to close, and all calls from `send` on return. -/
theorem reclaimed_iff {boot : Boot H} {guard : ServerState H → FiredEvent H → Prop}
    {c : EventLoop.Config (ServerState H) (FiredEvent H) Fault}
    (h : EventLoop.Reachable (handleConnections H) guard boot.state c) (hgo : c.stopped = none)
    {e : FiredEvent H} {rest : List (FiredEvent H)} (hpending : c.pending = e :: rest)
    (hid : e.event.ident ≠ c.state.serverSocket) (hf : e.event.filter = evfiltRead) {ctx : Addr}
    (hctx : e.event.udata = some ctx) :
    TellsClosed e →
      (Reclaimed (c.state.handleEvent e).1 e.event.ident ctx ↔
        MessageCloses c.state e.message) := by
  intro _
  obtain ⟨b, hrun, hr, hl⟩ := ready h hgo hpending
  have hlive : b.live e.event.ident = some ctx := by
    obtain ⟨ctx', hctx', hreg⟩ := hl.resolve_left hid
    rw [hctx, Option.some.injEq] at hctx'
    rw [hctx']
    exact hr.live_of_lookup.1 hreg
  rw [handleEvent_read hid hf hctx, catchAll_fst]
  rcases handleMessageEvent_tables hr.parser ctx e.message with
    ⟨hclose, s', hs', heq⟩ | ⟨hn, hs | hcut⟩
  · rw [heq]
    exact ⟨fun _ => hclose, fun _ => (hr.sameTables hs').reclaimed hrun.valid hlive⟩
  · exact iff_of_false (hr.not_reclaimed hs.connections hlive) hn
  · exact iff_of_false (hr.not_reclaimed hcut.ends.2 hlive) hn

/-- A client that has left a last request is reclaimed with it. -/
theorem reclaimed_iff_close :
    Reclaimed (oneClient.handleEvent (clientGone evError
      (bytes "GET / HTTP/1.1\r\nConnection: close\r\n\r\n"))).1 4 3 := by
  have hreach := reachable_clientGone evError
    (bytes "GET / HTTP/1.1\r\nConnection: close\r\n\r\n")
  have hparse := (HttpParser.Reachable.new .v11).requestFromBuffer_snd
    (bytes "GET / HTTP/1.1\r\nConnection: close\r\n\r\n")
  refine (reclaimed_iff hreach rfl rfl (by decide) rfl rfl (Or.inl (by decide))).2 ?_
  refine ⟨_, ⟨bytes "/", .v11, .get, [⟨bytes "Connection", bytes "close"⟩], []⟩, rfl,
    by decide, ?_, ?_, by decide, nofun, fun _ => ⟨rfl, fun _ => nofun⟩⟩
  · rw [← hparse]
    decide
  · intro ex hex
    cases hex
    rfl

/-- A client that has closed its connection, without a byte left to read, stays
connected, registered and in possession of its block. -/
theorem not_reclaimed_eof :
    EventLoop.Reachable (handleConnections Unit) (fun _ _ => True) (Boot.plain .normal).state
        ⟨oneClient, [clientGone evEof []], none⟩ ∧
      TellsClosed (clientGone evEof []) ∧
      ¬ Reclaimed (oneClient.handleEvent (clientGone evEof [])).1 4 3 := by
  refine ⟨reachable_clientGone evEof [], Or.inr ⟨by decide, rfl⟩, ?_⟩
  intro h
  exact absurd h.released (by decide)

/-- **The loop survives every run of events it can get over**, and the states of such a
run are those in which it gets over exactly these events. -/
theorem loop_survives {boot : Boot H}
    {c : EventLoop.Config (ServerState H) (FiredEvent H) Fault}
    (h : EventLoop.Reachable (handleConnections H) Benign boot.state c) :
    c.stopped = none ∧ ∀ e rest, c.pending = e :: rest → Admissible c.state e →
      (Survives c.state e ↔ Benign c.state e) := by
  have hgo : c.stopped = none := by
    rcases Relation.ReflTransGen.cases_tail h with rfl | ⟨c', h', hst⟩
    · rfl
    · cases hst with
      | fetch => rfl
      | handle ha hb =>
        obtain ⟨b, -, hr, hl⟩ := ready h' rfl rfl
        exact EventLoop.failure_eq_none.2 ((survives_iff_benign hr hl ha).2 hb).ok
  refine ⟨hgo, ?_⟩
  intro e rest hpending ha
  obtain ⟨b, -, hr, hl⟩ := ready h hgo hpending
  exact survives_iff_benign hr hl ha

/-- A message on descriptor 4 that makes the parser throw. -/
def unparsable : FiredEvent Unit :=
  messageEvent 4 3 (bytes "GET / HTTP/1.1\r\nA:\r\n\r\n") fun _ _ response => (response, .ok ())

/-- The parser throws, and the other client notices nothing. -/
theorem loop_survives_throw : Survives twoClients unparsable := by
  have haccept : ∀ s : ServerState Unit, s.serverSocket = 3 → s.channel = .normal →
      s.connectionsMemPool.handedOut.length < 100 → ∀ n, Benign s (client n) := by
    intro s hserver hchannel hroom n
    refine ⟨fun _ => ⟨hroom, fun h => nomatch hchannel.symm.trans h⟩, fun hne => ?_, fun hne => ?_⟩
    · exact absurd hserver.symm hne
    · exact absurd hserver.symm hne
  have htrace := trace_twoClients (haccept _ rfl rfl (by decide) 0)
    (haccept _ rfl rfl (by decide) 1)
  have hdeliver : Deliverable twoClients [unparsable] :=
    deliverable_singleton (Or.inr (by decide))
  refine ((loop_survives (htrace.fetch hdeliver).reachable).2 unparsable [] rfl
    fun hid => absurd hid (by decide)).2 ?_
  refine ⟨fun hid => absurd hid (by decide), fun _ _ => Or.inr ⟨?_, fun request hparse => ?_⟩,
    fun _ htype => absurd htype (by decide)⟩
  · exact ⟨bytes "GET / HTTP/1.1", [bytes "A:"], bytes "GET", bytes "/", [bytes "HTTP/1.1"],
      by decide, by decide, by decide⟩
  · have hthrow : HttpParser.parse (bytes "GET / HTTP/1.1\r\nA:\r\n\r\n") =
        .error (.thrown .outOfRange) := by
      rw [← (HttpParser.Reachable.new .v11).requestFromBuffer_snd]
      decide
    cases hparse.symm.trans hthrow

/-- The client after the hundredth ends the loop: the exception of the exhausted pool
is not caught. -/
theorem exists_exhausted :
    ∃ s s', EventLoop.Reachable (handleConnections Unit) (fun _ _ => True)
        (Boot.plain .normal).state ⟨s, [], none⟩ ∧
      Admissible s (client 100) ∧
      (s.handleEvent (client 100)).2 = .error (.thrown MemoryPool.exhausted) ∧
      EventLoop.Reachable (handleConnections Unit) (fun _ _ => True)
        (Boot.plain .normal).state ⟨s', [], some (.thrown MemoryPool.exhausted)⟩ := by
  obtain ⟨s, htrace, hs⟩ := exists_serves le_rfl
  have hid : (client 100).event.ident = s.serverSocket := hs.serverSocket.symm
  have ha := hs.admissible le_rfl
  obtain ⟨b, -, hr, -⟩ := hs.represents
  have htls : s.channel = .secure → (client 100).accept.tlsResult = 0 := fun _ => rfl
  rcases handleNewConnectionEvent_cases hr (ha hid).1 htls with ⟨-, heq⟩ | ⟨hlt, -⟩
  · have hstep := (htrace.fetch (deliverable_singleton (Or.inl hid))).handle ha trivial
    rw [← handleEvent_server hid] at heq
    have hthrows : EventLoop.process (handleConnections Unit) s (client 100) [] =
        ⟨s, [], some (.thrown MemoryPool.exhausted)⟩ := by
      show EventLoop.Config.mk (s.handleEvent (client 100)).1 []
        (EventLoop.failure (s.handleEvent (client 100)).2) = _
      rw [heq]
      rfl
    rw [hthrows] at hstep
    exact ⟨s, s, htrace.reachable, ha, by rw [heq], hstep.reachable⟩
  · rw [hs.outstanding] at hlt
    omega

/-- **A failed accept never leaves the state as it was**: it costs a block, which
becomes the last connection and the entry of the handle -1. -/
theorem accept_failure_changes {boot : Boot H} {guard : ServerState H → FiredEvent H → Prop}
    {c : EventLoop.Config (ServerState H) (FiredEvent H) Fault}
    (h : EventLoop.Reachable (handleConnections H) guard boot.state c) (hgo : c.stopped = none)
    {e : FiredEvent H} {rest : List (FiredEvent H)} (hpending : c.pending = e :: rest)
    (hid : e.event.ident = c.state.serverSocket) (ha : Admissible c.state e)
    (htls : c.state.channel = .secure → e.accept.tlsResult = 0)
    (hroom : c.state.connectionsMemPool.handedOut.length < 100)
    (hfail : e.accept.descriptor = -1) :
    ¬ Unchanged c.state (c.state.handleEvent e).1 ∧
      ∃ ctx, ctx ∉ c.state.connectionsMemPool.handedOut ∧
        (c.state.handleEvent e).1.connectionsMemPool.handedOut =
          ctx :: c.state.connectionsMemPool.handedOut ∧
        (c.state.handleEvent e).1.connections.find (-1 : SocketHandle).toUInt32 = some ctx ∧
        (c.state.handleEvent e).1.lastConnection = some ctx := by
  obtain ⟨b, -, hr, -⟩ := ready h hgo hpending
  obtain ⟨-, ctx, hnew, hout, hfind, hlast, -⟩ :=
    handleEvent_accept_failure hr hid ha htls hroom hfail
  refine ⟨?_, ctx, hnew, hout, hfind, hlast⟩
  intro hsame
  refine hnew ((hsame.outstanding ctx).1 ?_)
  rw [hout]
  exact List.mem_cons_self ..

/-- A server that has no clients yet and fails to accept one. -/
theorem accept_failure_changes_first :
    ¬ Unchanged (Boot.plain .normal).state ((Boot.plain .normal).state.handleEvent
      (acceptEvent 3 ⟨4, -1, ⟨.other, 0⟩, 0, none⟩)).1 := by
  have hfetch : EventLoop.Reachable (handleConnections Unit) (fun _ _ => True)
      (Boot.plain .normal).state
      ⟨(Boot.plain .normal).state, [acceptEvent 3 ⟨4, -1, ⟨.other, 0⟩, 0, none⟩], none⟩ :=
    .single (.fetch (deliverable_singleton (Or.inl rfl)))
  refine (accept_failure_changes hfetch rfl rfl rfl ?_ (by decide) (by decide) rfl).1
  exact fun _ => ⟨by unfold MemoryPool.Knows; decide, Or.inl rfl⟩

/-- There, the block 3 is handed out, is the last connection and is entered as the
connection of the handle -1. -/
theorem accept_failure_leaves :
    ((Boot.plain .normal).state.handleEvent
        (acceptEvent 3 ⟨4, -1, ⟨.other, 0⟩, 0, none⟩)).1.connectionsMemPool.handedOut = [3] ∧
      ((Boot.plain .normal).state.handleEvent
        (acceptEvent 3 ⟨4, -1, ⟨.other, 0⟩, 0, none⟩)).1.connections.find 4294967295 = some 3 ∧
      ((Boot.plain .normal).state.handleEvent
        (acceptEvent 3 ⟨4, -1, ⟨.other, 0⟩, 0, none⟩)).1.lastConnection = some 3 ∧
      ¬ Unchanged (Boot.plain .normal).state ((Boot.plain .normal).state.handleEvent
        (acceptEvent 3 ⟨4, -1, ⟨.other, 0⟩, 0, none⟩)).1 :=
  ⟨by decide, by decide, by decide, fun h => absurd h.lastConnection (by decide)⟩

end WebServer
