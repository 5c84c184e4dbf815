import WebServer.Server.Transcript

/-!
# How many clients a server can serve

The pool of contexts has a hundred blocks.  An accept takes one, whether a client comes of
it or not, and a disposal gives one back; nothing else does.

* `Account` — what the tables hold, in terms of the accepts and disposals of the run.
* `account_of_trace` — the account is right after every run that goes on.
* `exhausts_iff` — the accept that ends the server.
-/

namespace WebServer

namespace ServerState

variable {H : Type}

/-- Is it an event of the server socket? -/
def isAccept (serverSocket : SocketHandle) (e : FiredEvent H) : Bool :=
  e.event.ident = serverSocket

/-- Is it one whose `accept` fails? -/
def isFailedAccept (serverSocket : SocketHandle) (e : FiredEvent H) : Bool :=
  e.event.ident = serverSocket ∧ e.accept.descriptor = -1

/-- Is it the disposal of a connection? -/
def isDisposal : Action H → Bool
  | .disposed _ => true
  | _ => false

/-- The disposals so far. -/
def disposals (s : ServerState H) : ℕ := s.log.countP isDisposal

/-- The accepts of a run and its disposals account for the blocks and the sockets. -/
structure Account (serverSocket : SocketHandle) (es : List (FiredEvent H)) (s : ServerState H) :
    Prop where
  blocks : s.connectionsMemPool.handedOut.length + s.disposals = es.countP (isAccept serverSocket)
  sockets : s.openSockets.card + es.countP (isFailedAccept serverSocket) =
    s.connectionsMemPool.handedOut.length

/-! ## Disposals -/

/-- A request shows a disposal when it is served, asks for it, and the calls before it return. -/
theorem disposals_shownRequest (handler : HttpHandler H) (ctx : Addr) (request : HttpRequest)
    (a : MessageAnswer H) :
    (Caught a.behave handler request ∧ (Closes request ∧ a.sent ≠ .sigpipe) ∧
          a.disposal.waited = .returned →
        (shownRequest handler ctx request a).countP isDisposal = 1) ∧
      (¬ (Caught a.behave handler request ∧ (Closes request ∧ a.sent ≠ .sigpipe) ∧
          a.disposal.waited = .returned) →
        (shownRequest handler ctx request a).countP isDisposal = 0) := by
  have hcall : (handlerCall handler request).countP isDisposal = 0 := by
    cases handler <;> rfl
  have hcount : ∀ l : List (Action H),
      (Action.parsed ctx request :: handlerCall handler request ++ l).countP isDisposal =
        l.countP isDisposal := by
    intro l
    rw [List.countP_append, List.countP_cons_of_neg Bool.false_ne_true, hcall, Nat.zero_add]
  rw [shownRequest, hcount]
  by_cases hc : Caught a.behave handler request
  · rw [serve_of_caught hc]
    constructor
    · rintro ⟨-, hcl, hw⟩
      simp only [if_pos hcl, shownDisposal, if_pos hw]
      rfl
    · intro hn
      by_cases hcl : Closes request ∧ a.sent ≠ .sigpipe
      · have hw : a.disposal.waited ≠ .returned := fun hw => hn ⟨hc, hcl, hw⟩
        simp only [if_pos hcl, shownDisposal, if_neg hw]
        rfl
      · simp only [if_neg hcl]
        rfl
  · obtain ⟨response, ex, hserve⟩ := serve_of_not_caught hc
    rw [hserve]
    exact ⟨fun h => absurd h.1 hc, fun _ => rfl⟩

/-- A message over which the loop goes on shows one disposal if it closes, and none otherwise. -/
theorem disposals_shownMessage {s : ServerState H} (hp : s.parser.Reachable) {ctx : Addr}
    {a : MessageAnswer H} (hok : (catchAll (s.handleMessageEvent ctx a)).2 = .ok ()) :
    (MessageCloses s a → (shownMessage s.router ctx a).countP isDisposal = 1) ∧
      (¬ MessageCloses s a → (shownMessage s.router ctx a).countP isDisposal = 0) := by
  constructor
  · rintro ⟨message, request, hread, hne, hparse, hc, hcl, hsent, hreturns⟩
    simp only [shownMessage, hread, if_neg hne, hparse]
    exact (disposals_shownRequest _ ctx request a).1 ⟨hc, ⟨hcl, hsent⟩, (hreturns hcl).1⟩
  · intro hcloses
    rw [shownMessage]
    cases hread : a.read with
    | error f => rfl
    | ok message =>
      simp only
      by_cases hne : message = []
      · rw [if_pos hne]
        rfl
      · rw [if_neg hne]
        cases hparse : HttpParser.parse message with
        | error f => rfl
        | ok request =>
          have hresult := (hp.requestFromBuffer_snd message).trans hparse
          rw [handleMessageEvent_of_read hread hne, onClientMessage_of_ok hresult,
            catchAll_respond] at hok
          refine (disposals_shownRequest _ ctx request a).2 ?_
          rintro ⟨hc, ⟨hcl, -⟩, -⟩
          exact hcloses ⟨message, request, hread, hne, hparse, hc, hcl, hok hc⟩

/-- An event of a client over which the loop goes on disposes of its connection, once, or leaves
the tables alone. -/
theorem handleEvent_client_disposal {s : ServerState H} (hp : s.parser.Reachable)
    {e : FiredEvent H} {ctx : Addr} (hid : e.event.ident ≠ s.serverSocket)
    (hctx : e.event.udata = some ctx) (hok : (s.handleEvent e).2 = .ok ()) :
    ((shown s.router s.serverSocket e).countP isDisposal = 0 ∧
        SameTables s (s.handleEvent e).1) ∨
      ((shown s.router s.serverSocket e).countP isDisposal = 1 ∧
        ∃ s', SameTables s s' ∧ s.handleEvent e = (s'.disconnected ctx, .ok ())) := by
  have hcontext : (digestEvent s.serverSocket e.event).context = some ctx := by
    rw [digestEvent_context hid, hctx]
  rw [handleEvent_client hid hctx] at hok ⊢
  rw [shown]
  simp only [hcontext, shownTo]
  cases htype : (digestEvent s.serverSocket e.event).type with
  | read =>
    rw [htype] at hok
    simp only [if_true] at hok ⊢
    obtain ⟨hcloses, hstays⟩ := disposals_shownMessage hp hok
    rcases handleMessageEvent_tables hp ctx e.message with
      ⟨hc, s', hs', heq⟩ | ⟨hn, hs' | hcut⟩
    · exact Or.inr ⟨hcloses hc, s', hs', by rw [heq]; rfl⟩
    · exact Or.inl ⟨hstays hn, by rwa [catchAll_fst]⟩
    · obtain ⟨f, -, hf⟩ := hcut.ends.1
      rw [hcut.catchAll, hf] at hok
      cases hok
  | write => exact Or.inl ⟨rfl, SameTables.refl s⟩
  | disconnect =>
    rw [htype] at hok
    rcases handleDisconnectionEvent_cases (SameTables.refl s) ctx e.message.disposal with
      ⟨hreturns, heq⟩ | ⟨-, hcut⟩
    · refine Or.inr ⟨?_, s, SameTables.refl s, heq⟩
      rw [shownDisposal, if_pos hreturns.1]
      rfl
    · obtain ⟨f, -, hf⟩ := hcut.ends.1
      cases hok.symm.trans hf
  | weird => exact Or.inl ⟨rfl, SameTables.refl s⟩

/-! ## One event -/

theorem Account.sameTables {serverSocket : SocketHandle} {es : List (FiredEvent H)}
    {s s' : ServerState H} (h : Account serverSocket es s)
    (hpool : s'.connectionsMemPool = s.connectionsMemPool)
    (hopen : s'.openSockets = s.openSockets) (hlog : s'.disposals = s.disposals) :
    Account serverSocket es s' where
  blocks := by rw [hpool, hlog, h.blocks]
  sockets := by rw [hpool, hopen, h.sockets]

/-- An event of a client is on no account of the accepts. -/
theorem Account.client {serverSocket : SocketHandle} {es : List (FiredEvent H)}
    {s : ServerState H} (h : Account serverSocket es s) {e : FiredEvent H}
    (hid : e.event.ident ≠ serverSocket) : Account serverSocket (es ++ [e]) s where
  blocks := by
    rw [h.blocks, List.countP_append, List.countP_singleton,
      if_neg (by simpa [isAccept] using hid), Nat.add_zero]
  sockets := by
    rw [← h.sockets, List.countP_append, List.countP_singleton,
      if_neg (by simpa [isFailedAccept] using fun hc => absurd hc hid)]
    omega

/-- A disposal gives a block back and closes a socket. -/
theorem Account.dispose {serverSocket : SocketHandle} {es : List (FiredEvent H)}
    {s : ServerState H} (h : Account serverSocket es s) {b : Sessions.Book SocketHandle Addr}
    (hr : Represents s b) {handle : SocketHandle} {ctx : Addr} (hlive : b.live handle = some ctx) :
    Account serverSocket es (s.disconnected ctx) := by
  obtain ⟨-, -, hopen, -, -, hpool, -⟩ := disconnected_tables s ctx
  rw [hr.handle handle ctx hlive] at hopen
  have hmem : handle ∈ s.openSockets := (hr.openSockets handle).2 (by rw [hlive]; rfl)
  have hheld : ctx ∈ s.connectionsMemPool.handedOut := (hr.handedOut ctx).2 (Or.inl ⟨handle, hlive⟩)
  have hlength : (s.disconnected ctx).connectionsMemPool.handedOut.length + 1 =
      s.connectionsMemPool.handedOut.length := by
    rw [hpool]
    exact List.length_erase_add_one hheld
  have hcard : (s.disconnected ctx).openSockets.card + 1 = s.openSockets.card := by
    rw [hopen]
    exact Finset.card_erase_add_one hmem
  have hdisposals : (s.disconnected ctx).disposals = s.disposals + 1 := by
    rw [disposals, log_disconnected, List.countP_append]
    rfl
  obtain ⟨hblocks, hsockets⟩ := h
  exact ⟨by omega, by omega⟩

/-- An accept takes a block, and a socket if it succeeds. -/
theorem Account.accept {serverSocket : SocketHandle} {es : List (FiredEvent H)}
    {s : ServerState H} (h : Account serverSocket es s) {e : FiredEvent H}
    (hid : e.event.ident = serverSocket) {pool : MemoryPool} {ctx : Addr} {value : SocketContext}
    (hout : pool.handedOut = ctx :: s.connectionsMemPool.handedOut)
    (hvalue : value.socket.handle = e.accept.descriptor)
    (hclosed : e.accept.descriptor = -1 ∨ e.accept.descriptor ∉ s.openSockets) :
    Account serverSocket (es ++ [e]) (s.accepted pool ctx value) := by
  obtain ⟨hblocks, hsockets⟩ := h
  have haccepts : (es ++ [e]).countP (isAccept serverSocket) =
      es.countP (isAccept serverSocket) + 1 := by
    have haccept : isAccept serverSocket e = true := decide_eq_true hid
    rw [List.countP_append, List.countP_singleton, if_pos haccept]
  have hlength : (s.accepted pool ctx value).connectionsMemPool.handedOut.length =
      s.connectionsMemPool.handedOut.length + 1 := congrArg List.length hout
  refine ⟨?_, ?_⟩
  · rw [hlength, haccepts, ← hblocks]
    exact Nat.add_right_comm ..
  · rw [hlength, ← hsockets, List.countP_append, List.countP_singleton]
    by_cases hfail : e.accept.descriptor = -1
    · have hfailed : isFailedAccept serverSocket e = true := decide_eq_true ⟨hid, hfail⟩
      rw [if_pos hfailed, accepted]
      simp only [hvalue, if_pos hfail]
      omega
    · rw [if_neg (by simpa [isFailedAccept] using fun _ => hfail), accepted]
      simp only [hvalue, if_neg hfail]
      rw [Finset.card_insert_of_notMem (hclosed.resolve_left hfail)]
      omega

/-- An accept ends well or ends the process. -/
theorem acceptConnection_snd (s : ServerState H) (ctx : Addr) (a : AcceptAnswer) :
    (s.acceptConnection ctx a).2 = .ok () ∨ (s.acceptConnection ctx a).2 = .error (.exit 1) := by
  unfold acceptConnection
  cases s.channel with
  | normal => exact Or.inl rfl
  | secure =>
    simp only
    split_ifs
    · exact Or.inr rfl
    · exact Or.inl rfl

/-- The pool throws at an accept when it is full, and nothing else throws what it throws. -/
theorem handleNewConnectionEvent_exhausted_iff {s : ServerState H}
    {b : Sessions.Book SocketHandle Addr} (hr : Represents s b) {a : AcceptAnswer}
    (hblock : ¬ s.connectionsMemPool.Knows a.block) :
    (s.handleNewConnectionEvent a).2 = .error (.thrown MemoryPool.exhausted) ↔
      s.connectionsMemPool.handedOut.length = 100 := by
  have hsize : sizeofSocketContext ≤ s.connectionsMemPool.blockSize := by rw [hr.blockSize]
  rw [handleNewConnectionEvent, MemoryPool.allocate_of_le hsize]
  rcases MemoryPool.getMemory_cases hr.accounted hblock with
    ⟨-, hfull, hget⟩ | ⟨hroom, pool, ctx, hget, -⟩
  · rw [hget]
    exact iff_of_true rfl (hfull.trans hr.maxAlloc)
  · rw [hr.maxAlloc] at hroom
    rw [hget]
    refine iff_of_false (fun hthrown => ?_) (by omega)
    simp only [Except.map] at hthrown
    -- with a block in hand, only the handshake can go wrong, and that exits
    rcases hacc : acceptConnection { s with connectionsMemPool := pool } ctx a with ⟨s', f | u⟩
    · have hends := acceptConnection_snd { s with connectionsMemPool := pool } ctx a
      rw [hacc] at hends hthrown
      rcases hends with hok | hexit
      · cases hok
      · cases hexit.symm.trans hthrown
    · rw [hacc] at hthrown
      cases hthrown

end ServerState

open ServerState

variable {H : Type}

/-! ## Runs -/

/-- **The account is right after every run that goes on.** -/
theorem account_of_trace {boot : Boot H} {guard : ServerState H → FiredEvent H → Prop}
    {es : List (FiredEvent H)} {c : EventLoop.Config (ServerState H) (FiredEvent H) Fault}
    (h : EventLoop.Trace (handleConnections H) guard boot.state es c) (hgo : c.stopped = none) :
    Account boot.serverSocket es c.state := by
  let I : List (FiredEvent H) → Option Fault → ServerState H → Prop := fun es stopped s =>
    stopped = none → s.serverSocket = boot.serverSocket ∧ Account boot.serverSocket es s
  refine (EventLoop.Trace.invariant (I := I) h (fun _ => ⟨rfl, rfl, rfl⟩) ?_ hgo).2
  intro es s e rest htrace hI ha _ hok
  obtain ⟨hserver, hacc⟩ := hI rfl
  obtain ⟨b, hrun, hr, hl⟩ := ready htrace.reachable rfl rfl
  have hshows := shows_handleEvent hr.parser e
  refine ⟨hshows.serverSocket.trans hserver, ?_⟩
  by_cases hid : e.event.ident = s.serverSocket
  · have hsucceeds := handshakeSucceeds_of_ok (EventLoop.failure_eq_none.1 hok)
    show Account boot.serverSocket (es ++ [e]) (s.handleEvent e).1
    rw [handleEvent_server hid]
    rcases handleNewConnectionEvent_cases hr (ha hid).1 (hsucceeds hid) with
      ⟨-, heq⟩ | ⟨-, pool, ctx, value, hvalue, -, hout, -, -, -, -, heq⟩
    · -- an exhausted pool ends the loop
      change EventLoop.failure (s.handleEvent e).2 = none at hok
      rw [handleEvent_server hid, heq] at hok
      cases hok
    · rw [heq]
      exact hacc.accept (hid.trans hserver) hout hvalue ((ha hid).2.imp_right And.left)
  · obtain ⟨ctx, hctx, hreg⟩ := hl.resolve_left hid
    have hclient := hacc.client (e := e) (hserver ▸ hid)
    have hdisposals : (s.handleEvent e).1.disposals =
        s.disposals + (shown s.router s.serverSocket e).countP isDisposal := by
      rw [disposals, hshows.log, List.countP_append, disposals]
    show Account boot.serverSocket (es ++ [e]) (s.handleEvent e).1
    rcases handleEvent_client_disposal hr.parser hid hctx (EventLoop.failure_eq_none.1 hok) with
      ⟨hnone, hs⟩ | ⟨hone, s', hs', heq⟩
    · exact hclient.sameTables hs.connectionsMemPool hs.openSockets (by rw [hdisposals, hnone]; rfl)
    · have hlog : s'.disposals = s.disposals := by
        rw [hone, heq, disposals, log_disconnected, List.countP_append] at hdisposals
        exact Nat.add_right_cancel hdisposals
      rw [heq]
      exact (hclient.sameTables hs'.connectionsMemPool hs'.openSockets hlog).dispose
        (hr.sameTables hs') (hr.live_of_lookup.1 hreg)

/-- **Exactly how many clients a server can serve.**  In every run that goes on, the clients
that are connected are the accepts without those that failed and without the disposals;
and the next accept ends the loop if and only if the accepts so far, failed or not, are a
hundred more than the disposals. -/
theorem exhausts_iff {boot : Boot H} {guard : ServerState H → FiredEvent H → Prop}
    {es : List (FiredEvent H)} {c : EventLoop.Config (ServerState H) (FiredEvent H) Fault}
    (h : EventLoop.Trace (handleConnections H) guard boot.state es c) (hgo : c.stopped = none) :
    c.state.openSockets.card + es.countP (isFailedAccept boot.serverSocket) + c.state.disposals =
        es.countP (isAccept boot.serverSocket) ∧
      es.countP (isAccept boot.serverSocket) ≤ 100 + c.state.disposals ∧
      ∀ e rest, c.pending = e :: rest → e.event.ident = c.state.serverSocket →
        Admissible c.state e →
        ((c.state.handleEvent e).2 = .error (.thrown MemoryPool.exhausted) ↔
          es.countP (isAccept boot.serverSocket) = 100 + c.state.disposals) := by
  obtain ⟨hblocks, hsockets⟩ := account_of_trace h hgo
  obtain ⟨b, -, hr, -⟩ := (represents_of_reachable h.reachable).1 (Or.inl hgo)
  have hlimit : c.state.connectionsMemPool.handedOut.length ≤ 100 := by
    have hmax := hr.accounted.limit (by rw [hr.maxAlloc]; decide)
    have hcount := hr.accounted.allocated_eq
    rw [hr.maxAlloc] at hmax
    omega
  refine ⟨by omega, by omega, fun e rest _ hid ha => ?_⟩
  rw [handleEvent_server hid, handleNewConnectionEvent_exhausted_iff hr (ha hid).1]
  omega

/-- A hundred clients are there, and nobody has left: the next accept ends the server. -/
theorem exhausts_iff_full :
    ∃ s, EventLoop.Trace (handleConnections Unit) (fun _ _ => True) (Boot.plain .normal).state
        ((List.range 100).map client) ⟨s, [client 100], none⟩ ∧
      (s.handleEvent (client 100)).2 = .error (.thrown MemoryPool.exhausted) := by
  obtain ⟨s, htrace, hs⟩ := exists_serves le_rfl
  have hid : (client 100).event.ident = s.serverSocket := hs.serverSocket.symm
  have hfetch := htrace.fetch (deliverable_singleton (Or.inl hid))
  have haccepts : ((List.range 100).map client).countP (isAccept 3) = 100 := by
    rw [List.countP_eq_length.2, List.length_map, List.length_range]
    intro e he
    obtain ⟨n, -, rfl⟩ := List.mem_map.1 he
    exact decide_eq_true rfl
  have hblocks := (account_of_trace htrace rfl).blocks
  change s.connectionsMemPool.handedOut.length + s.disposals = _ at hblocks
  rw [hs.outstanding] at hblocks
  exact ⟨s, hfetch,
    ((exhausts_iff hfetch rfl).2.2 (client 100) [] rfl hid (hs.admissible le_rfl)).2 hblocks.symm⟩

end WebServer
